import Mathlib.Logic.Relation

/-! # Runs of a partial step function

A system is a state type with a step function that answers `none` when an action
is not enabled. A run is a list of actions; invariants are proved for one step and
carried to whole runs here, once for all systems of the development.
-/
namespace Verdict.Run
variable {S A : Type*}

def exec (step : S → A → Option S) : S → List A → Option S
  | s, [] => some s
  | s, a :: as => (step s a).bind fun t => exec step t as

def AllSteps (step : S → A → Option S) (ok : S → A → Prop) : S → List A → Prop
  | _, [] => True
  | s, a :: as => ok s a ∧ ∀ t, step s a = some t → AllSteps step ok t as

def Reaches (step : S → A → Option S) (s t : S) : Prop := ∃ as, exec step s as = some t

variable {step : S → A → Option S}

theorem exec_cons {s u : S} {a : A} {as : List A} (h : exec step s (a :: as) = some u) :
    ∃ t, step s a = some t ∧ exec step t as = some u := Option.bind_eq_some_iff.mp h

theorem exec_append (s : S) (as bs : List A) :
    exec step s (as ++ bs) = (exec step s as).bind fun t => exec step t bs := by
  induction as generalizing s with
  | nil => rfl
  | cons a as ih =>
    simp only [List.cons_append,exec,Option.bind_assoc]
    congr 1
    funext t
    exact ih t

theorem Reaches.tail {s t u : S} {a : A} (h : Reaches step s t) (hstep : step t a = some u) : Reaches step s u := by
  obtain ⟨as,has⟩ := h
  exact ⟨as ++ [a],by simp [exec_append,has,exec,hstep]⟩

theorem exec_invariant_of {ok : S → A → Prop} {I : S → Prop}
    (hstep : ∀ s a t, I s → ok s a → step s a = some t → I t)
    {s t : S} {as : List A} (hok : AllSteps step ok s as) (h : exec step s as = some t) (hs : I s) : I t := by
  induction as generalizing s with
  | nil => cases h; exact hs
  | cons a as ih =>
    obtain ⟨u,hu,hrest⟩ := exec_cons h
    exact ih (hok.2 u hu) hrest (hstep s a u hs hok.1 hu)

theorem allSteps_true (s : S) (as : List A) : AllSteps step (fun _ _ => True) s as := by
  induction as generalizing s with
  | nil => trivial
  | cons a as ih => exact ⟨trivial,fun t _ => ih t⟩

theorem allSteps_of_forall {P : A → Prop} {as : List A} (h : ∀ a ∈ as, P a) (s : S) : AllSteps step (fun _ a => P a) s as := by
  induction as generalizing s with
  | nil => trivial
  | cons a as ih => exact ⟨h a List.mem_cons_self,fun t _ => ih (fun b hb => h b (List.mem_cons_of_mem a hb)) t⟩

theorem exec_invariant {I : S → Prop} (hstep : ∀ s a t, I s → step s a = some t → I t)
    {s t : S} {as : List A} (h : exec step s as = some t) (hs : I s) : I t :=
  exec_invariant_of (fun s a t hi _ he => hstep s a t hi he) (allSteps_true s as) h hs

theorem AllSteps.and {ok ok' : S → A → Prop} {s : S} {as : List A} (h : AllSteps step ok s as)
    (h' : AllSteps step ok' s as) : AllSteps step (fun s a => ok s a ∧ ok' s a) s as := by
  induction as generalizing s with
  | nil => trivial
  | cons a as ih => exact ⟨⟨h.1,h'.1⟩,fun t ht => ih (h.2 t ht) (h'.2 t ht)⟩

theorem AllSteps.take {ok : S → A → Prop} {s : S} {as bs : List A} (h : AllSteps step ok s (as ++ bs)) :
    AllSteps step ok s as := by
  induction as generalizing s with
  | nil => trivial
  | cons a as ih => exact ⟨h.1,fun t ht => ih (h.2 t ht)⟩

theorem AllSteps.drop {ok : S → A → Prop} {s t : S} {as bs : List A} (h : AllSteps step ok s (as ++ bs))
    (hs : exec step s as = some t) : AllSteps step ok t bs := by
  induction as generalizing s with
  | nil => cases hs; exact h
  | cons a as ih =>
    obtain ⟨u,hu,hrest⟩ := exec_cons hs
    exact ih (h.2 u hu) hrest

theorem allSteps_cons_none {ok : S → A → Prop} {s : S} {a : A} {as : List A} (h : step s a = none) :
    AllSteps step ok s (a :: as) ↔ ok s a :=
  ⟨And.left,fun ho => ⟨ho,fun t ht => absurd (h.symm.trans ht) (by simp)⟩⟩

theorem allSteps_cons_some {ok : S → A → Prop} {s t : S} {a : A} {as : List A} (h : step s a = some t) :
    AllSteps step ok s (a :: as) ↔ ok s a ∧ AllSteps step ok t as := by
  refine ⟨fun ha => ⟨ha.1,ha.2 t h⟩,fun ha => ⟨ha.1,fun u hu => ?_⟩⟩
  cases h.symm.trans hu
  exact ha.2

theorem first_violation {ok : S → A → Prop} {s : S} {as : List A} (h : ¬AllSteps step ok s as) :
    ∃ pre a post t, as = pre ++ a :: post ∧ AllSteps step ok s pre ∧ exec step s pre = some t ∧ ¬ok t a := by
  induction as generalizing s with
  | nil => exact absurd trivial h
  | cons a as ih =>
    by_cases hok : ok s a
    · cases hu : step s a with
      | none => exact absurd ⟨hok,fun t ht => absurd (hu.symm.trans ht) (by simp)⟩ h
      | some u =>
        have hbad : ¬AllSteps step ok u as := by
          intro hrest
          refine h ⟨hok,?_⟩
          intro t ht
          cases hu.symm.trans ht
          exact hrest
        obtain ⟨pre,b,post,t,rfl,hpre,hexec,hb⟩ := ih hbad
        refine ⟨a :: pre,b,post,t,rfl,⟨hok,?_⟩,?_,hb⟩
        · intro v hv
          cases hu.symm.trans hv
          exact hpre
        · rw [exec,hu]
          exact hexec
    · exact ⟨[],a,as,s,rfl,trivial,rfl,hok⟩

instance decidableAllSteps {ok : S → A → Prop} [∀ s a,Decidable (ok s a)] :
    (s : S) → (as : List A) → Decidable (AllSteps step ok s as)
  | _, [] => isTrue trivial
  | s, a :: as => match h : step s a with
    | none => decidable_of_iff (ok s a) (allSteps_cons_none h).symm
    | some t =>
      have : Decidable (AllSteps step ok t as) := decidableAllSteps t as
      decidable_of_iff (ok s a ∧ AllSteps step ok t as) (allSteps_cons_some h).symm

end Verdict.Run

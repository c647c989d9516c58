import Mathlib.Data.List.Forall2

/-! # Computations that may raise

What it means that a computation in `Except` has come to a result, for sequencing, for a
loop with an accumulator and for a loop that collects its results.
-/
namespace Verdict.Raising

open List (foldlM_cons forall_mem_cons mapM_cons mem_cons mem_cons_of_mem mem_cons_self not_mem_nil)
variable {ε α β γ : Type}
variable {x : Except ε α} {f : α → Except ε β} {b : β}

theorem bind_ok : (x >>= f) = .ok b ↔ ∃ a, x = .ok a ∧ f a = .ok b := by
  cases x with
  | error e => simp [bind,Except.bind]
  | ok a => simp [bind,Except.bind]

theorem map_ok {f : α → β} : x.map f = .ok b ↔ ∃ a, x = .ok a ∧ f a = b := by
  cases x with
  | error e => simp [Except.map]
  | ok a => simp [Except.map]

variable {a : α}

theorem mapError_ok {ε' : Type} {f : ε → ε'} : x.mapError f = .ok a ↔ x = .ok a := by
  cases x with
  | error e => simp [Except.mapError]
  | ok b => simp [Except.mapError]

theorem toOption_some : x.toOption = some a ↔ x = .ok a := by
  cases x with
  | error e => simp [Except.toOption]
  | ok b => simp [Except.toOption]

/-! ### Checks -/

def require (p : Prop) [Decidable p] (e : ε) : Except ε Unit := if p then .ok () else .error e

variable {e : ε}

theorem require_ok {p : Prop} [Decidable p] : require p e = .ok () ↔ p := by
  rw [require]
  split
  · next h => exact iff_of_true rfl h
  · next h => exact iff_of_false (fun he => nomatch he) h

variable {y : Except ε β}

theorem check_ok {x : Except ε Unit} : (x >>= fun _ => y) = .ok b ↔ x = .ok () ∧ y = .ok b := by
  rw [bind_ok]
  exact ⟨fun ⟨_,hx,hy⟩ => ⟨hx,hy⟩,fun ⟨hx,hy⟩ => ⟨_,hx,hy⟩⟩

def each (f : Nat → α → Except ε Unit) : Nat → List α → Except ε Unit
  | _, [] => .ok ()
  | i, x :: xs => do
    f i x
    each f (i + 1) xs

variable {xs : List α} {i : Nat}

theorem each_ok {f : Nat → α → Except ε Unit} {P : α → Prop} (h : ∀ i, ∀ x ∈ xs, f i x = .ok () ↔ P x) :
    each f i xs = .ok () ↔ ∀ x ∈ xs, P x := by
  induction xs generalizing i with
  | nil => exact iff_of_true rfl fun _ hx => absurd hx not_mem_nil
  | cons x xs ih =>
    rw [each,check_ok,h i x mem_cons_self,ih fun j y hy => h j y (mem_cons_of_mem x hy),forall_mem_cons]

theorem each_all (f : α → Except ε Unit) : each (fun _ => f) i xs = .ok () ↔ ∀ x ∈ xs, f x = .ok () :=
  each_ok (f := fun _ => f) (P := fun x => f x = .ok ()) fun _ _ _ => Iff.rfl

theorem foldlM_preserves {P : β → Prop} {f : β → α → Except ε β} {b' : β}
    (hstep : ∀ c x c', x ∈ xs → P c → f c x = .ok c' → P c') (hb : P b) (h : xs.foldlM f b = .ok b') : P b' := by
  induction xs generalizing b with
  | nil =>
    cases h
    exact hb
  | cons x xs ih =>
    rw [foldlM_cons] at h
    obtain ⟨c,hc,hrest⟩ := bind_ok.mp h
    exact ih (fun d y d' hy => hstep d y d' (mem_cons_of_mem _ hy)) (hstep b x c mem_cons_self hb hc) hrest

theorem foldlM_along {P : List α → β → Prop} {f : β → α → Except ε β} {all : List α}
    (hstep : ∀ done x rest c, done ++ x :: rest = all → P done c → ∃ c', f c x = .ok c' ∧ P (done ++ [x]) c')
    (hb : P [] b) : ∃ b', all.foldlM f b = .ok b' ∧ P all b' := by
  have hrun : ∀ xs done c, done ++ xs = all → P done c → ∃ b', xs.foldlM f c = .ok b' ∧ P all b' := by
    intro xs
    induction xs with
    | nil =>
      intro done c hall hc
      rw [List.append_nil] at hall
      exact ⟨c,rfl,hall ▸ hc⟩
    | cons x xs ih =>
      intro done c hall hc
      obtain ⟨c',hx,hc'⟩ := hstep done x xs c hall hc
      obtain ⟨b',hrest,hb'⟩ := ih (done ++ [x]) c' (by rw [← hall,List.append_assoc,List.singleton_append]) hc'
      refine ⟨b',?_,hb'⟩
      rw [foldlM_cons]
      exact bind_ok.mpr ⟨c',hx,hrest⟩
  exact hrun all [] b (List.nil_append all) hb

theorem foldlM_isOk {f : β → α → Except ε β} {P : α → Prop} (hf : ∀ b a, (f b a).isOk = true ↔ P a) (xs : List α) :
    ∀ b, (xs.foldlM f b).isOk = true ↔ ∀ x ∈ xs, P x := by
  induction xs with
  | nil => exact fun b => ⟨fun _ x hx => (not_mem_nil hx).elim,fun _ => rfl⟩
  | cons x xs ih =>
    intro b
    rw [foldlM_cons,forall_mem_cons,← hf b x]
    cases hx : f b x with
    | error e => exact ⟨fun h => (nomatch h),fun h => (nomatch h.1)⟩
    | ok b' => exact (ih b').trans ⟨fun h => ⟨rfl,h⟩,fun h => h.2⟩

variable {c : β}

theorem foldlM_append_ok {f : β → α → Except ε β} {ys : List α} :
    (xs ++ ys).foldlM f b = .ok c ↔ ∃ m, xs.foldlM f b = .ok m ∧ ys.foldlM f m = .ok c := by
  rw [List.foldlM_append]
  exact bind_ok

theorem foldlM_snoc_ok {f : β → α → Except ε β} {x : α} :
    (xs ++ [x]).foldlM f b = .ok c ↔ ∃ m, xs.foldlM f b = .ok m ∧ f m x = .ok c := by
  rw [foldlM_append_ok]
  refine exists_congr fun m => and_congr_right fun _ => ?_
  rw [foldlM_cons,bind_ok]
  constructor
  · rintro ⟨c',h,hc⟩
    cases hc
    exact h
  · intro h
    exact ⟨c,h,rfl⟩

theorem foldlM_error {f : β → α → Except ε β} :
    xs.foldlM f b = .error e ↔ ∃ u x v c, xs = u ++ x :: v ∧ u.foldlM f b = .ok c ∧ f c x = .error e := by
  induction xs generalizing b with
  | nil =>
    constructor
    · intro h
      cases h
    · rintro ⟨u,x,v,c,hsplit,-⟩
      exact absurd hsplit.symm (List.append_ne_nil_of_right_ne_nil _ (List.cons_ne_nil x v))
  | cons y xs ih =>
    rw [foldlM_cons]
    cases hy : f b y with
    | error e' =>
      constructor
      · intro h
        cases h
        exact ⟨[],y,xs,b,rfl,rfl,hy⟩
      · rintro ⟨u,x,v,c,hsplit,hu,hx⟩
        cases u with
        | nil =>
          cases hsplit
          cases hu
          rw [hy] at hx
          exact hx
        | cons z u =>
          cases hsplit
          rw [foldlM_cons,hy] at hu
          cases hu
    | ok b' =>
      constructor
      · intro h
        obtain ⟨u,x,v,c,rfl,hu,hx⟩ := ih.mp h
        refine ⟨y :: u,x,v,c,rfl,?_,hx⟩
        rw [foldlM_cons,hy]
        exact hu
      · rintro ⟨u,x,v,c,hsplit,hu,hx⟩
        cases u with
        | nil =>
          cases hsplit
          cases hu
          rw [hy] at hx
          cases hx
        | cons z u =>
          cases hsplit
          rw [foldlM_cons,hy] at hu
          exact ih.mpr ⟨u,x,v,c,rfl,hu,hx⟩

/-- Whatever the first computation comes to, the second comes to a related result. -/
def Related (R : α → β → Prop) (x : Except ε α) (y : Except ε β) : Prop := ∀ a, x = .ok a → ∃ b, y = .ok b ∧ R a b

theorem Related.ok {R : α → β → Prop} (h : R a b) : Related R (.ok a : Except ε α) (.ok b : Except ε β) := by
  intro a' ha'
  cases ha'
  exact ⟨b,rfl,h⟩

theorem Related.bind {δ : Type} {R : α → β → Prop} {S : γ → δ → Prop} {f : α → Except ε γ}
    {g : β → Except ε δ} (h : Related R x y) (hfg : ∀ a b, R a b → Related S (f a) (g b)) :
    Related S (Except.bind x f) (Except.bind y g) := by
  intro c hc
  obtain ⟨a,ha,hfa⟩ := bind_ok.mp hc
  obtain ⟨b,hb,hab⟩ := h a ha
  rw [hb]
  exact hfg a b hab c hfa

variable {ys : List β}

theorem mapM_mem (h : xs.mapM f = .ok ys) : ∀ y ∈ ys, ∃ x ∈ xs, f x = .ok y := by
  induction xs generalizing ys with
  | nil =>
    cases h
    exact fun y hy => absurd hy not_mem_nil
  | cons x xs ih =>
    rw [mapM_cons] at h
    obtain ⟨b,hb,h⟩ := bind_ok.mp h
    obtain ⟨bs,hbs,h⟩ := bind_ok.mp h
    cases h
    intro y hy
    rcases mem_cons.mp hy with rfl | hy
    · exact ⟨x,mem_cons_self,hb⟩
    · obtain ⟨z,hz,hy⟩ := ih hbs y hy
      exact ⟨z,mem_cons_of_mem _ hz,hy⟩

theorem mem_mapM {x : α} (h : xs.mapM f = .ok ys) (hx : x ∈ xs) : ∃ y ∈ ys, f x = .ok y := by
  induction xs generalizing ys with
  | nil => exact absurd hx not_mem_nil
  | cons z xs ih =>
    rw [mapM_cons] at h
    obtain ⟨b,hb,h⟩ := bind_ok.mp h
    obtain ⟨bs,hbs,h⟩ := bind_ok.mp h
    cases h
    rcases mem_cons.mp hx with rfl | hx
    · exact ⟨b,mem_cons_self,hb⟩
    · obtain ⟨y,hy,hval⟩ := ih hbs hx
      exact ⟨y,mem_cons_of_mem _ hy,hval⟩

theorem ok_of_isOk (h : x.isOk = true) : ∃ a, x = .ok a := by
  cases x with
  | error e => cases h
  | ok a => exact ⟨a,rfl⟩

theorem mapM_isOk : (∃ ys, xs.mapM f = .ok ys) ↔ ∀ x ∈ xs, ∃ y, f x = .ok y := by
  constructor
  · rintro ⟨ys,h⟩ x hx
    obtain ⟨y,-,hy⟩ := mem_mapM h hx
    exact ⟨y,hy⟩
  · intro h
    induction xs with
    | nil => exact ⟨[],rfl⟩
    | cons x xs ih =>
      obtain ⟨⟨y,hy⟩,hxs⟩ := forall_mem_cons.mp h
      obtain ⟨ys,hys⟩ := ih hxs
      rw [mapM_cons,hy,hys]
      exact ⟨y :: ys,rfl⟩

theorem mapM_forall₂ (h : xs.mapM f = .ok ys) : List.Forall₂ (fun x y => f x = .ok y) xs ys := by
  induction xs generalizing ys with
  | nil =>
    cases h
    exact .nil
  | cons x xs ih =>
    rw [mapM_cons] at h
    obtain ⟨b,hb,h⟩ := bind_ok.mp h
    obtain ⟨bs,hbs,h⟩ := bind_ok.mp h
    cases h
    exact .cons hb (ih hbs)

theorem mapM_map_ok {g : α → β} (h : ∀ x ∈ xs, f x = .ok (g x)) : xs.mapM f = .ok (xs.map g) := by
  induction xs with
  | nil => rfl
  | cons x xs ih =>
    obtain ⟨hx,hxs⟩ := forall_mem_cons.mp h
    rw [mapM_cons,hx,ih hxs]
    rfl

theorem mapM_self_iff {f : α → Except ε α} : xs.mapM f = .ok xs ↔ ∀ x ∈ xs, f x = .ok x := by
  constructor
  · intro hok x hx
    obtain ⟨-,hget⟩ := List.forall₂_iff_get.mp (mapM_forall₂ hok)
    obtain ⟨i,hi,rfl⟩ := List.getElem_of_mem hx
    exact hget i hi hi
  · intro h
    have hmap : xs.mapM f = .ok (xs.map id) := mapM_map_ok h
    rwa [List.map_id] at hmap

end Verdict.Raising

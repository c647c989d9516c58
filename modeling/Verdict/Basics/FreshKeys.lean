import Mathlib.Data.List.Basic

/-! # Appending what has a new key

Entries are appended one after the other, each only if its key is not taken yet. An entry
gets in exactly when no entry held before and none offered earlier has its key.
-/
namespace Verdict.FreshKeys

variable {α κ : Type} [DecidableEq κ] (key : α → κ)

def addNew (held : List α) (e : α) : List α := if key e ∈ held.map key then held else held ++ [e]

def addAll (held offered : List α) : List α := offered.foldl (addNew key) held

variable {key}

theorem keys_addNew (held : List α) (e : α) (k : κ) :
    k ∈ (addNew key held e).map key ↔ k ∈ held.map key ∨ k = key e := by
  unfold addNew
  split
  · rename_i htaken
    exact ⟨.inl,fun h => h.elim id fun heq => heq ▸ htaken⟩
  · simp

theorem mem_addNew {held : List α} {e x : α} : x ∈ addNew key held e ↔ x ∈ held ∨ (x = e ∧ key x ∉ held.map key) := by
  unfold addNew
  split
  · rename_i htaken
    refine ⟨.inl,fun h => h.elim id fun hnew => ?_⟩
    exact absurd (hnew.1 ▸ htaken) hnew.2
  · rename_i hfree
    rw [List.mem_append,List.mem_singleton]
    refine or_congr_right ⟨fun heq => ⟨heq,heq ▸ hfree⟩,And.left⟩

theorem keys_addAll (held offered : List α) (k : κ) :
    k ∈ (addAll key held offered).map key ↔ k ∈ held.map key ∨ k ∈ offered.map key := by
  unfold addAll
  induction offered generalizing held with
  | nil => simp
  | cons e offered ih =>
    rw [List.foldl_cons,ih,keys_addNew,List.map_cons,List.mem_cons,or_assoc]

theorem prefix_addAll (held offered : List α) : held <+: addAll key held offered := by
  unfold addAll
  induction offered generalizing held with
  | nil => exact List.prefix_rfl
  | cons e offered ih =>
    refine List.IsPrefix.trans ?_ (ih (addNew key held e))
    unfold addNew
    split
    · exact List.prefix_rfl
    · exact List.prefix_append _ _

theorem mem_addAll {held offered : List α} {x : α} : x ∈ addAll key held offered ↔
    x ∈ held ∨ ∃ before after, offered = before ++ x :: after ∧ key x ∉ (held ++ before).map key := by
  unfold addAll
  induction offered generalizing held with
  | nil => simp
  | cons e offered ih =>
    rw [List.foldl_cons,ih,mem_addNew,or_assoc]
    refine or_congr_right ⟨?_,?_⟩
    · rintro (⟨rfl,hfree⟩ | ⟨before,after,rfl,hfree⟩)
      · exact ⟨[],offered,rfl,by simpa using hfree⟩
      · refine ⟨e :: before,after,rfl,fun htaken => hfree ?_⟩
        rw [List.map_append,List.mem_append] at htaken ⊢
        rw [keys_addNew]
        rcases htaken with hheld | hbefore
        · exact .inl (.inl hheld)
        · rcases List.mem_cons.mp hbefore with heq | hbefore
          · exact .inl (.inr heq)
          · exact .inr hbefore
    · rintro ⟨before,after,hsplit,hfree⟩
      cases before with
      | nil =>
        cases hsplit
        exact .inl ⟨rfl,by simpa using hfree⟩
      | cons b before =>
        cases hsplit
        refine .inr ⟨before,after,rfl,fun htaken => hfree ?_⟩
        rw [List.map_append,List.mem_append,keys_addNew] at htaken
        rw [List.map_append,List.mem_append,List.map_cons,List.mem_cons]
        rcases htaken with (hheld | heq) | hbefore
        · exact .inl hheld
        · exact .inr (.inl heq)
        · exact .inr (.inr hbefore)

theorem addAll_of_taken {held offered : List α} (h : ∀ e ∈ offered, key e ∈ held.map key) : addAll key held offered = held := by
  unfold addAll
  induction offered with
  | nil => rfl
  | cons e offered ih =>
    rw [List.foldl_cons,addNew,if_pos (h e List.mem_cons_self)]
    exact ih fun f hf => h f (List.mem_cons_of_mem e hf)

end Verdict.FreshKeys

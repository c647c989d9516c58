import Mathlib.Algebra.BigOperators.Group.List.Basic
import Mathlib.Algebra.GroupWithZero.Nat
import Mathlib.Data.List.Nodup

/-! # Taking what fits

A list is walked over once. A member is taken when it passes, has not the label of one taken
before, and its cost still fits; what does not fit is passed over, not kept for later.
-/
namespace Verdict.Greedy
variable {α κ : Type} [DecidableEq κ] (passes : α → Prop) [DecidablePred passes] (label : α → κ) (cost : α → ℕ) (budget : ℕ)

def take : ℕ → List κ → List α → List α
  | _, _, [] => []
  | used, held, a :: rest =>
    if passes a ∧ label a ∉ held ∧ used + cost a ≤ budget then a :: take (used + cost a) (label a :: held) rest
    else take used held rest

variable {passes label cost budget}
variable {used : ℕ} {held : List κ} {xs : List α} {a : α}

theorem take_cons_of_fits (h : passes a ∧ label a ∉ held ∧ used + cost a ≤ budget) :
    take passes label cost budget used held (a :: xs) =
      a :: take passes label cost budget (used + cost a) (label a :: held) xs := if_pos h

theorem take_cons_of_not_fits (h : ¬ (passes a ∧ label a ∉ held ∧ used + cost a ≤ budget)) :
    take passes label cost budget used held (a :: xs) = take passes label cost budget used held xs := if_neg h

theorem take_sublist : (take passes label cost budget used held xs).Sublist xs := by
  induction xs generalizing used held with
  | nil => exact List.Sublist.slnil
  | cons a xs ih =>
    unfold take
    split
    · exact ih.cons_cons a
    · exact ih.cons a

theorem passes_of_mem (h : a ∈ take passes label cost budget used held xs) : passes a := by
  induction xs generalizing used held with
  | nil => exact absurd h List.not_mem_nil
  | cons b xs ih =>
    unfold take at h
    split at h
    · next hfits =>
      rcases List.mem_cons.mp h with rfl | h
      · exact hfits.1
      · exact ih h
    · exact ih h

theorem sum_cost_le (h : used ≤ budget) : used + ((take passes label cost budget used held xs).map cost).sum ≤ budget := by
  induction xs generalizing used held with
  | nil => exact h
  | cons a xs ih =>
    unfold take
    split
    · next hfits =>
      have hrest : used + cost a + ((take passes label cost budget (used + cost a) (label a :: held) xs).map cost).sum ≤ budget :=
        ih hfits.2.2
      rw [List.map_cons,List.sum_cons]
      omega
    · exact ih h

theorem labels_nodup : ((take passes label cost budget used held xs).map label).Nodup ∧
    ∀ k ∈ (take passes label cost budget used held xs).map label, k ∉ held := by
  induction xs generalizing used held with
  | nil => exact ⟨List.nodup_nil,fun _ h => absurd h List.not_mem_nil⟩
  | cons a xs ih =>
    unfold take
    split
    · next hfits =>
      obtain ⟨hnodup,hnew⟩ : _ ∧ ∀ k ∈ (take passes label cost budget (used + cost a) (label a :: held) xs).map label,
          k ∉ label a :: held := ih
      rw [List.map_cons,List.nodup_cons]
      refine ⟨⟨fun h => hnew _ h List.mem_cons_self,hnodup⟩,fun k hk => ?_⟩
      rcases List.mem_cons.mp hk with rfl | hk
      · exact hfits.2.1
      · exact fun h => hnew k hk (List.mem_cons_of_mem _ h)
    · exact ih

theorem take_append (xs ys : List α) : ∃ rest, take passes label cost budget used held (xs ++ ys) =
    take passes label cost budget used held xs ++ rest ∧ rest.Sublist ys := by
  induction xs generalizing used held with
  | nil => exact ⟨_,rfl,take_sublist⟩
  | cons a xs ih =>
    by_cases hfits : passes a ∧ label a ∉ held ∧ used + cost a ≤ budget
    · obtain ⟨rest,hrest,hsub⟩ := @ih (used + cost a) (label a :: held)
      rw [List.cons_append,take_cons_of_fits hfits,take_cons_of_fits hfits,hrest]
      exact ⟨rest,rfl,hsub⟩
    · rw [List.cons_append,take_cons_of_not_fits hfits,take_cons_of_not_fits hfits]
      exact ih

end Verdict.Greedy

import Mathlib.Data.List.Sort
import Mathlib.Data.List.TakeWhile

/-! # The newest rows of a table

A query that orders its rows by a falling key and stops after a number of them. With
distinct keys a row is found exactly when fewer rows than that have a greater key.
-/
namespace Verdict.Newest

variable {α κ : Type} [LinearOrder κ] (key : α → κ)

/-- `ORDER BY key DESC LIMIT n`. -/
def newest (n : ℕ) (rows : List α) : List α := (rows.insertionSort fun a b => key b ≤ key a).take n

variable {key}

theorem newest_subset (n : ℕ) (rows : List α) : newest key n rows ⊆ rows := by
  intro r hr
  exact (List.mem_insertionSort _).mp (List.mem_of_mem_take hr)

variable {rows : List α}

theorem insertionSort_of_falling {r : α → α → Prop} [DecidableRel r] (h : rows.Pairwise fun a b => ¬r a b) :
    rows.insertionSort r = rows.reverse := by
  induction rows with
  | nil => rfl
  | cons a rows ih =>
    obtain ⟨hfirst,hrest⟩ := List.pairwise_cons.mp h
    have hall : ∀ b ∈ rows.reverse, (!decide (r a b)) = true := fun b hb => by simpa using hfirst b (List.mem_reverse.mp hb)
    rw [List.insertionSort_cons,ih hrest,List.orderedInsert_eq_take_drop,List.reverse_cons]
    simp only [← decide_not] at hall ⊢
    rw [List.takeWhile_eq_self_iff.mpr hall,List.dropWhile_eq_nil_iff.mpr hall]

theorem newest_of_ascending (h : rows.Pairwise fun a b => key a < key b) (n : ℕ) :
    newest key n rows = (rows.drop (rows.length - n)).reverse := by
  rw [newest,insertionSort_of_falling (h.imp not_le_of_gt),List.take_reverse]

variable {n : ℕ} {r : α}

theorem mem_take_iff (h : rows.Pairwise fun a b => key b < key a) :
    r ∈ rows.take n ↔ r ∈ rows ∧ (rows.filter fun o => key r < key o).length < n := by
  induction rows generalizing n with
  | nil => simp
  | cons e rest ih =>
    obtain ⟨hfirst,hrest⟩ := List.pairwise_cons.mp h
    cases n with
    | zero => simp
    | succ n =>
      rw [List.take_succ_cons,List.mem_cons,ih hrest,List.mem_cons]
      by_cases hr : r ∈ rest
      · have hgreater : key r < key e := hfirst r hr
        have hne : r ≠ e := fun heq => lt_irrefl _ (heq ▸ hgreater)
        rw [List.filter_cons_of_pos (by simpa using hgreater),List.length_cons]
        simp [hr,hne]
      · have hnone : r = e → ((e :: rest).filter fun o => key r < key o) = [] := by
          rintro rfl
          refine List.filter_eq_nil_iff.mpr fun o ho => ?_
          rcases List.mem_cons.mp ho with rfl | ho
          · simp
          · simpa using le_of_lt (hfirst o ho)
        simp only [hr,false_and,or_false]
        refine ⟨fun heq => ⟨heq,by rw [hnone heq]; exact Nat.succ_pos n⟩,fun hboth => hboth.1⟩

/-- A row is among the newest `n` exactly when fewer than `n` rows have a greater key. -/
theorem mem_newest_iff (hkeys : rows.Pairwise fun a b => key a ≠ key b) :
    r ∈ newest key n rows ↔ r ∈ rows ∧ (rows.filter fun o => key r < key o).length < n := by
  have hperm := List.perm_insertionSort (fun a b : α => key b ≤ key a) rows
  have hsorted : (rows.insertionSort fun a b => key b ≤ key a).Pairwise fun a b => key b < key a := by
    have hfalling := List.pairwise_insertionSort (fun a b : α => key b ≤ key a) rows
    have hdistinct := hperm.symm.pairwise hkeys fun hab => hab.symm
    exact (hfalling.and hdistinct).imp fun hab => lt_of_le_of_ne hab.1 hab.2.symm
  unfold newest
  rw [mem_take_iff hsorted,hperm.mem_iff,(hperm.filter _).length_eq]

end Verdict.Newest

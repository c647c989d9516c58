import Mathlib.Data.List.Basic

/-! # Occurrences of a word

Where a word stands in a list, overlapping or not; the count that goes on behind each
occurrence it finds; and the replacement of the first occurrence. The count is one when all
occurrences overlap the first, of which there may be several.
-/
namespace Verdict.Occurrence
variable {α : Type} [DecidableEq α]

def At (w t : List α) (i : ℕ) : Prop := w <+: t.drop i

instance (w t : List α) (i : ℕ) : Decidable (At w t i) := inferInstanceAs (Decidable (_ <+: _))

def Unique (w t : List α) : Prop := ∃ i, At w t i ∧ ∀ k, At w t k → k = i

/-- The word stands at several positions, and the first occurrence overlaps all others. -/
def Knotted (w t : List α) : Prop := ∃ i, At w t i ∧ (∀ k, At w t k → i ≤ k ∧ k < i + w.length) ∧ ∃ k, At w t k ∧ k ≠ i

def countFrom (w : List α) : ℕ → List α → ℕ
  | _, [] => 0
  | skip + 1, _ :: t => countFrom w skip t
  | 0, a :: t => if w <+: a :: t then countFrom w (w.length - 1) t + 1 else countFrom w 0 t

def count (w t : List α) : ℕ := countFrom w 0 t

def replaceFirst (w new : List α) : List α → List α
  | [] => []
  | a :: t => if w <+: a :: t then new ++ (a :: t).drop w.length else a :: replaceFirst w new t

section
variable {w t : List α}

omit [DecidableEq α] in
theorem not_at_nil (hw : w ≠ []) (k : ℕ) : ¬ At w [] k := by
  intro h
  rw [At,List.drop_nil] at h
  exact hw (List.prefix_nil.mp h)

theorem countFrom_skip (w : List α) (n : ℕ) (t : List α) : countFrom w n t = countFrom w 0 (t.drop n) := by
  induction t generalizing n with
  | nil => simp [countFrom]
  | cons a t ih =>
    cases n with
    | zero => rfl
    | succ n => exact ih n

theorem count_cons_of_front {a : α} (hw : w ≠ []) (h : w <+: a :: t) :
    count w (a :: t) = count w ((a :: t).drop w.length) + 1 := by
  obtain ⟨b,v,rfl⟩ := List.exists_cons_of_ne_nil hw
  rw [count,countFrom,if_pos h,countFrom_skip]
  rfl

theorem count_eq_zero (hw : w ≠ []) : count w t = 0 ↔ ∀ k, ¬ At w t k := by
  induction t with
  | nil => exact iff_of_true rfl (not_at_nil hw)
  | cons a t ih =>
    by_cases h : w <+: a :: t
    · rw [count_cons_of_front hw h]
      exact iff_of_false (Nat.succ_ne_zero _) fun hno => hno 0 h
    · rw [count,countFrom,if_neg h]
      refine ih.trans ⟨fun hno k => ?_,fun hno k => hno (k + 1)⟩
      cases k with
      | zero => exact h
      | succ k => exact hno k

theorem count_eq_one (hw : w ≠ []) : count w t = 1 ↔ ∃ i, At w t i ∧ ∀ k, At w t k → i ≤ k ∧ k < i + w.length := by
  induction t with
  | nil => exact iff_of_false Nat.zero_ne_one fun ⟨i,hi,_⟩ => not_at_nil hw i hi
  | cons a t ih =>
    by_cases h : w <+: a :: t
    · rw [count_cons_of_front hw h,Nat.add_eq_right,count_eq_zero hw]
      constructor
      · intro hno
        refine ⟨0,h,fun k hk => ⟨Nat.zero_le k,?_⟩⟩
        by_contra hlate
        have hlate : w.length ≤ k := by omega
        refine hno (k - w.length) ?_
        rw [At,List.drop_drop,Nat.add_sub_cancel' hlate]
        exact hk
      · rintro ⟨i,hi,hall⟩ k hk
        rw [At,List.drop_drop] at hk
        have hfirst := (hall 0 h).1
        have hspan := (hall (w.length + k) hk).2
        omega
    · rw [count,countFrom,if_neg h]
      refine ih.trans ⟨?_,?_⟩
      · rintro ⟨i,hi,hall⟩
        refine ⟨i + 1,hi,fun k hk => ?_⟩
        cases k with
        | zero => exact absurd hk h
        | succ k =>
          have hspan := hall k hk
          omega
      · rintro ⟨i,hi,hall⟩
        cases i with
        | zero => exact absurd hi h
        | succ i =>
          refine ⟨i,hi,fun k hk => ?_⟩
          have hspan := hall (k + 1) hk
          omega

omit [DecidableEq α] in
theorem not_knotted_of_unique (h : Unique w t) : ¬ Knotted w t := by
  rintro ⟨i,hi,-,k,hk,hne⟩
  obtain ⟨j,-,hall⟩ := h
  exact hne ((hall k hk).trans (hall i hi).symm)

theorem unique_iff (hw : w ≠ []) : Unique w t ↔ count w t = 1 ∧ ¬ Knotted w t := by
  constructor
  · intro h
    refine ⟨(count_eq_one hw).mpr ?_,not_knotted_of_unique h⟩
    obtain ⟨i,hi,hall⟩ := h
    have hlength : 0 < w.length := List.length_pos_of_ne_nil hw
    refine ⟨i,hi,fun k hk => ?_⟩
    rw [hall k hk]
    omega
  · rintro ⟨hcount,hplain⟩
    obtain ⟨i,hi,hall⟩ := (count_eq_one hw).mp hcount
    refine ⟨i,hi,fun k hk => ?_⟩
    by_contra hne
    exact hplain ⟨i,hi,hall,k,hk,hne⟩

theorem replaceFirst_of_at {new : List α} {i : ℕ} (h : At w t i) (hw : w ≠ []) (hfirst : ∀ k, At w t k → i ≤ k) :
    replaceFirst w new t = t.take i ++ new ++ t.drop (i + w.length) := by
  induction t generalizing i with
  | nil => exact absurd h (not_at_nil hw i)
  | cons a t ih =>
    by_cases hpre : w <+: a :: t
    · have hzero : i = 0 := Nat.le_zero.mp (hfirst 0 hpre)
      subst hzero
      rw [replaceFirst,if_pos hpre,Nat.zero_add]
      rfl
    · rw [replaceFirst,if_neg hpre]
      cases i with
      | zero => exact absurd h hpre
      | succ i =>
        rw [ih h fun k hk => Nat.le_of_succ_le_succ (hfirst (k + 1) hk),Nat.succ_add_eq_add_succ]
        rfl

end
end Verdict.Occurrence

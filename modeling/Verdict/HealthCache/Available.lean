import Mathlib.Algebra.Order.Ring.Int
import Mathlib.Data.List.Sort
import Verdict.HealthCache.Bucket

/-! # When tokens are free again

`available_at` sorts the stamps of a bucket and reads off the one that has to leave the window
before the requested amount fits. In a sorted list the entries behind a position are exactly
those that are larger, up to equal ones, and both directions of the result come from there.
-/
namespace Verdict.HealthCache

section
variable {α : Type*} [LinearOrder α]
variable {xs : List α} {i : ℕ} {x : α}

theorem length_above_le (hs : xs.Pairwise (· ≤ ·)) (hi : i < xs.length) (hx : xs[i] ≤ x) :
    (xs.filter (x < ·)).length + (i + 1) ≤ xs.length := by
  have hfirst : (xs.take (i + 1)).filter (x < ·) = [] := by
    refine List.filter_eq_nil_iff.mpr fun y hy => ?_
    obtain ⟨j,hj,rfl⟩ := List.getElem_of_mem hy
    rw [List.length_take] at hj
    rw [List.getElem_take,decide_eq_true_eq,not_lt]
    rcases Nat.lt_or_eq_of_le (show j ≤ i by omega) with hlt | heq
    · exact (List.pairwise_iff_getElem.mp hs j i (by omega) hi hlt).trans hx
    · simpa only [heq] using hx
  have hsplit : xs.filter (x < ·) = (xs.drop (i + 1)).filter (x < ·) := by
    conv_lhs => rw [← List.take_append_drop (i + 1) xs,List.filter_append,hfirst,List.nil_append]
  have hdrop := List.length_filter_le (x < ·) (xs.drop (i + 1))
  rw [hsplit]
  rw [List.length_drop] at hdrop
  omega

theorem le_length_above (hs : xs.Pairwise (· ≤ ·)) (hi : i < xs.length) (hx : x < xs[i]) :
    xs.length ≤ (xs.filter (x < ·)).length + i := by
  have hrest : (xs.drop i).filter (x < ·) = xs.drop i := by
    refine List.filter_eq_self.mpr fun y hy => ?_
    obtain ⟨j,hj,rfl⟩ := List.getElem_of_mem hy
    rw [List.length_drop] at hj
    rw [List.getElem_drop,decide_eq_true_eq]
    rcases Nat.eq_zero_or_pos j with hzero | hpos
    · simpa only [hzero,Nat.add_zero] using hx
    · exact hx.trans_le (List.pairwise_iff_getElem.mp hs i (i + j) hi (by omega) (by omega))
  have hsub : (xs.drop i).length ≤ (xs.filter (x < ·)).length := by
    rw [← hrest]
    exact ((List.drop_sublist i xs).filter _).length_le
  rw [List.length_drop] at hsub
  omega

end

namespace TokenBucket

/-- The first instant from `now` on at which the bucket is not zeroed. -/
def start (b : TokenBucket) (now : Time) : Time := b.zeroedUntil.elim now (max now)

def sortedLive (b : TokenBucket) (now : Time) : List Time :=
  (b.timestamps.insertionSort (· ≤ ·)).filter fun stamp => b.start now - b.window < stamp

/-- `available_at`; it answers `none` when the capacity never allows the amount. -/
def availableAt (b : TokenBucket) (now : Time) (amount : ℤ) : Option Time :=
  if b.capacity < amount then none
  else
    let live := b.sortedLive now
    let excess := (live.length : ℤ) - (b.capacity - amount)
    if excess ≤ 0 then some (b.start now)
    else live[(excess - 1).toNat]?.map fun stamp => max (b.start now) (stamp + b.window)

variable {b : TokenBucket} {now t : Time} {amount : ℤ}

theorem now_le_start : now ≤ b.start now := by
  rw [start]
  cases b.zeroedUntil with
  | none => exact le_rfl
  | some z => exact le_max_left now z

theorem remaining_of_zeroed (hnow : now ≤ t) (ht : t < b.start now) : b.remaining t = 0 := by
  rw [start] at ht
  rw [remaining]
  cases hz : b.zeroedUntil with
  | none =>
    rw [hz] at ht
    exact absurd hnow (not_le.mpr ht)
  | some z =>
    rw [hz] at ht
    have hlt : t < z := (lt_max_iff.mp ht).resolve_left (not_lt.mpr hnow)
    rw [Option.any_some,decide_eq_true hlt,if_pos rfl]

theorem remaining_from_start (ht : b.start now ≤ t) : b.remaining t = max 0 (b.capacity - (b.live t).length) := by
  rw [start] at ht
  rw [remaining]
  cases hz : b.zeroedUntil with
  | none => rfl
  | some z =>
    rw [hz] at ht
    have hle : z ≤ t := (le_max_right now z).trans ht
    rw [Option.any_some,decide_eq_false (not_lt.mpr hle),if_neg Bool.false_ne_true]

theorem mem_sortedLive {stamp : Time} (h : stamp ∈ b.sortedLive now) : b.start now < stamp + b.window := by
  have hlive := decide_eq_true_eq.mp (List.mem_filter.mp h).2
  exact sub_lt_iff_lt_add.mp hlive

theorem sortedLive_sorted : (b.sortedLive now).Pairwise (· ≤ ·) :=
  (List.pairwise_insertionSort (· ≤ ·) b.timestamps).filter _

theorem live_length (ht : b.start now ≤ t) :
    (b.live t).length = ((b.sortedLive now).filter (t - b.window < ·)).length := by
  have hboth : (b.sortedLive now).filter (t - b.window < ·)
      = (b.timestamps.insertionSort (· ≤ ·)).filter (t - b.window < ·) := by
    rw [sortedLive,List.filter_filter]
    refine List.filter_congr fun stamp _ => ?_
    rw [Bool.and_eq_left_iff_imp,decide_eq_true_eq,decide_eq_true_eq]
    exact fun hlive => (sub_le_sub_right ht b.window).trans_lt hlive
  rw [hboth]
  exact (((List.perm_insertionSort (· ≤ ·) b.timestamps).filter _).length_eq).symm

/-- The bucket refuses at every instant before the answer, and no longer at it. -/
structure Frees (b : TokenBucket) (now : Time) (amount : ℤ) (T : Time) : Prop where
  later : now ≤ T
  enough : amount ≤ b.remaining T
  early : ∀ t, now ≤ t → t < T → b.remaining t < amount

theorem frees_start (hpos : 1 ≤ amount) (hfits : ((b.sortedLive now).length : ℤ) ≤ b.capacity - amount) :
    Frees b now amount (b.start now) where
  later := now_le_start
  enough := by
    have hcount := live_length (le_refl (b.start now))
    have hfew := List.length_filter_le (b.start now - b.window < ·) (b.sortedLive now)
    rw [remaining_from_start le_rfl]
    omega
  early := by
    intro t hnow ht
    rw [remaining_of_zeroed hnow ht]
    omega

variable {i : ℕ}

/-- The stamp at position `i` has to leave, and with it as many as stand before it. -/
theorem frees_stamp (hpos : 1 ≤ amount) (hi : i < (b.sortedLive now).length)
    (hexcess : (i : ℤ) + 1 = (b.sortedLive now).length - (b.capacity - amount)) :
    Frees b now amount ((b.sortedLive now)[i] + b.window) := by
  have hstart : b.start now ≤ (b.sortedLive now)[i] + b.window := (mem_sortedLive (List.getElem_mem hi)).le
  refine ⟨now_le_start.trans hstart,?_,?_⟩
  · have hcount := live_length hstart
    have habove := length_above_le sortedLive_sorted hi le_rfl
    rw [add_sub_cancel_right] at hcount
    rw [remaining_from_start hstart]
    omega
  · intro t hnow ht
    by_cases hzero : t < b.start now
    · rw [remaining_of_zeroed hnow hzero]
      omega
    · have hfrom : b.start now ≤ t := not_lt.mp hzero
      have hcount := live_length hfrom
      have hbelow : t - b.window < (b.sortedLive now)[i] := sub_lt_iff_lt_add.mpr ht
      have habove := le_length_above sortedLive_sorted hi hbelow
      rw [remaining_from_start hfrom]
      omega

theorem fits_or_excess (b : TokenBucket) (now : Time) (hcap : amount ≤ b.capacity) :
    ((b.sortedLive now).length : ℤ) - (b.capacity - amount) ≤ 0 ∨ ∃ i, i < (b.sortedLive now).length ∧
    (i : ℤ) + 1 = (b.sortedLive now).length - (b.capacity - amount) := by
  by_cases hfits : ((b.sortedLive now).length : ℤ) - (b.capacity - amount) ≤ 0
  · exact .inl hfits
  · right
    refine ⟨((b.sortedLive now).length - (b.capacity - amount) - 1).toNat,?_,?_⟩ <;> omega

theorem availableAt_fits (hcap : amount ≤ b.capacity)
    (hfits : ((b.sortedLive now).length : ℤ) - (b.capacity - amount) ≤ 0) :
    b.availableAt now amount = some (b.start now) := by
  rw [availableAt,if_neg (not_lt.mpr hcap)]
  exact if_pos hfits

theorem availableAt_excess (hcap : amount ≤ b.capacity) (hi : i < (b.sortedLive now).length)
    (hexcess : (i : ℤ) + 1 = (b.sortedLive now).length - (b.capacity - amount)) :
    b.availableAt now amount = some ((b.sortedLive now)[i] + b.window) := by
  have hindex : (((b.sortedLive now).length : ℤ) - (b.capacity - amount) - 1).toNat = i := by omega
  have hstart := (mem_sortedLive (List.getElem_mem hi)).le
  rw [availableAt,if_neg (not_lt.mpr hcap)]
  refine (if_neg (by omega)).trans ?_
  rw [hindex,List.getElem?_eq_getElem hi,Option.map_some,max_eq_right hstart]

/-- `available_at` answers exactly when the capacity allows the amount, and then with the first
instant from `now` on at which so many tokens remain. -/
theorem availableAt_exact (b : TokenBucket) (now : Time) (amount : ℤ) :
    (b.availableAt now amount = none ↔ b.capacity < amount)
      ∧ (1 ≤ amount → amount ≤ b.capacity → ∃ T, b.availableAt now amount = some T ∧ now ≤ T
        ∧ amount ≤ b.remaining T ∧ ∀ t, now ≤ t → t < T → b.remaining t < amount) := by
  constructor
  · constructor
    · intro hnone
      by_contra hcap
      rcases fits_or_excess b now (not_lt.mp hcap) with hfits | ⟨i,hi,hexcess⟩
      · exact nomatch (availableAt_fits (not_lt.mp hcap) hfits).symm.trans hnone
      · exact nomatch (availableAt_excess (not_lt.mp hcap) hi hexcess).symm.trans hnone
    · exact fun hcap => if_pos hcap
  · intro hpos hcap
    rcases fits_or_excess b now hcap with hfits | ⟨i,hi,hexcess⟩
    · have hfree : Frees b now amount (b.start now) := frees_start hpos (by omega)
      exact ⟨_,availableAt_fits hcap hfits,hfree.later,hfree.enough,hfree.early⟩
    · have hfree := frees_stamp hpos hi hexcess
      exact ⟨_,availableAt_excess hcap hi hexcess,hfree.later,hfree.enough,hfree.early⟩

def fullBucket : TokenBucket := {capacity := 4, window := seconds 90, timestamps := [seconds 5,seconds 4,seconds 3,seconds 2]}

/-- The oldest of the requests in a full bucket of four leaves the window ninety seconds after it. -/
theorem full_bucket_available : fullBucket.availableAt (seconds 10) 1 = some (seconds 92) ∧ 1 ≤ fullBucket.remaining (seconds 92) ∧
    ∀ t, seconds 10 ≤ t → t < seconds 92 → fullBucket.remaining t < 1 := by
  have hat : fullBucket.availableAt (seconds 10) 1 = some (seconds 92) := by decide
  obtain ⟨T,hT,-,henough,hearly⟩ := (availableAt_exact fullBucket (seconds 10) 1).2 (by decide) (by decide)
  cases Option.some.inj (hat.symm.trans hT)
  exact ⟨hat,henough,hearly⟩

end TokenBucket
end Verdict.HealthCache

import Mathlib.Algebra.Order.Ring.Int
import Mathlib.Data.List.Sort

/-! # Reading in pages keyed by a column

A reader asks again and again for the first rows whose key is greater than the last key it
has seen. Rows that share the key of the last row of a page and stand behind it are never
read; with distinct keys every row is.
-/
namespace Verdict.Paging

open List (flatten_cons mem_append mem_filter pairwise_append take_append_drop)

variable {α : Type} (size : ℕ) (key : α → ℤ) (rows : List α)

abbrev above (last : ℤ) : List α := rows.filter (last < key ·)

/-- The pages after key `last`; one round for each unit of fuel. -/
def pages : ℕ → ℤ → List (List α)
  | 0,_ => []
  | fuel + 1,last =>
    let page := (above key rows last).take size
    match page.getLast? with
    | none => []
    | some e => page :: pages fuel (key e)

def Unsplit (ps : List (List α)) : Prop :=
  ∀ page ∈ ps, ∀ e ∈ page.getLast?, ∀ r ∈ rows, key r = key e → r ∈ page

variable {size key rows}
variable {last : ℤ} {e : α}

theorem split_page (hsorted : rows.Pairwise fun a b => key a ≤ key b)
    (he : ((above key rows last).take size).getLast? = some e) :
    last < key e ∧ (above key rows (key e)) =
      ((above key rows last).drop size).filter fun r => key e < key r := by
  generalize hR : above key rows last = R at *
  have hmem : e ∈ R := List.mem_of_mem_take (List.mem_of_getLast? he)
  have hlast : last < key e := by
    rw [← hR] at hmem
    simpa using (mem_filter.mp hmem).2
  refine ⟨hlast,?_⟩
  have hRsorted : R.Pairwise fun a b => key a ≤ key b := by
    rw [← hR]
    exact hsorted.filter _
  have hhead : (R.take size).filter (fun r => key e < key r) = [] := by
    rw [List.filter_eq_nil_iff]
    intro r hr
    obtain ⟨front,hfront⟩ := List.getLast?_eq_some_iff.mp he
    rw [hfront] at hr
    have hpage : (front ++ [e]).Pairwise fun a b => key a ≤ key b := hfront ▸ hRsorted.sublist (List.take_sublist _ _)
    rcases mem_append.mp hr with hr | hr
    · have hle := (pairwise_append.mp hpage).2.2 r hr e (List.mem_singleton_self e)
      simpa using hle
    · rw [List.mem_singleton] at hr
      simp [hr]
  calc above key rows (key e)
      = R.filter fun r => key e < key r := by
        rw [← hR,List.filter_filter]
        refine List.filter_congr fun r _ => ?_
        by_cases h : key e < key r
        · simp [h,hlast.trans h]
        · simp [h]
    _ = (R.take size ++ R.drop size).filter fun r => key e < key r := by rw [take_append_drop]
    _ = (R.drop size).filter fun r => key e < key r := by rw [List.filter_append,hhead,List.nil_append]

theorem pages_sublist (hsorted : rows.Pairwise fun a b => key a ≤ key b) (fuel : ℕ) (last : ℤ) :
    (pages size key rows fuel last).flatten.Sublist (above key rows last) := by
  induction fuel generalizing last with
  | zero => exact List.nil_sublist _
  | succ fuel ih =>
    simp only [pages]
    split
    · exact List.nil_sublist _
    · rename_i e he
      obtain ⟨-,hrest⟩ := split_page hsorted he
      have htail := ih (key e)
      rw [hrest] at htail
      have hboth := (List.Sublist.refl ((above key rows last).take size)).append
        (htail.trans List.filter_sublist)
      rwa [take_append_drop] at hboth

theorem filter_length_lt (hsorted : rows.Pairwise fun a b => key a ≤ key b)
    (he : ((above key rows last).take size).getLast? = some e) :
    (above key rows (key e)).length < (above key rows last).length := by
  obtain ⟨-,hrest⟩ := split_page hsorted he
  rw [hrest]
  have hpage : (above key rows last).take size ≠ [] := by
    intro hnil
    simp [hnil] at he
  have hsize : 0 < size := by
    by_contra h
    have hzero : size = 0 := by omega
    simp [hzero] at hpage
  have hlen : 0 < (above key rows last).length := by
    by_contra h
    have hnil : above key rows last = [] := List.length_eq_zero_iff.mp (by omega)
    simp [hnil] at hpage
  have hle := List.length_filter_le (fun r => decide (key e < key r)) ((above key rows last).drop size)
  rw [List.length_drop] at hle
  omega

/-- With fuel for every row, the pages read all rows after `last` exactly when none of them is split. -/
theorem pages_complete_iff (hsize : 0 < size) (hsorted : rows.Pairwise fun a b => key a ≤ key b) (fuel : ℕ) (last : ℤ)
    (hfuel : (above key rows last).length < fuel) :
    (∀ r ∈ rows, last < key r → r ∈ (pages size key rows fuel last).flatten) ↔
      Unsplit key rows (pages size key rows fuel last) := by
  induction fuel generalizing last with
  | zero => exact absurd hfuel (Nat.not_lt_zero _)
  | succ fuel ih =>
    simp only [pages]
    split
    · rename_i hnone
      have hnil : above key rows last = [] := by
        rw [List.getLast?_eq_none_iff,List.take_eq_nil_iff] at hnone
        exact hnone.resolve_left (Nat.pos_iff_ne_zero.mp hsize)
      constructor
      · intro _ page hpage
        cases hpage
      · intro _ r hr hlt
        have hin : r ∈ above key rows last := mem_filter.mpr ⟨hr,by simpa using hlt⟩
        rw [hnil] at hin
        cases hin
    · rename_i e he
      obtain ⟨hlast,hrest⟩ := split_page hsorted he
      have hlen := filter_length_lt hsorted he
      have hnext := ih (key e) (by omega)
      set page := (above key rows last).take size with hpage
      have htail : ∀ r ∈ (pages size key rows fuel (key e)).flatten, key e < key r := by
        intro r hr
        have hin := (pages_sublist hsorted fuel (key e)).subset hr
        simpa using (mem_filter.mp hin).2
      constructor
      · intro hall p hp
        rcases List.mem_cons.mp hp with rfl | hp
        · intro e' he' r hr hkey
          rw [Option.mem_def,he,Option.some.injEq] at he'
          subst he'
          have hread := hall r hr (hkey ▸ hlast)
          rw [flatten_cons] at hread
          rcases mem_append.mp hread with hin | hlater
          · exact hin
          · exact absurd (htail r hlater) (by omega)
        · refine hnext.mp (fun r hr hlt => ?_) p hp
          have hread := hall r hr (hlast.trans hlt)
          rw [flatten_cons] at hread
          rcases mem_append.mp hread with hin | hlater
          · -- the rows of the page have no key above its last one
            obtain ⟨front,hfront⟩ := List.getLast?_eq_some_iff.mp he
            have hpairwise : page.Pairwise fun a b => key a ≤ key b :=
              (hsorted.filter _).sublist (List.take_sublist _ _)
            rw [hfront] at hin hpairwise
            rcases mem_append.mp hin with hfrontmem | hlastmem
            · have hle := (pairwise_append.mp hpairwise).2.2 r hfrontmem e (List.mem_singleton_self e)
              omega
            · rw [List.mem_singleton] at hlastmem
              subst hlastmem
              exact absurd hlt (lt_irrefl _)
          · exact hlater
      · intro hunsplit r hr hlt
        rw [flatten_cons,mem_append]
        rcases lt_trichotomy (key r) (key e) with hless | heq | hmore
        · left
          have hin : r ∈ above key rows last := mem_filter.mpr ⟨hr,by simpa using hlt⟩
          rw [← take_append_drop size (above key rows last)] at hin
          rcases mem_append.mp hin with htake | hdrop
          · exact htake
          · have hcross : (page ++ (above key rows last).drop size).Pairwise fun a b => key a ≤ key b := by
              rw [hpage,take_append_drop]
              exact hsorted.filter _
            have hle := (pairwise_append.mp hcross).2.2 e (List.mem_of_getLast? he) r hdrop
            omega
        · exact .inl (hunsplit page List.mem_cons_self e he r hr heq)
        · exact .inr (hnext.mpr (fun p hp => hunsplit p (List.mem_cons_of_mem _ hp)) r hr hmore)

theorem pages_of_strict (hsize : 0 < size) (hstrict : rows.Pairwise fun a b => key a < key b) (fuel : ℕ) (last : ℤ)
    (hfuel : (above key rows last).length < fuel) :
    (pages size key rows fuel last).flatten = above key rows last := by
  have hsorted : rows.Pairwise fun a b => key a ≤ key b := hstrict.imp fun h => le_of_lt h
  induction fuel generalizing last with
  | zero => exact absurd hfuel (Nat.not_lt_zero _)
  | succ fuel ih =>
    simp only [pages]
    split
    · rename_i hnone
      rw [List.getLast?_eq_none_iff,List.take_eq_nil_iff] at hnone
      rw [hnone.resolve_left (Nat.pos_iff_ne_zero.mp hsize)]
      rfl
    · rename_i e he
      obtain ⟨-,hrest⟩ := split_page hsorted he
      have hlen := filter_length_lt hsorted he
      rw [flatten_cons,ih (key e) (by omega),hrest]
      have hcross : ((above key rows last).take size ++
          (above key rows last).drop size).Pairwise fun a b => key a < key b := by
        rw [take_append_drop]
        exact hstrict.filter _
      have hall : ((above key rows last).drop size).filter (fun r => key e < key r)
          = (above key rows last).drop size := by
        refine List.filter_eq_self.mpr fun r hr => ?_
        simpa using (pairwise_append.mp hcross).2.2 e (List.mem_of_getLast? he) r hr
      rw [hall,take_append_drop]

end Verdict.Paging

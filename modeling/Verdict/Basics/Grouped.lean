import Mathlib.Data.List.Count
import Mathlib.Data.List.Perm.Subperm
import Mathlib.Data.List.Sort

/-! # Lists grouped by a key

A list is a part of another one when each of its groups is a prefix of the group of the same
key. Adding to a part what comes next in some group, in an order that respects every group,
ends in a reordering of the whole list.
-/
namespace Verdict.Grouped

variable {α κ : Type} [DecidableEq κ] (key : α → κ)

/-- The members of `xs` with one key, in their order. -/
def group (xs : List α) (k : κ) : List α := xs.filter (key · = k)

/-- Every group of `xs` is a prefix of that group of `ys`. -/
def Part (xs ys : List α) : Prop := ∀ k, group key xs k <+: group key ys k

variable {key}
variable {xs : List α} {k : κ} {a : α}

theorem mem_group : a ∈ group key xs k ↔ a ∈ xs ∧ key a = k := by
  simp [group]

theorem group_append (xs ys : List α) (k : κ) : group key (xs ++ ys) k = group key xs k ++ group key ys k :=
  List.filter_append ..

theorem group_cons_self (a : α) (xs : List α) : group key (a :: xs) (key a) = a :: group key xs (key a) :=
  List.filter_cons_of_pos (by simp)

theorem group_singleton_of_ne (h : key a ≠ k) : group key [a] k = [] :=
  List.filter_cons_of_neg (by simpa using h)

theorem Part.nil (ys : List α) : Part key [] ys := fun _ => List.nil_prefix

variable {ys : List α}

theorem Part.subset (h : Part key xs ys) : xs ⊆ ys := by
  intro a ha
  have hgroup := (h (key a)).subset (mem_group.mpr ⟨ha,rfl⟩)
  exact (mem_group.mp hgroup).1

variable {front back : List α}

/-- Where everything in front of `a` is present, `a` is present or comes next in its group. -/
theorem Part.mem_or_next (h : Part key xs ys)
    (hys : ∀ k, group key (front ++ a :: back) k = group key ys k) (hfront : front ⊆ xs)
    (hnodup : (group key ys (key a)).Nodup) : a ∈ xs ∨ group key xs (key a) = group key front (key a) := by
  obtain ⟨rest,hrest⟩ := h (key a)
  have hsplit : group key xs (key a) ++ rest = group key front (key a) ++ a :: group key back (key a) := by
    rw [hrest,← hys,group_append,group_cons_self]
  rcases List.append_eq_append_iff.mp hsplit with ⟨missing,hmissing,-⟩ | ⟨more,hmore,hcons⟩
  · right
    cases missing with
    | nil => rw [hmissing,List.append_nil]
    | cons b bs =>
      -- a member of the front that is missing is present, so that it occurs twice
      have hb : b ∈ group key front (key a) := by simp [hmissing]
      have hpresent : b ∈ group key xs (key a) := mem_group.mpr ⟨hfront (mem_group.mp hb).1,(mem_group.mp hb).2⟩
      rw [← hrest,hsplit,hmissing,List.append_assoc] at hnodup
      exact absurd List.mem_cons_self (List.disjoint_of_nodup_append hnodup hpresent)
  · cases more with
    | nil =>
      right
      rw [hmore,List.append_nil]
    | cons b bs =>
      left
      rw [List.cons_append,List.cons.injEq] at hcons
      have ha : a ∈ group key xs (key a) := by
        rw [hmore,← hcons.1]
        exact List.mem_append_right _ List.mem_cons_self
      exact (mem_group.mp ha).1

theorem Part.snoc (h : Part key xs ys) (hys : ∀ k, group key (front ++ a :: back) k = group key ys k)
    (hnext : group key xs (key a) = group key front (key a)) : Part key (xs ++ [a]) ys := by
  intro k
  rw [group_append]
  by_cases hk : key a = k
  · subst hk
    rw [hnext,← hys,group_append,group_cons_self,group_cons_self]
    exact ⟨group key back (key a),by simp [group]⟩
  · rw [group_singleton_of_ne hk,List.append_nil]
    exact h k

theorem Part.perm [DecidableEq α] (h : Part key xs ys) (hall : ys ⊆ xs)
    (hnodup : ∀ k, (group key ys k).Nodup) : xs.Perm ys := by
  have hgroups : ∀ k, group key xs k = group key ys k := by
    intro k
    have hsub : group key ys k ⊆ group key xs k := by
      intro a ha
      exact mem_group.mpr ⟨hall (mem_group.mp ha).1,(mem_group.mp ha).2⟩
    exact (h k).eq_of_length_le (List.subperm_of_subset (hnodup k) hsub).length_le
  refine List.perm_iff_count.mpr fun a => ?_
  have hcount : ∀ zs : List α, List.count a (group key zs (key a)) = List.count a zs :=
    fun zs => List.count_filter (by simp)
  rw [← hcount xs,hgroups,hcount ys]

end Verdict.Grouped

/-! ## Round robin

A list is dealt into bins by a key, in the order in which the keys turn up, and the bins are
emptied one member at a time, over and over.
-/
namespace Verdict.RoundRobin
open Grouped (group)
variable {α κ : Type} [DecidableEq κ] (key : α → κ)

def bins (xs : List α) : List (List α) := (xs.map key).eraseDups.map (group key xs)

omit [DecidableEq κ] in
def rounds (queues : List (List α)) : List α :=
  (List.range ((queues.map List.length).foldr max 0)).flatMap fun i => queues.filterMap fun q => q[i]?

variable {xs : List α} {a : α}

theorem mem_bins : (∃ q ∈ bins key xs, a ∈ q) ↔ a ∈ xs := by
  simp only [bins,List.mem_map,List.mem_eraseDups]
  constructor
  · rintro ⟨q,⟨k,-,rfl⟩,ha⟩
    exact (Grouped.mem_group.mp ha).1
  · intro ha
    exact ⟨_,⟨key a,⟨a,ha,rfl⟩,rfl⟩,Grouped.mem_group.mpr ⟨ha,rfl⟩⟩

variable {queues : List (List α)}

theorem length_le_depth {q : List α} (h : q ∈ queues) :
    q.length ≤ (queues.map List.length).foldr max 0 := by
  induction queues with
  | nil => cases h
  | cons p queues ih =>
    rcases List.mem_cons.mp h with rfl | hrest
    · exact le_max_left _ _
    · exact (ih hrest).trans (le_max_right _ _)

theorem mem_rounds : a ∈ rounds queues ↔ ∃ q ∈ queues, a ∈ q := by
  simp only [rounds,List.mem_flatMap,List.mem_range,List.mem_filterMap]
  constructor
  · rintro ⟨i,-,q,hq,hi⟩
    exact ⟨q,hq,List.mem_of_getElem? hi⟩
  · rintro ⟨q,hq,ha⟩
    obtain ⟨i,hlt,hi⟩ := List.mem_iff_getElem.mp ha
    exact ⟨i,hlt.trans_le (length_le_depth hq),q,hq,List.getElem?_eq_some_iff.mpr ⟨hlt,hi⟩⟩

def ordered (p : α → Bool) (xs : List α) : List α :=
  rounds ((bins key xs).map fun q => q.filter p) ++ rounds ((bins key xs).map fun q => q.filter fun a => !p a)

theorem mem_ordered {p : α → Bool} : a ∈ ordered key p xs ↔ a ∈ xs := by
  rw [ordered,List.mem_append,mem_rounds,mem_rounds,← mem_bins key]
  constructor
  · rintro (⟨q,hq,ha⟩ | ⟨q,hq,ha⟩)
    · obtain ⟨q,hmem,rfl⟩ := List.mem_map.mp hq
      exact ⟨q,hmem,(List.mem_filter.mp ha).1⟩
    · obtain ⟨q,hmem,rfl⟩ := List.mem_map.mp hq
      exact ⟨q,hmem,(List.mem_filter.mp ha).1⟩
  · rintro ⟨q,hq,ha⟩
    cases hp : p a with
    | true => exact .inl ⟨_,List.mem_map_of_mem hq,List.mem_filter.mpr ⟨ha,hp⟩⟩
    | false => exact .inr ⟨_,List.mem_map_of_mem hq,List.mem_filter.mpr ⟨ha,by rw [hp]; rfl⟩⟩

theorem mem_front_of_sorted {β γ : Type} [LinearOrder γ] {front back : List α} {b : α} {f : α → β} {g : β → γ}
    {le : β → β → Prop} (hmono : ∀ x y, le x y → g x ≤ g y) (hsorted : xs.Pairwise fun a b => le (f a) (f b))
    (hsplit : xs = front ++ a :: back) (hb : b ∈ xs) (hlt : g (f b) < g (f a)) : b ∈ front := by
  subst hsplit
  rcases List.mem_append.mp hb with hfront | htail
  · exact hfront
  · rcases List.mem_cons.mp htail with rfl | hback
    · exact absurd hlt (lt_irrefl _)
    · have hle := List.rel_of_pairwise_cons (List.pairwise_append.mp hsorted).2.1 hback
      exact absurd (hmono _ _ hle) (not_le.mpr hlt)

end Verdict.RoundRobin

import Mathlib.Data.List.Sort
import Verdict.Basics.Dict
import Verdict.Basics.PyText

/-! # Values with texts of code points

What JSON can hold, with the floats left open. Written with sorted keys and read back, a value
has the keys of its objects in order and the surrogate pairs of its texts joined; where two keys
become one, the value behind the last one stays.
-/
namespace Verdict.JsonValue
open PyText
open Prod (fst)

inductive Leaf (φ : Type)
  | null
  | bool (b : Bool)
  | int (n : ℤ)
  | float (x : φ)
  | str (t : Text)

inductive Value (φ : Type)
  | leaf (l : Leaf φ)
  | arr (items : List (Value φ))
  | obj (fields : List (Text × Value φ))

namespace Value
variable {φ : Type}

@[match_pattern] abbrev null : Value φ := .leaf .null
@[match_pattern] abbrev bool (b : Bool) : Value φ := .leaf (.bool b)
@[match_pattern] abbrev int (n : ℤ) : Value φ := .leaf (.int n)
@[match_pattern] abbrev float (x : φ) : Value φ := .leaf (.float x)
@[match_pattern] abbrev str (t : Text) : Value φ := .leaf (.str t)

/-! ### What holds of every part -/

section
variable (leaf : Leaf φ → Bool) (keys : List Text → Bool)

mutual

def every : Value φ → Bool
  | .leaf l => leaf l
  | .arr xs => everyItem xs
  | .obj fs => keys (fs.map fst) && everyField fs

def everyItem : List (Value φ) → Bool
  | [] => true
  | x :: xs => every x && everyItem xs

def everyField : List (Text × Value φ) → Bool
  | [] => true
  | (_,v) :: fs => every v && everyField fs

end

end

section
variable {leaf : Leaf φ → Bool} {keys : List Text → Bool}
variable {xs : List (Value φ)}

theorem everyItem_iff : everyItem leaf keys xs = true ↔ ∀ x ∈ xs, every leaf keys x = true := by
  induction xs with
  | nil => exact iff_of_true rfl fun _ h => absurd h List.not_mem_nil
  | cons x xs ih => rw [everyItem,Bool.and_eq_true,ih,List.forall_mem_cons]

theorem everyField_iff {fs : List (Text × Value φ)} : everyField leaf keys fs = true ↔ ∀ e ∈ fs, every leaf keys e.2 = true := by
  induction fs with
  | nil => exact iff_of_true rfl fun _ h => absurd h List.not_mem_nil
  | cons e fs ih =>
    obtain ⟨k,v⟩ := e
    rw [everyField,Bool.and_eq_true,ih,List.forall_mem_cons]

theorem every_arr : every leaf keys (.arr xs) = true ↔ ∀ x ∈ xs, every leaf keys x = true := by
  rw [every,everyItem_iff]

theorem every_obj {fs : List (Text × Value φ)} :
    every leaf keys (.obj fs) = true ↔ keys (fs.map fst) = true ∧ ∀ e ∈ fs, every leaf keys e.2 = true := by
  rw [every,Bool.and_eq_true,everyField_iff]

end

/-! ### Keys in order -/

def byKey (a b : Text × Value φ) : Prop := a.1 ≤ b.1

instance : DecidableRel (byKey (φ := φ)) := fun a b => inferInstanceAs (Decidable (a.1 ≤ b.1))
instance : Std.Total (byKey (φ := φ)) := ⟨fun a b => le_total a.1 b.1⟩
instance : IsTrans (Text × Value φ) byKey := ⟨fun _ _ _ => le_trans⟩

mutual

/-- The value with the keys of its objects in order, as `sort_keys` writes it. -/
def sorted : Value φ → Value φ
  | .leaf l => .leaf l
  | .arr xs => .arr (sortedItems xs)
  | .obj fs => .obj ((sortedFields fs).insertionSort byKey)

def sortedItems : List (Value φ) → List (Value φ)
  | [] => []
  | x :: xs => sorted x :: sortedItems xs

def sortedFields : List (Text × Value φ) → List (Text × Value φ)
  | [] => []
  | (k,v) :: fs => (k,sorted v) :: sortedFields fs

end

variable (fs : List (Text × Value φ))

theorem sortedFields_eq_map : sortedFields fs = fs.map fun e => (e.1,sorted e.2) := by
  induction fs with
  | nil => rfl
  | cons e fs ih =>
    obtain ⟨k,v⟩ := e
    rw [sortedFields,ih,List.map_cons]

theorem sortedFields_sort :
    sortedFields (fs.insertionSort byKey) = (sortedFields fs).insertionSort byKey := by
  rw [sortedFields_eq_map,sortedFields_eq_map]
  exact List.map_insertionSort byKey byKey _ fs fun _ _ _ _ => Iff.rfl

mutual

theorem sorted_sorted : (v : Value φ) → sorted (sorted v) = sorted v
  | .leaf _ => rfl
  | .arr xs => by rw [sorted,sorted,sortedItems_sortedItems xs]
  | .obj fs => by
    rw [sorted,sorted,sortedFields_sort,sortedFields_sortedFields fs,
      (List.pairwise_insertionSort byKey (sortedFields fs)).insertionSort_eq]

theorem sortedItems_sortedItems : (xs : List (Value φ)) → sortedItems (sortedItems xs) = sortedItems xs
  | [] => rfl
  | x :: xs => by rw [sortedItems,sortedItems,sorted_sorted x,sortedItems_sortedItems xs]

theorem sortedFields_sortedFields : (fs : List (Text × Value φ)) → sortedFields (sortedFields fs) = sortedFields fs
  | [] => rfl
  | (k,v) :: fs => by rw [sortedFields,sortedFields,sorted_sorted v,sortedFields_sortedFields fs]

end

/-- Equal as `dict`s and `list`s are, whatever the order of keys. -/
def Same (v w : Value φ) : Prop := sorted v = sorted w

variable (v : Value φ)

theorem same_sorted : Same (sorted v) v := sorted_sorted v

theorem keys_sortedFields : (sortedFields fs).map fst = fs.map fst := by
  rw [sortedFields_eq_map,List.map_map]
  rfl

section
variable {leaf : Leaf φ → Bool} {keys : List Text → Bool}

mutual

theorem every_sorted (hkeys : ∀ ks ks', ks.Perm ks' → keys ks = keys ks') :
    (v : Value φ) → every leaf keys (sorted v) = every leaf keys v
  | .leaf _ => rfl
  | .arr xs => by rw [sorted,every,every,everyItem_sortedItems hkeys xs]
  | .obj fs => by
    have hperm : ((sortedFields fs).insertionSort byKey).Perm (sortedFields fs) := List.perm_insertionSort byKey _
    rw [Bool.eq_iff_iff,sorted,every_obj,hkeys _ _ (hperm.map fst),keys_sortedFields,every,Bool.and_eq_true,
      ← everyField_sortedFields hkeys fs,everyField_iff]
    exact and_congr_right fun _ => forall_congr' fun e => by rw [hperm.mem_iff]

theorem everyItem_sortedItems (hkeys : ∀ ks ks', ks.Perm ks' → keys ks = keys ks') :
    (xs : List (Value φ)) → everyItem leaf keys (sortedItems xs) = everyItem leaf keys xs
  | [] => rfl
  | x :: xs => by rw [sortedItems,everyItem,everyItem,every_sorted hkeys x,everyItem_sortedItems hkeys xs]

theorem everyField_sortedFields (hkeys : ∀ ks ks', ks.Perm ks' → keys ks = keys ks') :
    (fs : List (Text × Value φ)) → everyField leaf keys (sortedFields fs) = everyField leaf keys fs
  | [] => rfl
  | (k,v) :: fs => by rw [sortedFields,everyField,everyField,every_sorted hkeys v,everyField_sortedFields hkeys fs]

end

end

/-! ### Reading back -/

/-- A `dict` made of pairs: the last value of a key stays, at its first place. -/
def toDict : List (Text × Value φ) := fs.foldl (fun d e => Dict.put e.1 e.2 d) []

mutual

def back : Value φ → Value φ
  | .leaf (.str t) => .str (join t)
  | .leaf l => .leaf l
  | .arr xs => .arr (backItems xs)
  | .obj fs => .obj (toDict (backFields fs))

def backItems : List (Value φ) → List (Value φ)
  | [] => []
  | x :: xs => back x :: backItems xs

def backFields : List (Text × Value φ) → List (Text × Value φ)
  | [] => []
  | (k,v) :: fs => (join k,back v) :: backFields fs

end

def unpaired : Bool :=
  v.every (fun | .str t => decide (Whole t) | _ => true) fun ks => decide (∀ k ∈ ks, Whole k)

/-- No object has a key twice, as no `dict` does. -/
def distinct : Bool := v.every (fun _ => true) fun ks => decide ks.Nodup

theorem toDict_of_nodup {fs : List (Text × Value φ)} (h : (fs.map fst).Nodup) : toDict fs = fs := by
  have hfold : ∀ (done : List (Text × Value φ)), ((done ++ fs).map fst).Nodup →
      fs.foldl (fun d e => Dict.put e.1 e.2 d) done = done ++ fs := by
    clear h
    induction fs with
    | nil => exact fun done _ => (List.append_nil done).symm
    | cons e fs ih =>
      intro done hnodup
      have hnew : e.1 ∉ done.map fst := by
        rw [List.map_append,List.map_cons] at hnodup
        exact fun hmem => (List.nodup_append.mp hnodup).2.2 _ hmem _ List.mem_cons_self rfl
      rw [List.foldl_cons,Dict.put_eq_append hnew,ih _ (by rwa [List.append_assoc]),List.append_assoc]
      rfl
  exact hfold [] h

theorem unpaired_sorted : unpaired (sorted v) = unpaired v := by
  refine every_sorted (fun ks ks' hperm => ?_) v
  rw [decide_eq_decide]
  exact forall_congr' fun k => by rw [hperm.mem_iff]

theorem distinct_sorted : distinct (sorted v) = distinct v := by
  refine every_sorted (fun ks ks' hperm => ?_) v
  rw [decide_eq_decide]
  exact hperm.nodup_iff

mutual

theorem back_of_unpaired : (v : Value φ) → unpaired v = true → distinct v = true → back v = v
  | .leaf .null, _, _ => rfl
  | .leaf (.bool _), _, _ => rfl
  | .leaf (.int _), _, _ => rfl
  | .leaf (.float _), _, _ => rfl
  | .leaf (.str t), h, _ => by rw [back,join_eq_self_iff.mpr (of_decide_eq_true h)]
  | .arr xs, h, hd => by rw [back,backItems_of_unpaired xs (every_arr.mp h) (every_arr.mp hd)]
  | .obj fs, h, hd => by
    obtain ⟨hwhole,hvalues⟩ := every_obj.mp h
    obtain ⟨hnodup,hdistinct⟩ := every_obj.mp hd
    rw [back,backFields_of_unpaired fs (of_decide_eq_true hwhole) hvalues hdistinct,toDict_of_nodup (of_decide_eq_true hnodup)]

theorem backItems_of_unpaired : (xs : List (Value φ)) → (∀ x ∈ xs, unpaired x = true) → (∀ x ∈ xs, distinct x = true) →
    backItems xs = xs
  | [], _, _ => rfl
  | x :: xs, h, hd => by
    obtain ⟨hx,hxs⟩ := List.forall_mem_cons.mp h
    obtain ⟨hdx,hdxs⟩ := List.forall_mem_cons.mp hd
    rw [backItems,back_of_unpaired x hx hdx,backItems_of_unpaired xs hxs hdxs]

theorem backFields_of_unpaired : (fs : List (Text × Value φ)) → (∀ k ∈ fs.map fst, Whole k) →
    (∀ e ∈ fs, unpaired e.2 = true) → (∀ e ∈ fs, distinct e.2 = true) → backFields fs = fs
  | [], _, _, _ => rfl
  | (k,v) :: fs, hkeys, h, hd => by
    obtain ⟨hk,hks⟩ := List.forall_mem_cons.mp hkeys
    obtain ⟨hv,hvs⟩ := List.forall_mem_cons.mp h
    obtain ⟨hdv,hdvs⟩ := List.forall_mem_cons.mp hd
    rw [backFields,join_eq_self_iff.mpr hk,back_of_unpaired v hv hdv,backFields_of_unpaired fs hks hvs hdvs]

end

theorem same_back_sorted {v : Value φ} (h : unpaired v = true) (hd : distinct v = true) : Same (back (sorted v)) v := by
  rw [back_of_unpaired (sorted v) ((unpaired_sorted v).trans h) ((distinct_sorted v).trans hd)]
  exact same_sorted v

end Value
end Verdict.JsonValue

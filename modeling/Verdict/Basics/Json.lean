import Mathlib.Algebra.Order.Ring.Rat
import Mathlib.Data.String.Basic
import Verdict.Basics.Dict

/-! # JSON values as a program reads them

Parsed JSON keeps integers, floats and booleans apart although they compare equal
when their numbers do. Printing with sorted keys is injective up to the order of
fields, so `canon` stands for the printed text: two values print the same exactly when
their canonical forms are equal.
-/
namespace Verdict

/-- A JSON leaf; a float is finite, the negative zero, or not finite. -/
inductive Scalar
  | null
  | bool (b : Bool)
  | int (n : ℤ)
  | float (q : ℚ)
  | negZero
  | nan | inf | negInf
  | str (s : String)
  deriving DecidableEq

inductive Json
  | scalar (s : Scalar)
  | arr (xs : List Json)
  | obj (fields : List (String × Json))

namespace Json

@[match_pattern] abbrev str (s : String) : Json := .scalar (.str s)
@[match_pattern] abbrev int (n : ℤ) : Json := .scalar (.int n)
@[match_pattern] abbrev float (q : ℚ) : Json := .scalar (.float q)
@[match_pattern] abbrev bool (b : Bool) : Json := .scalar (.bool b)

mutual

def decEq : (a b : Json) → Decidable (a = b)
  | .scalar s, .scalar t => if h : s = t then isTrue (h ▸ rfl) else isFalse fun e => h (Json.scalar.inj e)
  | .arr xs, .arr ys => match decEqList xs ys with
    | isTrue h => isTrue (h ▸ rfl)
    | isFalse h => isFalse fun e => h (Json.arr.inj e)
  | .obj fs, .obj gs => match decEqFields fs gs with
    | isTrue h => isTrue (h ▸ rfl)
    | isFalse h => isFalse fun e => h (Json.obj.inj e)
  | .scalar _, .arr _ => isFalse fun e => by cases e
  | .scalar _, .obj _ => isFalse fun e => by cases e
  | .arr _, .scalar _ => isFalse fun e => by cases e
  | .arr _, .obj _ => isFalse fun e => by cases e
  | .obj _, .scalar _ => isFalse fun e => by cases e
  | .obj _, .arr _ => isFalse fun e => by cases e

def decEqList : (xs ys : List Json) → Decidable (xs = ys)
  | [], [] => isTrue rfl
  | x :: xs, y :: ys => match decEq x y, decEqList xs ys with
    | isTrue h, isTrue hs => isTrue (h ▸ hs ▸ rfl)
    | isFalse h, _ => isFalse fun e => h (List.cons.inj e).1
    | _, isFalse hs => isFalse fun e => hs (List.cons.inj e).2
  | [], _ :: _ => isFalse fun e => by cases e
  | _ :: _, [] => isFalse fun e => by cases e

def decEqFields : (fs gs : List (String × Json)) → Decidable (fs = gs)
  | [], [] => isTrue rfl
  | (j,x) :: fs, (k,y) :: gs =>
    if hk : j = k then
      match decEq x y, decEqFields fs gs with
      | isTrue h, isTrue hs => isTrue (hk ▸ h ▸ hs ▸ rfl)
      | isFalse h, _ => isFalse fun e => h (Prod.mk.inj (List.cons.inj e).1).2
      | _, isFalse hs => isFalse fun e => hs (List.cons.inj e).2
    else isFalse fun e => hk (Prod.mk.inj (List.cons.inj e).1).1
  | [], _ :: _ => isFalse fun e => by cases e
  | _ :: _, [] => isFalse fun e => by cases e

end

instance : DecidableEq Json := decEq

def normScalar : Scalar → Scalar
  | .bool b => .float (if b then 1 else 0)
  | .int n => .float n
  | .negZero => .float 0
  | s => s

mutual

def norm : Json → Json
  | .scalar s => .scalar (normScalar s)
  | .arr xs => .arr (normList xs)
  | .obj fields => .obj (normFields fields)

def normList : List Json → List Json
  | [] => []
  | x :: xs => norm x :: normList xs

def normFields : List (String × Json) → List (String × Json)
  | [] => []
  | (k,v) :: rest => (k,norm v) :: normFields rest

end

mutual

def hasNan : Json → Bool
  | .scalar s => s = .nan
  | .arr xs => hasNanList xs
  | .obj fields => hasNanFields fields

def hasNanList : List Json → Bool
  | [] => false
  | x :: xs => hasNan x || hasNanList xs

def hasNanFields : List (String × Json) → Bool
  | [] => false
  | (_,v) :: rest => hasNan v || hasNanFields rest

end

def insertField {α : Type} (k : String) (v : α) : List (String × α) → List (String × α)
  | [] => [(k,v)]
  | (j,w) :: rest => if k ≤ j then (k,v) :: (j,w) :: rest else (j,w) :: insertField k v rest

mutual

def canon : Json → Json
  | .scalar s => .scalar s
  | .arr xs => .arr (canonList xs)
  | .obj fields => .obj (canonFields fields)

def canonList : List Json → List Json
  | [] => []
  | x :: xs => canon x :: canonList xs

def canonFields : List (String × Json) → List (String × Json)
  | [] => []
  | (k,v) :: rest => insertField k (canon v) (canonFields rest)

end

/-- `a == b`; a NaN equals nothing. -/
def pyEq (a b : Json) : Bool := !a.hasNan && decide (a.norm.canon = b.norm.canon)

def printScalar : Scalar → String
  | .null => "null"
  | .bool b => if b then "true" else "false"
  | .int n => toString n
  | .float q => toString q.num ++ "/" ++ toString q.den
  | .negZero => "-0.0"
  | .nan => "NaN"
  | .inf => "Infinity"
  | .negInf => "-Infinity"
  | .str s => "\"" ++ s ++ "\""

mutual

def print : Json → String
  | .scalar s => printScalar s
  | .arr xs => "[" ++ printList xs ++ "]"
  | .obj fields => "<" ++ printFields fields ++ ">"

def printList : List Json → String
  | [] => ""
  | x :: xs => print x ++ "," ++ printList xs

def printFields : List (String × Json) → String
  | [] => ""
  | (k,v) :: rest => k ++ ":" ++ print v ++ "," ++ printFields rest

end

section
variable {α : Type}

theorem lookup_insertField (k j : String) (v : α) (fields : List (String × α)) :
    (insertField k v fields).lookup j = if j = k then some v else fields.lookup j := by
  induction fields with
  | nil => rw [insertField,Dict.lookup_cons_ite]
  | cons e rest ih =>
    obtain ⟨i,w⟩ := e
    unfold insertField
    split
    · rw [Dict.lookup_cons_ite]
    · rename_i hlt
      have hne : i ≠ k := fun h => hlt (h ▸ le_rfl)
      rw [Dict.lookup_cons_ite,ih,Dict.lookup_cons_ite]
      by_cases hj : j = i
      · rw [if_pos hj,if_neg fun h => hne (hj.symm.trans h),if_pos hj]
      · rw [if_neg hj,if_neg hj]

variable {k : String} {v : α} {fields : List (String × α)}

theorem mem_insertField {e : String × α} : e ∈ insertField k v fields ↔ e = (k,v) ∨ e ∈ fields := by
  induction fields with
  | nil => simp [insertField]
  | cons f rest ih =>
    unfold insertField
    split
    · simp
    · simp only [List.mem_cons,ih]
      tauto

theorem pairwise_insertField (h : fields.Pairwise fun a b => a.1 ≤ b.1) : (insertField k v fields).Pairwise fun a b => a.1 ≤ b.1 := by
  induction fields with
  | nil => simp [insertField]
  | cons f rest ih =>
    obtain ⟨hhead,htail⟩ := List.pairwise_cons.mp h
    unfold insertField
    split
    · rename_i hle
      refine List.pairwise_cons.mpr ⟨fun e he => ?_,h⟩
      rcases List.mem_cons.mp he with rfl | he
      · exact hle
      · exact le_trans hle (hhead e he)
    · rename_i hlt
      refine List.pairwise_cons.mpr ⟨fun e he => ?_,ih htail⟩
      rcases mem_insertField.mp he with rfl | he
      · exact le_of_lt (not_le.mp hlt)
      · exact hhead e he

theorem insertField_perm (k : String) (v : α) (fields : List (String × α)) : (insertField k v fields).Perm ((k,v) :: fields) := by
  induction fields with
  | nil => exact .refl _
  | cons e rest ih =>
    obtain ⟨j,w⟩ := e
    rw [insertField]
    split
    · exact .refl _
    · exact (ih.cons _).trans (.swap _ _ _)

theorem insertField_map {β : Type} (f : α → β) (k : String) (v : α) (fields : List (String × α)) :
    insertField k (f v) (fields.map fun e => (e.1,f e.2)) = (insertField k v fields).map fun e => (e.1,f e.2) := by
  induction fields with
  | nil => rfl
  | cons e rest ih =>
    obtain ⟨j,w⟩ := e
    simp only [List.map_cons,insertField]
    split
    · rfl
    · rw [ih]
      rfl

end

variable {fields : List (String × Json)}

theorem pairwise_canonFields (fields : List (String × Json)) :
    (canonFields fields).Pairwise fun a b => a.1 ≤ b.1 := by
  induction fields with
  | nil => exact .nil
  | cons e rest ih =>
    obtain ⟨k,v⟩ := e
    rw [canonFields]
    exact pairwise_insertField ih

theorem canonFields_of_sorted (hsorted : fields.Pairwise fun a b => a.1 ≤ b.1)
    (hcanon : ∀ e ∈ fields, canon e.2 = e.2) : canonFields fields = fields := by
  induction fields with
  | nil => rfl
  | cons e rest ih =>
    obtain ⟨k,v⟩ := e
    obtain ⟨hhead,htail⟩ := List.pairwise_cons.mp hsorted
    rw [canonFields,ih htail fun e he => hcanon e (List.mem_cons_of_mem _ he),hcanon (k,v) List.mem_cons_self]
    cases rest with
    | nil => rfl
    | cons f rest =>
      unfold insertField
      exact if_pos (hhead f List.mem_cons_self)

mutual

theorem canon_canon : (j : Json) → canon (canon j) = canon j
  | .scalar s => rfl
  | .arr xs => by rw [canon,canon,canonList_canonList xs]
  | .obj fields => by
    rw [canon,canon]
    exact congrArg Json.obj (canonFields_of_sorted (pairwise_canonFields fields) (canon_of_mem_canonFields fields))

theorem canonList_canonList : (xs : List Json) → canonList (canonList xs) = canonList xs
  | [] => rfl
  | x :: xs => by rw [canonList,canonList,canon_canon x,canonList_canonList xs]

theorem canon_of_mem_canonFields : (fields : List (String × Json)) → ∀ e ∈ canonFields fields, canon e.2 = e.2
  | [],_,he => absurd he List.not_mem_nil
  | (k,v) :: rest,e,he => by
    rcases mem_insertField.mp he with rfl | he
    · exact canon_canon v
    · exact canon_of_mem_canonFields rest e he

end

theorem canonFields_canonFields (fields : List (String × Json)) : canonFields (canonFields fields) = canonFields fields :=
  canonFields_of_sorted (pairwise_canonFields fields) (canon_of_mem_canonFields fields)

theorem lookup_canonFields (fields : List (String × Json)) (j : String) :
    (canonFields fields).lookup j = (fields.lookup j).map canon := by
  induction fields with
  | nil => simp [canonFields]
  | cons e rest ih =>
    obtain ⟨k,v⟩ := e
    rw [canonFields,lookup_insertField,ih,Dict.lookup_cons_ite]
    split <;> rfl

/-- `json.dumps(..., sort_keys=True)` of an object, as the value it stands for. -/
def dumps (fields : List (String × Json)) : List (String × Json) := canonFields fields

theorem lookup_of_dumps {others : List (String × Json)} (h : dumps fields = dumps others) {j : String} {s : Scalar}
    (hj : fields.lookup j = some (.scalar s)) : others.lookup j = some (.scalar s) := by
  have hsame : (fields.lookup j).map canon = (others.lookup j).map canon := by
    rw [← lookup_canonFields,← lookup_canonFields]
    exact congrArg (List.lookup j) h
  rw [hj] at hsame
  cases ho : others.lookup j with
  | none =>
    rw [ho] at hsame
    cases hsame
  | some v =>
    rw [ho] at hsame
    cases v with
    | scalar t =>
      simp only [Option.map_some,canon,Option.some.injEq,Json.scalar.injEq] at hsame
      rw [hsame]
    | arr xs => simp [canon] at hsame
    | obj fs => simp [canon] at hsame

end Json
end Verdict

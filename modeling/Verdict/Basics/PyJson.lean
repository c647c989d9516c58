import Verdict.Basics.Json

/-! # Objects read and written by a program

Reading a field of a parsed object gives null when it is absent, and a default is taken for
every value that counts as false. Writing a value to a file and reading it back sorts its
fields, so that it equals the original as long as no number in it is a NaN.
-/
namespace Verdict

abbrev Fields := List (String × Json)

namespace Json

abbrev null : Json := .scalar .null

/-- `data.get(key)`. -/
def get (fields : Fields) (key : String) : Json := (fields.lookup key).getD .null

def fields : Json → Fields
  | .obj fs => fs
  | _ => []

def items : Json → List Json
  | .arr xs => xs
  | _ => []

def isObj : Json → Bool
  | .obj _ => true
  | _ => false

/-- `bool(value)`. -/
def truthy : Json → Bool
  | .scalar .null => false
  | .bool b => b
  | .int n => decide (n ≠ 0)
  | .float q => decide (q ≠ 0)
  | .scalar .negZero => false
  | .str s => decide (s ≠ "")
  | .arr xs => !xs.isEmpty
  | .obj fs => !fs.isEmpty
  | _ => true

/-- `{**base, **more}`. -/
def update (base more : Fields) : Fields := more.foldl (fun fs e => Dict.put e.1 e.2 fs) base

/-! ### Values without a NaN -/

variable (xs : List Json)

theorem hasNanList_eq : hasNanList xs = xs.any hasNan := by
  induction xs with
  | nil => rfl
  | cons x xs ih => rw [hasNanList,ih,List.any_cons]

variable (fs : Fields)

theorem hasNanFields_eq : hasNanFields fs = fs.any fun e => e.2.hasNan := by
  induction fs with
  | nil => rfl
  | cons e fs ih =>
    obtain ⟨k,v⟩ := e
    rw [hasNanFields,ih,List.any_cons]

def Finite : Prop := hasNanFields fs = false

instance (fs : Fields) : Decidable (Finite fs) := inferInstanceAs (Decidable (_ = false))

theorem finite_iff {fs : Fields} : Finite fs ↔ ∀ e ∈ fs, e.2.hasNan = false := by
  rw [Finite,hasNanFields_eq,List.any_eq_false]
  simp only [Bool.not_eq_true]

@[simp] theorem finite_nil : Finite [] := rfl

@[simp] theorem finite_cons {k : String} {v : Json} {fs : Fields} :
    Finite ((k,v) :: fs) ↔ v.hasNan = false ∧ Finite fs := by
  rw [Finite,Finite,hasNanFields,Bool.or_eq_false_iff]

@[simp] theorem finite_append {fs gs : Fields} : Finite (fs ++ gs) ↔ Finite fs ∧ Finite gs := by
  simp only [finite_iff,List.mem_append]
  exact ⟨fun h => ⟨fun e he => h e (.inl he),fun e he => h e (.inr he)⟩,fun h e he => he.elim (h.1 e) (h.2 e)⟩

@[simp] theorem hasNan_obj : (Json.obj fs).hasNan = false ↔ Finite fs := by
  rw [hasNan,Finite]

@[simp] theorem hasNan_arr : (Json.arr xs).hasNan = false ↔ ∀ x ∈ xs, x.hasNan = false := by
  rw [hasNan,hasNanList_eq,List.any_eq_false]
  simp only [Bool.not_eq_true]

theorem Finite.get {fs : Fields} (h : Finite fs) (key : String) : (get fs key).hasNan = false := by
  rw [Json.get]
  cases hl : fs.lookup key with
  | none => rfl
  | some v => exact finite_iff.mp h _ (Dict.lookup_some_mem hl)

theorem finite_fields {j : Json} (h : j.hasNan = false) : Finite j.fields := by
  cases j with
  | obj fs => exact (hasNan_obj fs).mp h
  | _ => rfl

theorem Finite.put {fs : Fields} {k : String} {v : Json} (h : Finite fs) (hv : v.hasNan = false) :
    Finite (Dict.put k v fs) := by
  induction fs with
  | nil => simpa [Dict.put] using hv
  | cons e fs ih =>
    obtain ⟨j,w⟩ := e
    rw [finite_cons] at h
    rw [Dict.put]
    split
    · exact finite_cons.mpr ⟨hv,h.2⟩
    · exact finite_cons.mpr ⟨h.1,ih h.2⟩

theorem Finite.update {base more : Fields} (h : Finite base) (hmore : Finite more) : Finite (update base more) := by
  rw [Json.update]
  induction more generalizing base with
  | nil => exact h
  | cons e more ih =>
    obtain ⟨k,v⟩ := e
    rw [finite_cons] at hmore
    exact ih (h.put hmore.1) hmore.2

/-! ### Reading back what was written -/

theorem normFields_insertField (k : String) (v : Json) (fs : Fields) :
    normFields (insertField k v fs) = insertField k (norm v) (normFields fs) := by
  induction fs with
  | nil => rfl
  | cons e fs ih =>
    obtain ⟨j,w⟩ := e
    simp only [insertField,normFields]
    split
    · rfl
    · rw [normFields,ih]

mutual

theorem norm_canon : (j : Json) → norm (canon j) = canon (norm j)
  | .scalar _ => rfl
  | .arr xs => by rw [canon,norm,norm,canon,normList_canonList xs]
  | .obj fs => by rw [canon,norm,norm,canon,normFields_canonFields fs]

theorem normList_canonList : (xs : List Json) → normList (canonList xs) = canonList (normList xs)
  | [] => rfl
  | x :: xs => by rw [canonList,normList,normList,canonList,norm_canon x,normList_canonList xs]

theorem normFields_canonFields : (fs : Fields) → normFields (canonFields fs) = canonFields (normFields fs)
  | [] => rfl
  | (k,v) :: fs => by
    rw [canonFields,normFields_insertField,normFields,canonFields,norm_canon v,normFields_canonFields fs]

end

theorem get_canonFields (key : String) : get (canonFields fs) key = canon (get fs key) := by
  rw [Json.get,Json.get,lookup_canonFields]
  cases fs.lookup key <;> rfl

variable (j : Json)

theorem pyEq_canon : pyEq j (canon j) = !j.hasNan := by
  rw [pyEq,norm_canon,canon_canon,decide_eq_true rfl,Bool.and_true]

theorem pyEq_canon_right (a b : Json) : pyEq a (canon b) = pyEq a b := by
  rw [pyEq,pyEq,norm_canon,canon_canon]

theorem canonList_eq_map : canonList xs = xs.map canon := by
  induction xs with
  | nil => rfl
  | cons x xs ih => rw [canonList,ih,List.map_cons]

theorem items_canon : (canon j).items = j.items.map canon := by
  cases j with
  | scalar s => rfl
  | arr xs => exact canonList_eq_map xs
  | obj fs => rfl

@[simp] theorem truthy_canon : (canon j).truthy = j.truthy := by
  cases j with
  | scalar s => rfl
  | arr xs => cases xs <;> rfl
  | obj fs =>
    have hempty : (canonFields fs).isEmpty = fs.isEmpty := by
      cases fs with
      | nil => rfl
      | cons e fs =>
        rw [canonFields]
        cases canonFields fs with
        | nil => rfl
        | cons f gs =>
          rw [insertField]
          split <;> rfl
    exact congrArg not hempty

theorem pyEq_int_canon {j : Json} {n : ℤ} (h : pyEq j (.int n) = true) : pyEq (canon j) (.int n) = true := by
  cases j with
  | scalar s => exact h
  | arr xs =>
    rw [pyEq,Bool.and_eq_true,decide_eq_true_eq] at h
    cases h.2
  | obj fs =>
    rw [pyEq,Bool.and_eq_true,decide_eq_true_eq] at h
    cases h.2

/-! ### Setting a field -/

theorem get_put (k j : String) (v : Json) : get (Dict.put k v fs) j = if j = k then v else get fs j := by
  rw [Json.get,Json.get,Dict.lookup_put]
  split <;> rfl

theorem isSome_put {fs : Fields} {k j : String} {v : Json} (h : (fs.lookup j).isSome = true) :
    ((Dict.put k v fs).lookup j).isSome = true := by
  rw [Dict.lookup_put]
  split
  · rfl
  · exact h

end Json
end Verdict

/-! ## Canonical values

Values that print the same with sorted keys: the order of the fields does not matter at any
depth. Printing refuses a number that is not finite.
-/
namespace Verdict.Json

/-! ### Finite numbers -/

def Scalar.isFinite : Scalar → Bool
  | .nan | .inf | .negInf => false
  | _ => true

mutual

def allFinite : Json → Bool
  | .scalar s => Scalar.isFinite s
  | .arr xs => allFiniteList xs
  | .obj fields => allFiniteFields fields

def allFiniteList : List Json → Bool
  | [] => true
  | x :: xs => allFinite x && allFiniteList xs

def allFiniteFields : List (String × Json) → Bool
  | [] => true
  | (_,v) :: rest => allFinite v && allFiniteFields rest

end

theorem allFiniteFields_iff {fs : Fields} : allFiniteFields fs = true ↔ ∀ e ∈ fs, e.2.allFinite = true := by
  induction fs with
  | nil => exact iff_of_true rfl fun _ h => absurd h List.not_mem_nil
  | cons e fs ih =>
    obtain ⟨k,v⟩ := e
    rw [allFiniteFields,Bool.and_eq_true,ih,List.forall_mem_cons]

theorem allFiniteFields_insertField (k : String) (v : Json) (fs : Fields) :
    allFiniteFields (insertField k v fs) = (allFinite v && allFiniteFields fs) := by
  rw [Bool.eq_iff_iff,Bool.and_eq_true,allFiniteFields_iff,allFiniteFields_iff]
  constructor
  · intro h
    exact ⟨h (k,v) (mem_insertField.mpr (.inl rfl)),fun e he => h e (mem_insertField.mpr (.inr he))⟩
  · rintro ⟨hv,hfs⟩ e he
    rcases mem_insertField.mp he with rfl | he
    · exact hv
    · exact hfs e he

mutual

theorem allFinite_canon : (j : Json) → allFinite (canon j) = allFinite j
  | .scalar _ => rfl
  | .arr xs => by rw [canon,allFinite,allFinite,allFiniteList_canonList xs]
  | .obj fs => by rw [canon,allFinite,allFinite,allFiniteFields_canonFields fs]

theorem allFiniteList_canonList : (xs : List Json) → allFiniteList (canonList xs) = allFiniteList xs
  | [] => rfl
  | x :: xs => by rw [canonList,allFiniteList,allFiniteList,allFinite_canon x,allFiniteList_canonList xs]

theorem allFiniteFields_canonFields : (fs : Fields) → allFiniteFields (canonFields fs) = allFiniteFields fs
  | [] => rfl
  | (k,v) :: fs => by
    rw [canonFields,allFiniteFields_insertField,allFiniteFields,allFinite_canon v,allFiniteFields_canonFields fs]

end

mutual

theorem hasNan_of_allFinite : (j : Json) → allFinite j = true → hasNan j = false
  | .scalar s, h => by
    rw [hasNan,decide_eq_false_iff_not]
    rintro rfl
    cases h
  | .arr xs, h => by
    rw [hasNan,hasNanList_of_allFinite xs h]
  | .obj fs, h => by
    rw [hasNan,hasNanFields_of_allFinite fs h]

theorem hasNanList_of_allFinite : (xs : List Json) → allFiniteList xs = true → hasNanList xs = false
  | [], _ => rfl
  | x :: xs, h => by
    obtain ⟨hx,hxs⟩ := Bool.and_eq_true_iff.mp h
    rw [hasNanList,hasNan_of_allFinite x hx,hasNanList_of_allFinite xs hxs]
    rfl

theorem hasNanFields_of_allFinite : (fs : Fields) → allFiniteFields fs = true → hasNanFields fs = false
  | [], _ => rfl
  | (_,v) :: fs, h => by
    obtain ⟨hv,hfs⟩ := Bool.and_eq_true_iff.mp h
    rw [hasNanFields,hasNan_of_allFinite v hv,hasNanFields_of_allFinite fs hfs]
    rfl

end

/-! ### The order of fields -/

def SameFields (fs gs : Fields) : Prop := List.Forall₂ (fun e f => e.1 = f.1 ∧ canon e.2 = canon f.2) fs gs

theorem canonFields_congr {fs gs : Fields} (h : SameFields fs gs) : canonFields fs = canonFields gs := by
  induction h with
  | nil => rfl
  | @cons e f fs gs hhead _ ih =>
    obtain ⟨k,v⟩ := e
    obtain ⟨j,w⟩ := f
    obtain ⟨hkey,hvalue⟩ := hhead
    cases hkey
    rw [canonFields,canonFields,ih,show canon v = canon w from hvalue]

theorem canon_obj_canonFields (fs : Fields) : canon (.obj (canonFields fs)) = canon (.obj fs) := canon_canon (.obj fs)

theorem insertField_swap {j k : String} (hne : j ≠ k) (v w : Json) (fs : Fields) :
    insertField j v (insertField k w fs) = insertField k w (insertField j v fs) := by
  induction fs with
  | nil =>
    rcases lt_or_gt_of_ne hne with hlt | hgt
    · simp only [insertField,if_pos hlt.le,if_neg (not_le.mpr hlt)]
    · simp only [insertField,if_pos (le_of_lt hgt),if_neg (not_le.mpr hgt)]
  | cons e fs ih =>
    obtain ⟨i,u⟩ := e
    by_cases hj : j ≤ i <;> by_cases hk : k ≤ i
    · rcases lt_or_gt_of_ne hne with hlt | hgt
      · simp only [insertField,if_pos hj,if_pos hk,if_pos hlt.le,if_neg (not_le.mpr hlt)]
      · simp only [insertField,if_pos hj,if_pos hk,if_pos (le_of_lt hgt),if_neg (not_le.mpr hgt)]
    · have hkj : ¬k ≤ j := fun h => hk (h.trans hj)
      simp only [insertField,if_pos hj,if_neg hk,if_neg hkj]
    · have hjk : ¬j ≤ k := fun h => hj (h.trans hk)
      simp only [insertField,if_neg hj,if_pos hk,if_neg hjk]
    · simp only [insertField,if_neg hj,if_neg hk]
      rw [ih]

theorem canonFields_perm {fs gs : Fields} (h : fs.Perm gs) (hnodup : (fs.map Prod.fst).Nodup) :
    canonFields fs = canonFields gs := by
  induction h with
  | nil => rfl
  | @cons e fs gs _ ih =>
    obtain ⟨k,v⟩ := e
    rw [canonFields,canonFields,ih (List.nodup_cons.mp hnodup).2]
  | @swap e f fs =>
    obtain ⟨k,v⟩ := e
    obtain ⟨j,w⟩ := f
    have hne : j ≠ k := by
      have hnot := (List.nodup_cons.mp hnodup).1
      exact fun h => hnot (List.mem_cons.mpr (.inl h))
    rw [canonFields,canonFields,canonFields,canonFields]
    exact insertField_swap hne _ _ _
  | trans hfirst _ ih ih' =>
    exact (ih hnodup).trans (ih' ((hfirst.map Prod.fst).nodup_iff.mp hnodup))

/-- The same value with its objects' fields in another order, at any depth. -/
inductive Reordered : Json → Json → Prop
  | scalar (s : Scalar) : Reordered (.scalar s) (.scalar s)
  | nil : Reordered (.arr []) (.arr [])
  | cons {x y : Json} {xs ys : List Json} : Reordered x y → Reordered (.arr xs) (.arr ys) → Reordered (.arr (x :: xs)) (.arr (y :: ys))
  | empty : Reordered (.obj []) (.obj [])
  | field {k : String} {v w : Json} {fs gs : Fields} : Reordered v w → Reordered (.obj fs) (.obj gs) →
    Reordered (.obj ((k,v) :: fs)) (.obj ((k,w) :: gs))
  | permuted {fs gs : Fields} : fs.Perm gs → (fs.map Prod.fst).Nodup → Reordered (.obj fs) (.obj gs)
  | trans {a b c : Json} : Reordered a b → Reordered b c → Reordered a c

theorem Reordered.canon {a b : Json} (h : Reordered a b) : a.canon = b.canon := by
  induction h with
  | scalar s => rfl
  | nil => rfl
  | cons _ _ hx hxs =>
    rw [Json.canon] at hxs ⊢
    rw [Json.canon] at hxs ⊢
    rw [canonList,canonList,hx,Json.arr.inj hxs]
  | empty => rfl
  | field _ _ hv hfs =>
    rw [Json.canon] at hfs ⊢
    rw [Json.canon] at hfs ⊢
    rw [canonFields,canonFields,hv,Json.obj.inj hfs]
  | permuted hperm hnodup => rw [Json.canon,Json.canon,canonFields_perm hperm hnodup]
  | trans _ _ ih ih' => exact ih.trans ih'

end Verdict.Json

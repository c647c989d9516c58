import Verdict.Basics.PyJson

/-! # Records written as JSON and read back

Writing a value and reading it back sorts the fields of its objects. A codec says what comes
back, and codecs of the parts of a record compose to one of the record: its fields are written
one after the other, optional ones only when they are there, and each is looked up by its key.
-/
namespace Verdict.JsonCodec
open Json

structure Codec (α : Type) where
  encode : α → Json
  decode : Json → Option α
  settled : α → α
  roundTrip : ∀ a, decode (canon (encode a)) = some (settled a)

def string : Codec String where
  encode := Json.str
  decode
    | .str s => some s
    | _ => none
  settled := id
  roundTrip _ := rfl

def integer : Codec ℤ where
  encode := Json.int
  decode
    | .int n => some n
    | _ => none
  settled := id
  roundTrip _ := rfl

def number : Codec ℚ where
  encode := Json.float
  decode
    | .float q => some q
    | _ => none
  settled := id
  roundTrip _ := rfl

def boolean : Codec Bool where
  encode := Json.bool
  decode
    | .bool b => some b
    | _ => none
  settled := id
  roundTrip _ := rfl

def value : Codec Json where
  encode := id
  decode := some
  settled := canon
  roundTrip _ := rfl

def object : Codec Fields where
  encode := Json.obj
  decode
    | .obj fs => some fs
    | _ => none
  settled := canonFields
  roundTrip _ := rfl

def nullableString : Codec (Option String) where
  encode
    | none => .null
    | some s => .str s
  decode
    | .scalar .null => some none
    | .str s => some (some s)
    | _ => none
  settled := id
  roundTrip
    | none => rfl
    | some _ => rfl

@[simp] theorem settled_string : string.settled = id := rfl
@[simp] theorem settled_integer : integer.settled = id := rfl
@[simp] theorem settled_number : number.settled = id := rfl
@[simp] theorem settled_boolean : boolean.settled = id := rfl
@[simp] theorem settled_object : object.settled = canonFields := rfl
@[simp] theorem settled_nullableString : nullableString.settled = id := rfl

theorem mapM_some {α β : Type} {f : α → Option β} {g : α → β} (h : ∀ a, f a = some (g a)) (xs : List α) :
    xs.mapM f = some (xs.map g) := by
  induction xs with
  | nil => rfl
  | cons x xs ih => rw [List.mapM_cons,h,ih,List.map_cons]; rfl

def list {α : Type} (c : Codec α) : Codec (List α) where
  encode xs := .arr (xs.map c.encode)
  decode
    | .arr xs => xs.mapM c.decode
    | _ => none
  settled := List.map c.settled
  roundTrip xs := by
    simp only [canon,canonList_eq_map,List.map_map]
    rw [List.mapM_map]
    exact mapM_some c.roundTrip xs

def Codec.Stable {α : Type} (c : Codec α) : Prop := ∀ j, c.decode (canon j) = (c.decode j).map c.settled

theorem string_stable : string.Stable := by
  intro j
  cases j with
  | scalar s => cases s <;> rfl
  | arr xs => rfl
  | obj fs => rfl

theorem nullableString_stable : nullableString.Stable := by
  intro j
  cases j with
  | scalar s => cases s <;> rfl
  | arr xs => rfl
  | obj fs => rfl

theorem object_stable : object.Stable := by
  intro j
  cases j with
  | scalar s => cases s <;> rfl
  | arr xs => rfl
  | obj fs => rfl

theorem mapM_stable {α : Type} {c : Codec α} (h : c.Stable) (xs : List Json) :
    (canonList xs).mapM c.decode = (xs.mapM c.decode).map (List.map c.settled) := by
  induction xs with
  | nil => rfl
  | cons x xs ih =>
    rw [canonList,List.mapM_cons,List.mapM_cons,h x,ih]
    cases c.decode x with
    | none => rfl
    | some a =>
      cases xs.mapM c.decode with
      | none => rfl
      | some as => rfl

theorem list_stable {α : Type} {c : Codec α} (h : c.Stable) : (list c).Stable := by
  intro j
  cases j with
  | scalar s => cases s <;> rfl
  | arr xs => exact mapM_stable h xs
  | obj fs => rfl

/-! ### Dictionaries -/

section
variable {α : Type}

def sortKeys : List (String × α) → List (String × α)
  | [] => []
  | (k,a) :: rest => insertField k a (sortKeys rest)

theorem lookup_sortKeys (ps : List (String × α)) (j : String) : (sortKeys ps).lookup j = ps.lookup j := by
  induction ps with
  | nil => rfl
  | cons e rest ih =>
    obtain ⟨k,a⟩ := e
    rw [sortKeys,lookup_insertField,ih,Dict.lookup_cons_ite]

theorem sortKeys_map {β : Type} (f : α → β) (ps : List (String × α)) :
    sortKeys (ps.map fun e => (e.1,f e.2)) = (sortKeys ps).map fun e => (e.1,f e.2) := by
  induction ps with
  | nil => rfl
  | cons e rest ih =>
    obtain ⟨k,a⟩ := e
    rw [List.map_cons,sortKeys,ih]
    exact insertField_map f k a (sortKeys rest)

theorem sortKeys_perm (ps : List (String × α)) : (sortKeys ps).Perm ps := by
  induction ps with
  | nil => exact .rfl
  | cons e rest ih => exact (insertField_perm e.1 e.2 _).trans (ih.cons _)

variable {ps : List (String × α)}

theorem pairwise_sortKeys (ps : List (String × α)) : (sortKeys ps).Pairwise fun a b => a.1 ≤ b.1 := by
  induction ps with
  | nil => exact .nil
  | cons e rest ih => exact pairwise_insertField ih

theorem sortKeys_of_sorted (h : ps.Pairwise fun a b => a.1 ≤ b.1) : sortKeys ps = ps := by
  induction h with
  | nil => rfl
  | @cons e rest hle _ ih =>
    rw [sortKeys,ih]
    cases rest with
    | nil => rfl
    | cons f fs => rw [insertField,if_pos (hle f List.mem_cons_self)]

theorem canonFields_map (f : α → Json) (ps : List (String × α)) :
    canonFields (ps.map fun e => (e.1,f e.2)) = (sortKeys ps).map fun e => (e.1,canon (f e.2)) := by
  induction ps with
  | nil => rfl
  | cons e rest ih =>
    obtain ⟨k,a⟩ := e
    rw [List.map_cons,canonFields,ih]
    exact insertField_map (fun a => canon (f a)) k a (sortKeys rest)

end

def entries {α : Type} (c : Codec α) : Codec (List (String × α)) where
  encode ps := .obj (ps.map fun e => (e.1,c.encode e.2))
  decode
    | .obj fs => fs.mapM fun e => (c.decode e.2).map fun a => (e.1,a)
    | _ => none
  settled ps := (sortKeys ps).map fun e => (e.1,c.settled e.2)
  roundTrip ps := by
    simp only [canon,canonFields_map,List.mapM_map]
    refine mapM_some (fun e => ?_) (sortKeys ps)
    simp only [Function.comp_apply,c.roundTrip,Option.map_some]

/-! ### Records -/

section
variable {α : Type}

def field (key : String) (c : Codec α) (a : α) : String × Option Json := (key,some (c.encode a))

def fieldIf (key : String) (c : Codec α) (o : Option α) : String × Option Json := (key,o.map c.encode)

def record (es : List (String × Option Json)) : Fields := es.filterMap fun e => e.2.map fun j => (e.1,j)

/-- `payload[key]`. -/
def need (c : Codec α) (key : String) (fs : Fields) : Option α := (fs.lookup key).bind c.decode

/-- `payload.get(key)`. -/
def find (c : Codec α) (key : String) (fs : Fields) : Option (Option α) := match fs.lookup key with
  | none => some none
  | some j => (c.decode j).map some

variable {es : List (String × Option Json)} {e : String × Json}

theorem mem_record (h : e ∈ record es) : e.1 ∈ es.map Prod.fst := by
  obtain ⟨f,hf,hsome⟩ := List.mem_filterMap.mp h
  obtain ⟨j,-,rfl⟩ := Option.map_eq_some_iff.mp hsome
  exact List.mem_map_of_mem hf

variable {key : String}

theorem lookup_record (hnodup : (es.map Prod.fst).Nodup)
    {o : Option Json} (h : (key,o) ∈ es) : (record es).lookup key = o := by
  induction es with
  | nil => exact absurd h List.not_mem_nil
  | cons e es ih =>
    obtain ⟨hnot,hrest⟩ := List.nodup_cons.mp hnodup
    rcases List.mem_cons.mp h with rfl | hmem
    · cases o with
      | none =>
        refine Dict.lookup_eq_none_of_not_mem fun hmem => ?_
        obtain ⟨f,hf,hkey⟩ := List.mem_map.mp (show key ∈ (record es).map Prod.fst from hmem)
        exact hnot (hkey ▸ mem_record hf)
      | some j => exact (Dict.lookup_cons_ite key key j _).trans (if_pos rfl)
    · have hne : key ≠ e.1 := fun hsame => hnot (hsame ▸ List.mem_map_of_mem hmem)
      obtain ⟨k,o'⟩ := e
      cases o' with
      | none => exact ih hrest hmem
      | some j => exact (Dict.lookup_cons_ite key k j _).trans ((if_neg hne).trans (ih hrest hmem))

variable {c : Codec α} {fs : Fields}

theorem need_canonFields {a : α} (h : fs.lookup key = some (c.encode a)) :
    need c key (canonFields fs) = some (c.settled a) := by
  rw [need,lookup_canonFields,h]
  exact c.roundTrip a

theorem find_canonFields {o : Option α} (h : fs.lookup key = o.map c.encode) :
    find c key (canonFields fs) = some (o.map c.settled) := by
  rw [find,lookup_canonFields,h]
  cases o with
  | none => rfl
  | some a => simp only [Option.map_some,c.roundTrip]

def SameAt (key : String) (fs gs : Fields) : Prop := (fs.lookup key).map canon = (gs.lookup key).map canon

variable {gs : Fields}

theorem need_same (hc : c.Stable) (h : SameAt key fs gs) :
    (need c key fs).map c.settled = (need c key gs).map c.settled := by
  have hread : ∀ hs : Fields, (need c key hs).map c.settled = ((hs.lookup key).map canon).bind c.decode := by
    intro hs
    rw [need]
    cases hs.lookup key with
    | none => rfl
    | some j => exact (hc j).symm
  rw [hread,hread,h]

theorem find_same (hc : c.Stable) (h : SameAt key fs gs) :
    (find c key fs).map (Option.map c.settled) = (find c key gs).map (Option.map c.settled) := by
  have hread : ∀ hs : Fields, (find c key hs).map (Option.map c.settled) =
      (match (hs.lookup key).map canon with
        | none => some none
        | some j => (c.decode j).map some) := by
    intro hs
    rw [find]
    cases hs.lookup key with
    | none => rfl
    | some j =>
      simp only [Option.map_some,hc j,Option.map_map]
      rfl
  rw [hread,hread,h]

theorem mem_canonFields (h : e ∈ canonFields fs) : ∃ f ∈ fs, f.1 = e.1 := by
  induction fs with
  | nil => exact absurd h List.not_mem_nil
  | cons f rest ih =>
    obtain ⟨k,v⟩ := f
    rcases mem_insertField.mp h with rfl | h
    · exact ⟨(k,v),List.mem_cons_self,rfl⟩
    · obtain ⟨g,hg,hkey⟩ := ih h
      exact ⟨g,List.mem_cons_of_mem _ hg,hkey⟩

def missingKeys (required : List String) (fs : Fields) : List String :=
  required.filter fun key => (fs.lookup key).isNone

def unknownKeys (required optional : List String) (fs : Fields) : List String :=
  (fs.map Prod.fst).filter fun key => decide (key ∉ required ∧ key ∉ optional)

variable {required : List String}

theorem missingKeys_eq_nil (h : ∀ key ∈ required, fs.lookup key ≠ none) :
    missingKeys required (canonFields fs) = [] := by
  refine List.filter_eq_nil_iff.mpr fun key hkey => ?_
  rw [lookup_canonFields,Option.isNone_map,Option.isNone_iff_eq_none]
  exact h key hkey

theorem unknownKeys_eq_nil {optional : List String} (h : ∀ e ∈ fs, e.1 ∈ required ∨ e.1 ∈ optional) :
    unknownKeys required optional (canonFields fs) = [] := by
  refine List.filter_eq_nil_iff.mpr fun key hkey => ?_
  obtain ⟨e,he,rfl⟩ := List.mem_map.mp hkey
  obtain ⟨f,hf,hsame⟩ := mem_canonFields he
  rw [decide_eq_true_eq,← hsame]
  exact fun hno => (h f hf).elim hno.1 hno.2

end
end Verdict.JsonCodec

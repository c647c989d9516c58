import Verdict.Basics.JsonCodec

/-! # Equal values

Two JSON values are equal as `dict`s and `list`s when they differ only in the order in which
their objects hold their members. An object is equal to a record with known keys exactly when
it has no other key and holds an equal value under each of them.
-/
namespace Verdict.Json

open List (forall_mem_cons map_append mem_append mem_filterMap mem_map not_mem_nil)
open Prod (ext fst)
open Option (map_eq_some_iff map_none)

mutual

/-- No object holds two members under one key, as no `dict` does. -/
def Distinct : Json → Prop
  | .scalar _ => True
  | .arr xs => DistinctList xs
  | .obj fs => (fs.map fst).Nodup ∧ DistinctFields fs

def DistinctList : List Json → Prop
  | [] => True
  | x :: xs => Distinct x ∧ DistinctList xs

def DistinctFields : List (String × Json) → Prop
  | [] => True
  | (_,v) :: rest => Distinct v ∧ DistinctFields rest

end

variable {xs : List Json}

theorem distinctList_iff : DistinctList xs ↔ ∀ x ∈ xs, Distinct x := by
  induction xs with
  | nil => exact iff_of_true trivial fun _ h => absurd h not_mem_nil
  | cons x xs ih => rw [DistinctList,ih,forall_mem_cons]

variable {fs : Fields}

theorem distinctFields_iff : DistinctFields fs ↔ ∀ e ∈ fs, Distinct e.2 := by
  induction fs with
  | nil => exact iff_of_true trivial fun _ h => absurd h not_mem_nil
  | cons e rest ih =>
    obtain ⟨k,v⟩ := e
    rw [DistinctFields,ih,forall_mem_cons]

variable {key : String} {v : Json}

theorem Distinct.lookup (h : Distinct (.obj fs)) (hv : fs.lookup key = some v) : Distinct v :=
  distinctFields_iff.mp h.2 _ (Dict.lookup_some_mem hv)

theorem Distinct.get {fs : Fields} (h : Distinct (.obj fs)) (key : String) : Distinct (get fs key) := by
  rw [Json.get]
  cases hv : fs.lookup key with
  | none => trivial
  | some v => exact h.lookup hv

theorem Distinct.item (h : Distinct (.arr xs)) {x : Json} (hx : x ∈ xs) : Distinct x := distinctList_iff.mp h x hx

def Same (a b : Json) : Prop := canon a = canon b

theorem Same.refl (a : Json) : Same a a := rfl
theorem Same.symm {a b : Json} (h : Same a b) : Same b a := Eq.symm h
theorem same_canon (a : Json) : Same (canon a) a := canon_canon a

variable {j : Json}

theorem same_scalar {s : Scalar} : Same j (.scalar s) ↔ j = .scalar s := by
  constructor
  · intro h
    cases j with
    | scalar t => exact h
    | arr xs => cases h
    | obj fs => cases h
  · rintro rfl
    rfl

variable {ys : List Json}

theorem canonList_eq : canonList xs = canonList ys ↔ List.Forall₂ Same xs ys := by
  induction xs generalizing ys with
  | nil =>
    cases ys with
    | nil => exact iff_of_true rfl .nil
    | cons y ys => exact iff_of_false (fun h => nomatch h) fun h => nomatch h
  | cons x xs ih =>
    cases ys with
    | nil => exact iff_of_false (fun h => nomatch h) fun h => nomatch h
    | cons y ys => rw [canonList,canonList,List.cons.injEq,ih,List.forall₂_cons,Same]

theorem same_arr : Same j (.arr ys) ↔ ∃ xs, j = .arr xs ∧ List.Forall₂ Same xs ys := by
  constructor
  · intro h
    cases j with
    | scalar t => cases h
    | arr xs => exact ⟨xs,rfl,canonList_eq.mp (Json.arr.inj h)⟩
    | obj fs => cases h
  · rintro ⟨xs,rfl,h⟩
    exact congrArg Json.arr (canonList_eq.mpr h)

theorem same_items {α : Type} {e : α → Json} {P : α → Prop} :
    (∀ x ∈ xs, ∃ a, Same x (e a) ∧ P a) ↔ ∃ as : List α, Same (.arr xs) (.arr (as.map e)) ∧ ∀ a ∈ as, P a := by
  constructor
  · intro h
    induction xs with
    | nil => exact ⟨[],rfl,fun _ ha => absurd ha not_mem_nil⟩
    | cons x xs ih =>
      obtain ⟨hx,hxs⟩ := forall_mem_cons.mp h
      obtain ⟨a,hsame,ha⟩ := hx
      obtain ⟨as,hall,has⟩ := ih hxs
      obtain ⟨_,hys,hall⟩ := same_arr.mp hall
      cases hys
      exact ⟨a :: as,same_arr.mpr ⟨_,rfl,.cons hsame hall⟩,forall_mem_cons.mpr ⟨ha,has⟩⟩
  · rintro ⟨as,hsame,has⟩
    obtain ⟨_,hys,hall⟩ := same_arr.mp hsame
    cases hys
    clear hsame
    induction as generalizing xs with
    | nil =>
      cases hall
      exact fun _ hx => absurd hx not_mem_nil
    | cons a as ih =>
      cases hall with
      | cons hsame hall =>
        obtain ⟨ha,has⟩ := forall_mem_cons.mp has
        exact forall_mem_cons.mpr ⟨⟨a,hsame,ha⟩,ih has hall⟩

/-! ### Objects -/

theorem keys_canonFields (fs : Fields) : ((canonFields fs).map fst).Perm (fs.map fst) := by
  induction fs with
  | nil => exact .refl _
  | cons e rest ih =>
    obtain ⟨k,v⟩ := e
    exact ((insertField_perm k (canon v) (canonFields rest)).map fst).trans (ih.cons k)

variable {gs : Fields}

theorem Same.fields (h : Same j (.obj gs)) : ∃ fs, j = .obj fs ∧ canonFields fs = canonFields gs := by
  cases j with
  | scalar t => cases h
  | arr xs => cases h
  | obj fs => exact ⟨fs,rfl,Json.obj.inj h⟩

theorem nodup_of_same (h : Same (.obj fs) (.obj gs)) (hgs : (gs.map fst).Nodup) : (fs.map fst).Nodup := by
  refine (keys_canonFields fs).nodup_iff.mp ?_
  rw [show canonFields fs = canonFields gs from Json.obj.inj h]
  exact (keys_canonFields gs).nodup_iff.mpr hgs

theorem mem_canonFields_iff (hfs : (fs.map fst).Nodup) {e : String × Json} :
    e ∈ canonFields fs ↔ (fs.lookup e.1).map canon = some e.2 := by
  rw [← lookup_canonFields]
  exact ⟨Dict.lookup_of_mem ((keys_canonFields fs).nodup_iff.mpr hfs),Dict.lookup_some_mem⟩

theorem canonFields_of_lookup (hfs : (fs.map fst).Nodup) (hgs : (gs.map fst).Nodup)
    (h : ∀ key, (fs.lookup key).map canon = (gs.lookup key).map canon) : canonFields fs = canonFields gs := by
  have hnodup : ∀ {hs : Fields}, (hs.map fst).Nodup → ((canonFields hs).map fst).Nodup := fun hhs =>
    (keys_canonFields _).nodup_iff.mpr hhs
  have hperm : (canonFields fs).Perm (canonFields gs) := by
    refine (List.perm_ext_iff_of_nodup (hnodup hfs).of_map (hnodup hgs).of_map).mpr fun e => ?_
    rw [mem_canonFields_iff hfs,mem_canonFields_iff hgs,h]
  refine hperm.eq_of_pairwise (fun a b ha hb hab hba => ?_) (pairwise_canonFields fs) (pairwise_canonFields gs)
  have hkey : a.1 = b.1 := le_antisymm hab hba
  have hvalue : a.2 = b.2 := by
    rw [mem_canonFields_iff hfs] at ha
    rw [mem_canonFields_iff hgs,← hkey,← h] at hb
    exact Option.some.inj (ha.symm.trans hb)
  exact ext hkey hvalue

theorem same_obj (hfs : (fs.map fst).Nodup) (hgs : (gs.map fst).Nodup) :
    Same (.obj fs) (.obj gs) ↔ (∀ key ∈ fs.map fst, key ∈ gs.map fst) ∧ ∀ e ∈ gs, ∃ v, fs.lookup e.1 = some v ∧ Same v e.2 := by
  constructor
  · intro h
    have hlookup : ∀ key, (fs.lookup key).map canon = (gs.lookup key).map canon := by
      intro key
      rw [← lookup_canonFields,← lookup_canonFields,show canonFields fs = canonFields gs from Json.obj.inj h]
    refine ⟨fun key hkey => ?_,fun e he => ?_⟩
    · by_contra hnot
      obtain ⟨e,he,rfl⟩ := mem_map.mp hkey
      have hsome := hlookup e.1
      rw [Dict.lookup_of_mem hfs he,Dict.lookup_eq_none_of_not_mem hnot] at hsome
      cases hsome
    · have hsome := hlookup e.1
      rw [Dict.lookup_of_mem hgs he] at hsome
      exact map_eq_some_iff.mp hsome
  · rintro ⟨hkeys,hvalues⟩
    refine congrArg Json.obj (canonFields_of_lookup hfs hgs fun key => ?_)
    by_cases hkey : key ∈ gs.map fst
    · obtain ⟨e,he,rfl⟩ := mem_map.mp hkey
      obtain ⟨v,hv,hsame⟩ := hvalues e he
      rw [hv,Dict.lookup_of_mem hgs he]
      exact congrArg some hsame
    · rw [Dict.lookup_eq_none_of_not_mem hkey,Dict.lookup_eq_none_of_not_mem fun hmem => hkey (hkeys key hmem)]

def members (always : Fields) (sometimes : List (String × Option Json)) : Fields := always ++ JsonCodec.record sometimes

theorem lookup_append {xs ys : Fields} : (xs ++ ys).lookup key = (xs.lookup key).or (ys.lookup key) :=
  List.lookup_append

variable {always : Fields} {sometimes : List (String × Option Json)}

theorem nodup_members (h : (always.map fst ++ sometimes.map fst).Nodup) : ((members always sometimes).map fst).Nodup := by
  rw [members,map_append]
  refine h.sublist (List.Sublist.append_left ?_ _)
  rw [JsonCodec.record]
  induction sometimes with
  | nil => exact .refl _
  | cons e rest ih =>
    obtain ⟨k,o⟩ := e
    have hrest := ih (h.sublist (List.Sublist.append_left (List.sublist_cons_self _ _) _))
    cases o with
    | none => exact hrest.cons _
    | some j => exact hrest.cons_cons _

theorem mem_members (h : key ∈ (members always sometimes).map fst) : key ∈ always.map fst ∨ key ∈ sometimes.map fst := by
  rw [members,map_append] at h
  refine (mem_append.mp h).imp id fun hmem => ?_
  obtain ⟨e,he,rfl⟩ := mem_map.mp hmem
  exact JsonCodec.mem_record he

/-- The keys of an object are known, and those that are always there are there. -/
def Keys (always sometimes : List String) (fs : Fields) : Prop :=
  (∀ key ∈ always, fs.lookup key ≠ none) ∧ ∀ key ∈ fs.map fst, key ∈ always ∨ key ∈ sometimes

theorem get_of_lookup (h : fs.lookup key = some v) : get fs key = v := by
  rw [get,h]
  rfl

theorem lookup_of_get (h : fs.lookup key ≠ none) : fs.lookup key = some (get fs key) := by
  obtain ⟨v,hv⟩ := Option.ne_none_iff_exists'.mp h
  rw [get_of_lookup hv,hv]

theorem same_members (hfs : (fs.map fst).Nodup) (hnodup : (always.map fst ++ sometimes.map fst).Nodup) :
    Same (.obj fs) (.obj (members always sometimes)) ↔ Keys (always.map fst) (sometimes.map fst) fs ∧
    (∀ e ∈ always, Same (get fs e.1) e.2) ∧ ∀ e ∈ sometimes, (fs.lookup e.1).map canon = e.2.map canon := by
  have hmembers := nodup_members hnodup
  have hsometimes := (List.nodup_append.mp hnodup).2.1
  have hrecord : ∀ e ∈ sometimes, (members always sometimes).lookup e.1 = e.2 := by
    intro e he
    have hnot : e.1 ∉ always.map fst := fun hmem =>
      (List.nodup_append.mp hnodup).2.2 _ hmem _ (List.mem_map_of_mem he) rfl
    rw [members,lookup_append,Dict.lookup_eq_none_of_not_mem hnot,Option.none_or,JsonCodec.lookup_record hsometimes he]
  constructor
  · intro h
    have hlookup : ∀ key, (fs.lookup key).map canon = ((members always sometimes).lookup key).map canon := by
      intro key
      rw [← lookup_canonFields,← lookup_canonFields,show canonFields fs = canonFields (members always sometimes) from Json.obj.inj h]
    have halways : ∀ e ∈ always, ∃ v, fs.lookup e.1 = some v ∧ Same v e.2 := fun e he =>
      ((same_obj hfs hmembers).mp h).2 e (List.mem_append_left _ he)
    refine ⟨⟨fun key hkey => ?_,fun key hkey => ?_⟩,fun e he => ?_,fun e he => ?_⟩
    · obtain ⟨e,he,rfl⟩ := mem_map.mp hkey
      obtain ⟨v,hv,-⟩ := halways e he
      rw [hv]
      exact Option.some_ne_none v
    · exact mem_members (((same_obj hfs hmembers).mp h).1 key hkey)
    · obtain ⟨v,hv,hsame⟩ := halways e he
      rw [get_of_lookup hv]
      exact hsame
    · rw [hlookup,hrecord e he]
  · rintro ⟨⟨hthere,hknown⟩,halways,hvalues⟩
    refine (same_obj hfs hmembers).mpr ⟨fun key hkey => ?_,fun e he => ?_⟩
    · rw [members,map_append,mem_append]
      refine (hknown key hkey).imp id fun hmem => ?_
      obtain ⟨e,he,rfl⟩ := mem_map.mp hmem
      have hvalue := hvalues e he
      obtain ⟨f,hf,hkey'⟩ := mem_map.mp hkey
      have hsome : fs.lookup e.1 = some f.2 := by
        rw [← hkey']
        exact Dict.lookup_of_mem hfs hf
      rw [hsome] at hvalue
      obtain ⟨j,hj,-⟩ := map_eq_some_iff.mp hvalue.symm
      exact mem_map.mpr ⟨(e.1,j),mem_filterMap.mpr ⟨e,he,by rw [hj]; rfl⟩,rfl⟩
    · rcases mem_append.mp he with he | he
      · exact ⟨_,lookup_of_get (hthere e.1 (List.mem_map_of_mem he)),halways e he⟩
      · obtain ⟨f,hf,hsome⟩ := mem_filterMap.mp he
        obtain ⟨j,hj,rfl⟩ := map_eq_some_iff.mp hsome
        have hvalue := hvalues f hf
        rw [hj] at hvalue
        exact map_eq_some_iff.mp hvalue

theorem object_same {α : Type} {A : α → Fields} {S : α → List (String × Option Json)} {r s : List String}
    (halways : ∀ a, (A a).map fst = r) (hsometimes : ∀ a, (S a).map fst = s)
    (hnodup : (r ++ s).Nodup) {P : α → Prop} {Q : Fields → Prop} (hj : Distinct j)
    (hQ : ∀ fs, Distinct (.obj fs) → (Q fs ↔ ∃ a, ((∀ e ∈ A a, Same (get fs e.1) e.2) ∧
      ∀ e ∈ S a, (fs.lookup e.1).map canon = e.2.map canon) ∧ P a)) :
    (∃ fs, j = .obj fs ∧ Keys r s fs ∧ Q fs) ↔ ∃ a, Same j (.obj (members (A a) (S a))) ∧ P a := by
  have hall : ∀ a, ((A a).map fst ++ (S a).map fst).Nodup := fun a => by rw [halways,hsometimes]; exact hnodup
  constructor
  · rintro ⟨fs,rfl,hkeys,hq⟩
    obtain ⟨a,hvalues,ha⟩ := (hQ fs hj).mp hq
    refine ⟨a,(same_members hj.1 (hall a)).mpr ⟨?_,hvalues⟩,ha⟩
    rw [halways,hsometimes]
    exact hkeys
  · rintro ⟨a,hsame,ha⟩
    obtain ⟨fs,rfl,-⟩ := hsame.fields
    obtain ⟨hkeys,hvalues⟩ := (same_members hj.1 (hall a)).mp hsame
    rw [halways,hsometimes] at hkeys
    exact ⟨fs,rfl,hkeys,(hQ fs hj).mpr ⟨a,hvalues,ha⟩⟩

theorem lookup_optional {s : Option String} :
    (fs.lookup key).map canon = (s.map Json.str).map canon ↔ fs.lookup key = s.map .str := by
  cases s with
  | none => rw [map_none,map_none,Option.map_eq_none_iff]
  | some s =>
    cases fs.lookup key with
    | none => exact iff_of_false (fun h => nomatch h) fun h => nomatch h
    | some v => exact ⟨fun h => congrArg some (same_scalar.mp (Option.some.inj h)),fun h => by rw [h]⟩

/-! ### Sorting keeps keys apart -/

theorem distinctFields_insertField {k : String} (hv : Distinct v) (h : DistinctFields fs) :
    DistinctFields (insertField k v fs) := by
  refine distinctFields_iff.mpr fun e he => ?_
  rcases mem_insertField.mp he with rfl | he
  · exact hv
  · exact distinctFields_iff.mp h e he

mutual

theorem Distinct.canon : (j : Json) → Distinct j → Distinct (canon j)
  | .scalar _,_ => trivial
  | .arr xs,h => DistinctList.canonList xs h
  | .obj fs,h => ⟨(keys_canonFields fs).nodup_iff.mpr h.1,DistinctFields.canonFields fs h.2⟩

theorem DistinctList.canonList : (xs : List Json) → DistinctList xs → DistinctList (canonList xs)
  | [],_ => trivial
  | x :: xs,h => ⟨Distinct.canon x h.1,DistinctList.canonList xs h.2⟩

theorem DistinctFields.canonFields : (fs : Fields) → DistinctFields fs → DistinctFields (canonFields fs)
  | [],_ => trivial
  | (_,v) :: fs,h => distinctFields_insertField (Distinct.canon v h.1) (DistinctFields.canonFields fs h.2)

end

theorem distinct_members (hnodup : (always.map fst ++ sometimes.map fst).Nodup) (halways : ∀ e ∈ always, Distinct e.2)
    (hsometimes : ∀ e ∈ sometimes, ∀ j ∈ e.2, Distinct j) : Distinct (.obj (members always sometimes)) := by
  refine ⟨nodup_members hnodup,distinctFields_iff.mpr fun e he => ?_⟩
  rcases mem_append.mp he with he | he
  · exact halways e he
  · obtain ⟨f,hf,hsome⟩ := mem_filterMap.mp he
    obtain ⟨j,hj,rfl⟩ := map_eq_some_iff.mp hsome
    exact hsometimes f hf j hj

theorem distinct_map {α : Type} {enc : α → Json} {xs : List α} (h : ∀ a ∈ xs, Distinct (enc a)) : Distinct (.arr (xs.map enc)) := by
  refine distinctList_iff.mpr fun x hx => ?_
  obtain ⟨a,ha,rfl⟩ := mem_map.mp hx
  exact h a ha

/-! ### Reading -/

theorem lookup_same (h : canonFields fs = canonFields gs) (key : String) :
    (fs.lookup key).map canon = (gs.lookup key).map canon := by
  rw [← lookup_canonFields,← lookup_canonFields,h]

theorem get_same (h : canonFields fs = canonFields gs) (hv : gs.lookup key = some v) :
    Same (get fs key) v := by
  have hlookup := lookup_same h key
  rw [hv] at hlookup
  obtain ⟨w,hw,hsame⟩ := map_eq_some_iff.mp hlookup
  rw [get_of_lookup hw]
  exact hsame

theorem mem_keys_same (h : canonFields fs = canonFields gs) (hkey : key ∈ fs.map fst) :
    key ∈ gs.map fst := by
  have hperm : (fs.map fst).Perm (gs.map fst) := by
    refine (keys_canonFields fs).symm.trans ?_
    rw [h]
    exact keys_canonFields gs
  exact hperm.mem_iff.mp hkey

theorem mapM_same {α : Type} {enc : α → Json} {read : Json → Option α} (h : ∀ x a, Same x (enc a) → read x = some a)
    {as : List α} (hall : List.Forall₂ Same xs (as.map enc)) : xs.mapM read = some as := by
  induction as generalizing xs with
  | nil =>
    cases hall
    rfl
  | cons a as ih =>
    cases hall with
    | cons hx hxs => rw [List.mapM_cons,h _ _ hx,ih hxs]; rfl

end Verdict.Json

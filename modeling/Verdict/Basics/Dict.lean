import Mathlib.Data.List.Nodup

/-! # Insertion-ordered dictionaries

A finite map that keeps the order in which its keys were first written, as the
dictionaries of the modelled programs do. Keys are unique by construction, so a
loop over the entries of one dictionary that writes into another one is pinned
down pointwise by `get?_mergeWith`.
-/
namespace Verdict

open List (map_cons mem_cons mem_filter mem_map nodup_cons)
open Prod (fst snd)

structure Dict (κ α : Type) where
  entries : List (κ × α)
  nodup : (entries.map fst).Nodup

namespace Dict
variable {κ α β : Type} [DecidableEq κ]

def empty : Dict κ α := ⟨[],List.nodup_nil⟩

variable (d : Dict κ α)

def get? (k : κ) : Option α := d.entries.lookup k

def contains (k : κ) : Bool := (d.get? k).isSome

omit [DecidableEq κ] in
def values : List α := d.entries.map snd

@[simp] theorem get?_empty (k : κ) : (empty : Dict κ α).get? k = none := rfl

def put (k : κ) (a : α) : List (κ × α) → List (κ × α)
  | [] => [(k,a)]
  | e :: rest => if e.1 = k then (k,a) :: rest else e :: put k a rest

variable {k j : κ} {a : α} {xs : List (κ × α)}

theorem mem_keys_put : j ∈ (put k a xs).map fst ↔ j = k ∨ j ∈ xs.map fst := by
  induction xs with
  | nil => simp [put]
  | cons e rest ih =>
    by_cases h : e.1 = k
    · simp [put,h]
    · simp only [put,if_neg h,map_cons,mem_cons,ih]
      tauto

theorem mem_put {e : κ × α} (h : e ∈ put k a xs) : e = (k,a) ∨ e ∈ xs := by
  induction xs with
  | nil => exact .inl (List.mem_singleton.mp h)
  | cons f rest ih =>
    rw [put] at h
    split at h
    · exact (mem_cons.mp h).imp id (List.mem_cons_of_mem f)
    · rcases mem_cons.mp h with rfl | h
      · exact .inr List.mem_cons_self
      · exact (ih h).imp id (List.mem_cons_of_mem f)

theorem nodup_put (h : (xs.map fst).Nodup) : ((put k a xs).map fst).Nodup := by
  induction xs with
  | nil => simp [put]
  | cons e rest ih =>
    obtain ⟨he,hr⟩ := nodup_cons.mp h
    by_cases hk : e.1 = k
    · simp only [put,if_pos hk,map_cons,nodup_cons]
      exact ⟨hk ▸ he,hr⟩
    · simp only [put,if_neg hk,map_cons,nodup_cons]
      refine ⟨?_,ih hr⟩
      intro hm
      rcases mem_keys_put.mp hm with hm | hm
      · exact hk hm
      · exact he hm

theorem lookup_cons_ite (k j : κ) (b : α) (rest : List (κ × α)) :
    ((j,b) :: rest).lookup k = if k = j then some b else rest.lookup k := by
  by_cases h : k = j
  · simp [h]
  · have hb : (k == j) = false := by simpa using h
    simp only [List.lookup_cons,hb,if_neg h]

theorem lookup_put (k j : κ) (a : α) (xs : List (κ × α)) :
    (put k a xs).lookup j = if j = k then some a else xs.lookup j := by
  induction xs with
  | nil => simp [put,lookup_cons_ite]
  | cons e rest ih =>
    obtain ⟨i,b⟩ := e
    by_cases hk : i = k
    · subst hk
      simp only [put,if_true,lookup_cons_ite]
      split <;> rfl
    · simp only [put,if_neg hk,lookup_cons_ite,ih]
      by_cases hj : j = i
      · subst hj
        simp [hk]
      · simp [hj]

def set (k : κ) (a : α) : Dict κ α := ⟨put k a d.entries,nodup_put d.nodup⟩

theorem get?_set (k j : κ) (a : α) :
    (d.set k a).get? j = if j = k then some a else d.get? j := lookup_put k j a d.entries

@[simp] theorem get?_set_self (k : κ) (a : α) : (d.set k a).get? k = some a := by
  rw [get?_set,if_pos rfl]

theorem get?_set_ne (a : α) (h : j ≠ k) : (d.set k a).get? j = d.get? j := by
  rw [get?_set,if_neg h]

theorem set_again (k : κ) (a : α) : (d.set k a).set k a = d.set k a := by
  have hput : ∀ xs : List (κ × α), put k a (put k a xs) = put k a xs := by
    intro xs
    induction xs with
    | nil => simp [put]
    | cons e rest ih =>
      by_cases h : e.1 = k
      · simp [put,h]
      · simp only [put,if_neg h,ih]
  simp only [set,hput]

def pop (k : κ) : Dict κ α :=
  ⟨d.entries.filter fun e => decide (e.1 ≠ k),d.nodup.sublist (List.filter_sublist.map _)⟩

theorem lookup_eq_none_of_not_mem (h : k ∉ xs.map fst) : xs.lookup k = none := by
  induction xs with
  | nil => rfl
  | cons e rest ih =>
    obtain ⟨j,b⟩ := e
    simp only [map_cons,mem_cons,not_or] at h
    rw [lookup_cons_ite,if_neg h.1]
    exact ih h.2

variable (rule : κ → β → Option α → Option α)

/-- `for key, mine in xs: if the rule gives a value for what `acc` holds, write it`. -/
def mergeLoop (acc : Dict κ α) (xs : List (κ × β)) : Dict κ α :=
  xs.foldl (fun acc e => match rule e.1 e.2 (acc.get? e.1) with
    | some a => acc.set e.1 a
    | none => acc) acc

variable (mine : Dict κ β)

/-- Fold the entries of `mine` over `disk`; a rule that answers `none` keeps what is there. -/
def mergeWith (disk : Dict κ α) : Dict κ α :=
  mergeLoop rule disk mine.entries

theorem get?_mergeLoop (xs : List (κ × β)) (h : (xs.map fst).Nodup) (acc : Dict κ α) (k : κ) :
    (mergeLoop rule acc xs).get? k = match xs.lookup k with
      | some b => (rule k b (acc.get? k)).orElse fun _ => acc.get? k
      | none => acc.get? k := by
  induction xs generalizing acc with
  | nil => rfl
  | cons e rest ih =>
    obtain ⟨j,b⟩ := e
    obtain ⟨hj,hr⟩ := nodup_cons.mp h
    have hstep : mergeLoop rule acc ((j,b) :: rest) = mergeLoop rule
        (match rule j b (acc.get? j) with | some a => acc.set j a | none => acc) rest := rfl
    rw [hstep,ih hr]
    by_cases hk : k = j
    · subst hk
      simp only [lookup_cons_ite,if_true,lookup_eq_none_of_not_mem hj]
      cases rule k b (acc.get? k) with
      | none => rfl
      | some a => exact get?_set_self acc k a
    · have hkeep : (match rule j b (acc.get? j) with
          | some a => acc.set j a | none => acc).get? k = acc.get? k := by
        cases rule j b (acc.get? j) with
        | none => rfl
        | some a => exact get?_set_ne acc a hk
      simp only [lookup_cons_ite,if_neg hk,hkeep]

theorem get?_mergeWith (disk : Dict κ α) (k : κ) :
    (mergeWith rule mine disk).get? k = match mine.get? k with
      | some b => (rule k b (disk.get? k)).orElse fun _ => disk.get? k
      | none => disk.get? k := get?_mergeLoop rule mine.entries mine.nodup disk k

def sameBy (eq : α → α → Bool) (d e : Dict κ α) : Bool :=
  d.entries.length == e.entries.length && d.entries.all fun x => (e.get? x.1).any (eq x.2)

def same [DecidableEq α] (d e : Dict κ α) : Bool := d.sameBy (fun a b => decide (a = b)) e

/-- The entries that differ from what `loaded` holds under the same key. -/
def changedFrom [DecidableEq α] (d loaded : Dict κ α) : Dict κ α :=
  ⟨d.entries.filter fun e => decide (loaded.get? e.1 ≠ some e.2),
    d.nodup.sublist (List.filter_sublist.map _)⟩

variable (f : κ → α → α)

omit [DecidableEq κ] in
def mapValues (d : Dict κ α) : Dict κ α :=
  ⟨d.entries.map fun e => (e.1,f e.1 e.2),by simpa [Function.comp_def] using d.nodup⟩

theorem lookup_map (k : κ) (xs : List (κ × α)) :
    (xs.map fun e => (e.1,f e.1 e.2)).lookup k = (xs.lookup k).map (f k) := by
  induction xs with
  | nil => rfl
  | cons e rest ih =>
    obtain ⟨j,b⟩ := e
    simp only [map_cons,lookup_cons_ite,ih]
    by_cases h : k = j
    · subst h
      simp
    · simp [h]

theorem get?_mapValues (d : Dict κ α) (k : κ) :
    (d.mapValues f).get? k = (d.get? k).map (f k) := lookup_map f k d.entries

theorem lookup_some_mem (h : xs.lookup k = some a) : (k,a) ∈ xs := by
  induction xs with
  | nil => simp at h
  | cons e rest ih =>
    obtain ⟨j,b⟩ := e
    by_cases hk : k = j
    · subst hk
      simp only [lookup_cons_ite,if_true,Option.some.injEq] at h
      exact h ▸ List.mem_cons_self
    · simp only [lookup_cons_ite,if_neg hk] at h
      exact List.mem_cons_of_mem _ (ih h)

theorem lookup_of_mem (hn : (xs.map fst).Nodup) (h : (k,a) ∈ xs) : xs.lookup k = some a := by
  induction xs with
  | nil => simp at h
  | cons e rest ih =>
    obtain ⟨j,b⟩ := e
    obtain ⟨hj,hr⟩ := nodup_cons.mp hn
    rcases mem_cons.mp h with h | h
    · cases h
      simp
    · have hne : k ≠ j := fun hkj => hj (mem_map.mpr ⟨(k,a),h,hkj⟩)
      rw [lookup_cons_ite,if_neg hne]
      exact ih hr h

theorem mem_entries_iff (k : κ) (a : α) : (k,a) ∈ d.entries ↔ d.get? k = some a :=
  ⟨lookup_of_mem d.nodup,lookup_some_mem⟩

theorem get?_changedFrom [DecidableEq α] (d loaded : Dict κ α)
    (h : (d.changedFrom loaded).get? k = some a) : d.get? k = some a ∧ loaded.get? k ≠ some a := by
  have hm := (mem_entries_iff _ k a).mpr h
  obtain ⟨hm,hne⟩ := mem_filter.mp hm
  exact ⟨(mem_entries_iff d k a).mp hm,by simpa using hne⟩

theorem get?_changedFrom_eq [DecidableEq α] (d loaded : Dict κ α) (k : κ) :
    (d.changedFrom loaded).get? k = (d.get? k).filter fun a => decide (loaded.get? k ≠ some a) := by
  ext a
  rw [← mem_entries_iff,Option.filter_eq_some_iff,← mem_entries_iff]
  exact mem_filter

theorem contains_iff (k : κ) : d.contains k = true ↔ ∃ a, d.get? k = some a :=
  Option.isSome_iff_exists

omit [DecidableEq κ] in
def keys : List κ := d.entries.map fst

theorem mem_keys_iff (k : κ) : k ∈ d.keys ↔ ∃ a, d.get? k = some a := by
  constructor
  · intro h
    obtain ⟨e,he,rfl⟩ := mem_map.mp h
    exact ⟨e.2,(mem_entries_iff d e.1 e.2).mp he⟩
  · rintro ⟨a,ha⟩
    exact mem_map.mpr ⟨(k,a),(mem_entries_iff d k a).mpr ha,rfl⟩

omit [DecidableEq κ] in
def filter (p : κ → α → Bool) (d : Dict κ α) : Dict κ α :=
  ⟨d.entries.filter fun e => p e.1 e.2,d.nodup.sublist (List.filter_sublist.map _)⟩

theorem get?_filter (p : κ → α → Bool) (d : Dict κ α) (k : κ) (a : α) :
    (d.filter p).get? k = some a ↔ d.get? k = some a ∧ p k a = true := by
  rw [← mem_entries_iff,← mem_entries_iff]
  exact mem_filter

theorem get?_pop (j k : κ) (a : α) : (d.pop j).get? k = some a ↔ d.get? k = some a ∧ k ≠ j := by
  rw [← mem_entries_iff,← mem_entries_iff]
  simp [pop]

/-- `dict(pairs)`: a later pair overwrites an earlier one with the same key. -/
def ofList (xs : List (κ × α)) : Dict κ α := xs.foldl (fun d e => d.set e.1 e.2) empty

theorem put_eq_append (h : k ∉ xs.map fst) : put k a xs = xs ++ [(k,a)] := by
  induction xs with
  | nil => rfl
  | cons e rest ih =>
    simp only [map_cons,mem_cons,not_or] at h
    rw [put,if_neg (Ne.symm h.1),ih h.2]
    rfl

theorem entries_foldl_set (xs : List (κ × α)) (d : Dict κ α) (h : ((d.entries ++ xs).map fst).Nodup) :
    (xs.foldl (fun d e => d.set e.1 e.2) d).entries = d.entries ++ xs := by
  induction xs generalizing d with
  | nil => simp
  | cons e rest ih =>
    have hfresh : e.1 ∉ d.entries.map fst := by
      intro hm
      rw [List.map_append,List.nodup_append] at h
      exact h.2.2 e.1 hm e.1 (by simp) rfl
    have hset : (d.set e.1 e.2).entries = d.entries ++ [e] := put_eq_append hfresh
    have hn : (((d.set e.1 e.2).entries ++ rest).map fst).Nodup := by
      rw [hset]
      simpa using h
    rw [List.foldl_cons,ih (d.set e.1 e.2) hn,hset]
    simp

theorem ofList_entries : ofList d.entries = d := by
  have h := entries_foldl_set d.entries empty d.nodup
  obtain ⟨xs,hn⟩ := d
  have he : (ofList xs).entries = xs := h
  revert he
  generalize ofList xs = e
  intro he
  obtain ⟨ys,hy⟩ := e
  cases he
  rfl

variable (ks : List κ)

theorem get?_ofList_const (a : α) (k : κ) :
    (ofList (ks.map fun j => (j,a))).get? k = if k ∈ ks then some a else none := by
  have hfold : ∀ d : Dict κ α, ((ks.map fun j => (j,a)).foldl (fun d e => d.set e.1 e.2) d).get? k =
      if k ∈ ks then some a else d.get? k := by
    induction ks with
    | nil => intro d; simp
    | cons j rest ih =>
      intro d
      rw [map_cons,List.foldl_cons,ih,get?_set]
      by_cases hr : k ∈ rest
      · simp [hr]
      · by_cases hj : k = j
        · simp [hj]
        · simp [hr,hj]
  exact hfold empty

def setAll (a : α) : Dict κ α := ks.foldl (fun d k => d.set k a) d

theorem get?_setAll (a : α) (k : κ) :
    (d.setAll ks a).get? k = if k ∈ ks then some a else d.get? k := by
  induction ks generalizing d with
  | nil => simp [setAll]
  | cons j rest ih =>
    have hstep : d.setAll (j :: rest) a = (d.set j a).setAll rest a := rfl
    rw [hstep,ih,get?_set]
    by_cases hr : k ∈ rest
    · simp [hr]
    · by_cases hj : k = j
      · simp [hj]
      · simp [hr,hj]

variable (base top : Dict κ α)

/-- `base | top`: the values of `top` win, the order of `base` comes first. -/
def union : Dict κ α := mergeWith (fun _ a _ => some a) top base

theorem get?_union (k : κ) :
    (base.union top).get? k = (top.get? k).orElse fun _ => base.get? k := by
  rw [union,get?_mergeWith]
  cases top.get? k <;> rfl

end Dict
end Verdict

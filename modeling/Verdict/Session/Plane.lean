import Mathlib.Data.List.Pairwise
import Verdict.Basics.PyJson

/-! # The memory plane

`MemoryPlane` appends records and supersedes the active one under the same key, so that at
most one record of a key is active; the plane carries this with it. A record that was put in
is the one that is read under its key. It is what a session sees of `Verdict.Plane`: contents are JSON
values in the form that is printed, and there is no index and no provenance.
-/
namespace Verdict.Session

inductive RecordStatus
  | active | superseded | tombstone
  deriving DecidableEq

structure MemoryRecord where
  (recordId space key : String)
  content : Json
  scope : String := "default"
  createdAt : ℚ := 0
  updatedAt : ℚ := 0
  expiresAt : Option ℚ := none
  supersedes : Option String := none
  status : RecordStatus := .active

/-- Why `put` raises: a required text is empty, the id is taken, or the database fails. -/
inductive PlaneError
  | required
  | conflict
  | storage

variable (a b : MemoryRecord)

def SameKey : Prop := a.space = b.space ∧ a.scope = b.scope ∧ a.key = b.key

instance (a b : MemoryRecord) : Decidable (SameKey a b) := inferInstanceAs (Decidable (_ ∧ _ ∧ _))

def Rivals : Prop := SameKey a b ∧ a.status = .active ∧ b.status = .active

def later : MemoryRecord :=
  if a.createdAt < b.createdAt ∨ (a.createdAt = b.createdAt ∧ a.recordId ≤ b.recordId) then b else a

def activeRows (rows : List MemoryRecord) (r : MemoryRecord) : List MemoryRecord :=
  rows.filter fun x => decide (SameKey x r ∧ x.status = .active)

/-- `_active_row`, for the key of `r`. -/
def activeRow (rows : List MemoryRecord) (r : MemoryRecord) : Option MemoryRecord := match activeRows rows r with
  | [] => none
  | x :: xs => some (xs.foldl later x)

structure MemoryPlane where
  rows : List MemoryRecord := []
  ids : (rows.map MemoryRecord.recordId).Nodup := by decide
  single : rows.Pairwise fun a b => ¬Rivals a b := by exact .nil

/-! ### Superseding -/

def supersede (p : MemoryRecord) (updatedAt : ℚ) (x : MemoryRecord) : MemoryRecord :=
  if x.recordId = p.recordId then {x with status := .superseded, updatedAt := updatedAt} else x

/-- The rows with the active one of the key of `r` superseded. -/
def cleared (rows : List MemoryRecord) (r : MemoryRecord) : List MemoryRecord := match activeRow rows r with
  | none => rows
  | some p => rows.map (supersede p r.updatedAt)

theorem foldl_later_mem (xs : List MemoryRecord) (x : MemoryRecord) : xs.foldl later x ∈ x :: xs := by
  induction xs generalizing x with
  | nil => exact List.mem_cons_self
  | cons y ys ih =>
    have hstep : later x y = x ∨ later x y = y := by
      rw [later]
      split
      · exact .inr rfl
      · exact .inl rfl
    rw [List.foldl_cons]
    rcases List.mem_cons.mp (ih (later x y)) with h | h
    · rw [h]
      rcases hstep with h | h
      · rw [h]
        exact List.mem_cons_self
      · rw [h]
        exact List.mem_cons_of_mem _ List.mem_cons_self
    · exact List.mem_cons_of_mem _ (List.mem_cons_of_mem _ h)

variable {rows : List MemoryRecord} {r p : MemoryRecord}

theorem activeRow_mem (h : activeRow rows r = some p) : p ∈ rows ∧ SameKey p r ∧ p.status = .active := by
  have hmem : p ∈ activeRows rows r := by
    rw [activeRow] at h
    split at h
    · cases h
    · rename_i x xs hrows
      cases h
      rw [hrows]
      exact foldl_later_mem xs x
  obtain ⟨hp,hactive⟩ := List.mem_filter.mp hmem
  exact ⟨hp,of_decide_eq_true hactive⟩

theorem activeRow_none (h : activeRow rows r = none) : activeRows rows r = [] := by
  rw [activeRow] at h
  split at h
  · assumption
  · cases h

theorem supersede_id (p : MemoryRecord) (t : ℚ) (x : MemoryRecord) : (supersede p t x).recordId = x.recordId := by
  rw [supersede]
  split <;> rfl

theorem supersede_active {t : ℚ} {x : MemoryRecord} (h : (supersede p t x).status = .active) :
    supersede p t x = x ∧ x.recordId ≠ p.recordId := by
  rw [supersede] at h ⊢
  split at h
  · cases h
  · rename_i hne
    rw [if_neg hne]
    exact ⟨rfl,hne⟩

theorem not_rivals_mem (h : rows.Pairwise fun a b => ¬Rivals a b) {a b : MemoryRecord}
    (ha : a ∈ rows) (hb : b ∈ rows) (hne : a ≠ b) : ¬Rivals a b := by
  have hflip : rows.Pairwise (flip fun a b => a ≠ b → ¬Rivals a b) := by
    refine h.imp fun {x y} hxy _ => ?_
    rintro ⟨⟨hspace,hscope,hkey⟩,hy,hx⟩
    exact hxy ⟨⟨hspace.symm,hscope.symm,hkey.symm⟩,hx,hy⟩
  have hpairs : rows.Pairwise fun a b => a ≠ b → ¬Rivals a b := by
    refine h.imp fun {x y} hxy _ => ?_
    exact hxy
  exact List.Pairwise.forall_of_forall_of_flip (fun x _ hxx => absurd rfl hxx) hpairs hflip ha hb hne

variable (plane : MemoryPlane)

/-- No row under the key of `r` is active once the active one has been superseded. -/
theorem cleared_none (r : MemoryRecord) : ∀ x ∈ cleared plane.rows r, SameKey x r → x.status ≠ .active := by
  intro x hx hkey hactive
  rw [cleared] at hx
  split at hx
  · rename_i hnone
    have hmem : x ∈ activeRows plane.rows r := List.mem_filter.mpr ⟨hx,decide_eq_true ⟨hkey,hactive⟩⟩
    rw [activeRow_none hnone] at hmem
    exact absurd hmem List.not_mem_nil
  · rename_i p hsome
    obtain ⟨hp,hpkey,hpactive⟩ := activeRow_mem hsome
    obtain ⟨y,hy,rfl⟩ := List.mem_map.mp hx
    obtain ⟨hsame,hne⟩ := supersede_active hactive
    rw [hsame] at hkey hactive
    have hrivals : Rivals y p := by
      obtain ⟨hspace,hscope,hk⟩ := hkey
      obtain ⟨hspace',hscope',hk'⟩ := hpkey
      exact ⟨⟨hspace.trans hspace'.symm,hscope.trans hscope'.symm,hk.trans hk'.symm⟩,hactive,hpactive⟩
    exact not_rivals_mem plane.single hy hp (fun h => hne (congrArg MemoryRecord.recordId h)) hrivals

theorem cleared_ids (rows : List MemoryRecord) (r : MemoryRecord) :
    (cleared rows r).map MemoryRecord.recordId = rows.map MemoryRecord.recordId := by
  rw [cleared]
  split
  · rfl
  · rw [List.map_map]
    exact List.map_congr_left fun x _ => supersede_id _ _ x

theorem cleared_single (r : MemoryRecord) : (cleared plane.rows r).Pairwise fun a b => ¬Rivals a b := by
  rw [cleared]
  split
  · exact plane.single
  · refine List.pairwise_map.mpr (plane.single.imp fun {a b} hab => ?_)
    rintro ⟨hkey,ha,hb⟩
    obtain ⟨ha',-⟩ := supersede_active ha
    obtain ⟨hb',-⟩ := supersede_active hb
    rw [ha'] at hkey ha
    rw [hb'] at hkey hb
    exact hab ⟨hkey,ha,hb⟩

/-! ### Putting and getting -/

variable (now : ℚ)

def stored (r : MemoryRecord) : MemoryRecord :=
  {r with
    createdAt := if r.createdAt = 0 then now else r.createdAt
    updatedAt := if r.updatedAt = 0 then now else r.updatedAt
    supersedes := match r.supersedes with
      | some old => some old
      | none => (activeRow plane.rows r).map MemoryRecord.recordId }

/-- `_put` of a record whose id is not taken. -/
def MemoryPlane.insert (r : MemoryRecord)
    (hnew : r.recordId ∉ plane.rows.map MemoryRecord.recordId) : MemoryPlane where
  rows := cleared plane.rows {r with updatedAt := if r.updatedAt = 0 then now else r.updatedAt} ++ [stored plane now r]
  ids := by
    rw [List.map_append,cleared_ids]
    refine List.nodup_append.mpr ⟨plane.ids,List.nodup_singleton _,fun a ha b hb => ?_⟩
    rw [List.mem_singleton.mp hb]
    exact fun h => hnew (h ▸ ha)
  single := by
    refine List.pairwise_append.mpr ⟨cleared_single plane _,List.pairwise_singleton _ _,fun a ha b hb => ?_⟩
    rw [List.mem_singleton.mp hb]
    rintro ⟨hkey,hactive,-⟩
    exact cleared_none plane {r with updatedAt := if r.updatedAt = 0 then now else r.updatedAt} a ha hkey hactive

/-- It returns the plane, and whether a record was appended. -/
def MemoryPlane.put (digest : Json → String) (now : ℚ) (plane : MemoryPlane) (r : MemoryRecord) :
    Except PlaneError (MemoryPlane × Bool) :=
  if r.recordId = "" ∨ r.space = "" ∨ r.key = "" then .error .required
  else if h : r.recordId ∈ plane.rows.map MemoryRecord.recordId then
    if (plane.rows.find? fun x => x.recordId = r.recordId).map (fun x => digest x.content) = some (digest r.content) then
      .ok (plane,false)
    else .error .conflict
  else .ok (plane.insert now r h,true)

/-- `get`, with the default scope. -/
def MemoryPlane.get (space key : String) : Option MemoryRecord :=
  (activeRow plane.rows ⟨"",space,key,.null,"default",0,0,none,none,.active⟩).filter fun r =>
    match r.expiresAt with
    | some t => decide (now < t)
    | none => true

theorem get_insert {plane : MemoryPlane} {now now' : ℚ}
    (hnew : r.recordId ∉ plane.rows.map MemoryRecord.recordId) (hactive : r.status = .active)
    (hscope : r.scope = "default") (hexpires : r.expiresAt = none) :
    (plane.insert now r hnew).get now' r.space r.key = some (stored plane now r) := by
  have hrows : activeRows (plane.insert now r hnew).rows ⟨"",r.space,r.key,.null,"default",0,0,none,none,.active⟩ =
      [stored plane now r] := by
    rw [activeRows,MemoryPlane.insert,List.filter_append]
    have hbefore : (cleared plane.rows {r with updatedAt := if r.updatedAt = 0 then now else r.updatedAt}).filter
        (fun x => decide (SameKey x ⟨"",r.space,r.key,.null,"default",0,0,none,none,.active⟩ ∧ x.status = .active)) = [] := by
      refine List.filter_eq_nil_iff.mpr fun x hx hboth => ?_
      obtain ⟨⟨hspace,hsc,hkey⟩,hx'⟩ := of_decide_eq_true hboth
      exact cleared_none plane _ x hx ⟨hspace,hsc.trans hscope.symm,hkey⟩ hx'
    rw [hbefore,List.nil_append,List.filter_singleton]
    have hkept : decide (SameKey (stored plane now r) ⟨"",r.space,r.key,.null,"default",0,0,none,none,.active⟩ ∧
        (stored plane now r).status = .active) = true := decide_eq_true ⟨⟨rfl,hscope,rfl⟩,hactive⟩
    rw [hkept]
    rfl
  rw [MemoryPlane.get,activeRow,hrows]
  have hexp : (stored plane now r).expiresAt = none := hexpires
  simp only [List.foldl_nil,Option.filter_some,hexp,if_true]

end Verdict.Session

import Verdict.Plane.Transfer

/-! # What an import makes of an export

The rows of a scope come sorted by key, time and id, and each is put in turn. Under every key
the last of them decides: it is active in the new plane when it is in the old one, and
otherwise nothing is.
-/
namespace Verdict.Plane
open Json
variable {sha256 : String → String} {p : MemoryPlane}

/-- `import_records(export_records(scope=scope, include_history=True))` into an empty plane. -/
def moved (sha256 : String → String) (p : MemoryPlane) (scope : String) (clock : MemoryRecord → Clock) : MemoryPlane :=
  (importRecords sha256 {} ((p.exportHistory scope).map fun r => (r,⟨clock r,false⟩))).1

def SameReads (p q : MemoryPlane) (scope : String) (now : Clock) : Prop :=
  ∀ space key, (q.get now space key scope).map unverified = (p.get now space key scope).map unverified

/-- Every record that a read can return is the latest of its key, and names what it supersedes
or nothing. -/
def LiveLatest (p : MemoryPlane) (scope : String) (now : Clock) : Prop :=
  ∀ a ∈ p.rows, a.scope = scope → a.status = .active → expired now a = false →
    a.supersedes ≠ some "" ∧
      ∀ b ∈ p.rows, b.place = a.place → toLex (b.createdAt,b.recordId) ≤ toLex (a.createdAt,a.recordId)

/-! ### The order of the export -/

variable {scope : String} {r : MemoryRecord}

theorem mem_exportHistory : r ∈ p.exportHistory scope ↔ r ∈ p.rows ∧ r.scope = scope := by
  rw [MemoryPlane.exportHistory,List.mem_insertionSort,List.mem_filter,decide_eq_true_eq]

theorem exportHistory_nodup (h : (p.rows.map MemoryRecord.recordId).Nodup) (scope : String) :
    ((p.exportHistory scope).map MemoryRecord.recordId).Nodup :=
  ((List.perm_insertionSort _ _).map _).nodup_iff.mpr (h.sublist (List.filter_sublist.map _))

theorem exportHistory_sorted (p : MemoryPlane) (scope : String) :
    (p.exportHistory scope).Pairwise fun a b => exportKey a ≤ exportKey b :=
  List.pairwise_insertionSort _ _

variable {a : MemoryRecord}

theorem exportKey_le {b : MemoryRecord} (h : b.place = a.place) :
    exportKey b ≤ exportKey a ↔ toLex (b.createdAt,b.recordId) ≤ toLex (a.createdAt,a.recordId) := by
  obtain ⟨hspace,-,hkey⟩ : b.space = a.space ∧ b.scope = a.scope ∧ b.key = a.key := by simpa [MemoryRecord.place] using h
  rw [exportKey,exportKey,hspace,hkey,Prod.Lex.toLex_le_toLex,Prod.Lex.toLex_le_toLex]
  constructor
  · rintro (h | ⟨-,h | ⟨-,h⟩⟩)
    · exact absurd h (lt_irrefl _)
    · exact absurd h (lt_irrefl _)
    · exact h
  · intro h
    exact .inr ⟨rfl,.inr ⟨rfl,h⟩⟩

variable {rows : List MemoryRecord} {place : String × String × String}

theorem lastAt_latest (hsorted : rows.Pairwise fun a b => exportKey a ≤ exportKey b)
    (h : lastAt rows place = some r) :
    r ∈ rows ∧ r.place = place ∧ ∀ b ∈ rows, b.place = place → exportKey b ≤ exportKey r := by
  obtain ⟨front,hfront⟩ := List.getLast?_eq_some_iff.mp h
  have hmem : r ∈ rows.filter fun x => decide (x.place = place) := by
    rw [hfront]
    exact List.mem_append.mpr (.inr (List.mem_singleton.mpr rfl))
  obtain ⟨hr,hplace⟩ := List.mem_filter.mp hmem
  refine ⟨hr,of_decide_eq_true hplace,fun b hb hbplace => ?_⟩
  have hbmem : b ∈ rows.filter fun x => decide (x.place = place) := List.mem_filter.mpr ⟨hb,decide_eq_true hbplace⟩
  have hpairs := hsorted.filter fun x => decide (x.place = place)
  rw [hfront] at hbmem hpairs
  rcases List.mem_append.mp hbmem with hbfront | hlast
  · exact (List.pairwise_append.mp hpairs).2.2 b hbfront r (List.mem_singleton.mpr rfl)
  · rw [List.mem_singleton.mp hlast]

theorem lastAt_none (h : lastAt rows place = none) : ∀ b ∈ rows, b.place ≠ place := by
  intro b hb hplace
  have hmem : b ∈ rows.filter fun x => decide (x.place = place) := List.mem_filter.mpr ⟨hb,decide_eq_true hplace⟩
  rw [List.getLast?_eq_none_iff.mp h] at hmem
  exact absurd hmem List.not_mem_nil

/-! ### Moving a plane -/

theorem moved_active (h : Sound sha256 p) (scope : String) (clock : MemoryRecord → Clock) (place : String × String × String) :
    activeRow (moved sha256 p scope clock).rows place = arrived none (lastAt (p.exportHistory scope) place) := by
  have hrows : ∀ r ∈ p.exportHistory scope, r ∈ p.rows := fun r hr => (mem_exportHistory.mp hr).1
  exact importRecords_active sound_empty (fun r hr => h.valid r (hrows r hr)) (exportHistory_nodup h.ids scope)
    (fun _ _ _ hx => absurd hx List.not_mem_nil) (fun a ha b hb => h.single a (hrows a ha) b (hrows b hb)) (fun _ _ _ => rfl) place

variable {space key : String}

theorem moved_active_some (h : Sound sha256 p) {clock : MemoryRecord → Clock} {x : MemoryRecord}
    (hx : activeRow (moved sha256 p scope clock).rows (space,scope,key) = some x) : ∃ a, activeRow p.rows
    (space,scope,key) = some a ∧ x = carried a ∧ ∀ b ∈ p.rows, b.place = a.place → toLex
    (b.createdAt,b.recordId) ≤ toLex (a.createdAt,a.recordId) := by
  rw [moved_active h] at hx
  cases hlast : lastAt (p.exportHistory scope) (space,scope,key) with
  | none =>
    rw [hlast] at hx
    cases hx
  | some a =>
    rw [hlast] at hx
    obtain ⟨ha,hplace,hlatest⟩ := lastAt_latest (exportHistory_sorted p scope) hlast
    obtain ⟨hmem,hscope⟩ := mem_exportHistory.mp ha
    by_cases hactive : a.status = .active
    · have he : some (carried a) = some x := (if_pos hactive).symm.trans hx
      refine ⟨a,(h.activeRow_iff _ a).mpr ⟨hmem,hplace,hactive⟩,(Option.some.inj he).symm,fun b hb hbplace => ?_⟩
      have hbscope : b.scope = scope := (congrArg (·.2.1) hbplace).trans hscope
      exact (exportKey_le hbplace).mp (hlatest b (mem_exportHistory.mpr ⟨hb,hbscope⟩) (hbplace.trans hplace))
    · have he : none = some x := (if_neg hactive).symm.trans hx
      cases he

theorem moved_active_of (h : Sound sha256 p) (clock : MemoryRecord → Clock)
    (ha : activeRow p.rows (space,scope,key) = some a)
    (hlatest : ∀ b ∈ p.rows, b.place = a.place → toLex (b.createdAt,b.recordId) ≤ toLex (a.createdAt,a.recordId)) :
    activeRow (moved sha256 p scope clock).rows (space,scope,key) = some (carried a) := by
  obtain ⟨hmem,hplace,hactive⟩ := (h.activeRow_iff _ a).mp ha
  have hexport : a ∈ p.exportHistory scope := mem_exportHistory.mpr ⟨hmem,congrArg (·.2.1) hplace⟩
  rw [moved_active h]
  cases hlast : lastAt (p.exportHistory scope) (space,scope,key) with
  | none => exact absurd hplace (lastAt_none hlast a hexport)
  | some r =>
    obtain ⟨hr,hrplace,hrlatest⟩ := lastAt_latest (exportHistory_sorted p scope) hlast
    have hsame : r.place = a.place := hrplace.trans hplace.symm
    have hle := hlatest r (mem_exportHistory.mp hr).1 hsame
    have hge := (exportKey_le hsame.symm).mp (hrlatest a hexport hplace)
    have heq : (r.createdAt,r.recordId) = (a.createdAt,a.recordId) := toLex.injective (le_antisymm hle hge)
    rw [h.eq_of_id (mem_exportHistory.mp hr).1 hmem (congrArg (·.2) heq)]
    exact if_pos hactive

theorem filter_link {link : Option String} : link.filter (· ≠ "") = link ↔ link ≠ some "" := by
  cases link with
  | none => simp
  | some s => by_cases hs : s = "" <;> simp [Option.filter,hs]

theorem sameReads_iff (h : Sound sha256 p) (scope : String) (clock : MemoryRecord → Clock) (now : Clock) :
    SameReads p (moved sha256 p scope clock) scope now ↔ LiveLatest p scope now := by
  constructor
  · intro hsame a ha hscope hactive hlive
    have hfound : activeRow p.rows (a.space,scope,a.key) = some a :=
      (h.activeRow_iff _ a).mpr ⟨ha,by rw [← hscope]; rfl,hactive⟩
    have hget : p.get now a.space a.key scope = some a := by
      rw [MemoryPlane.get,hfound,Option.filter_some,hlive]
      rfl
    have hread := hsame a.space a.key
    rw [hget] at hread
    obtain ⟨x,hx,hxa⟩ := Option.map_eq_some_iff.mp hread
    obtain ⟨hx,-⟩ := Option.filter_eq_some_iff.mp hx
    obtain ⟨b,hb,rfl,hlatest⟩ := moved_active_some h hx
    cases Option.some.inj (hfound.symm.trans hb)
    exact ⟨filter_link.mp (congrArg MemoryRecord.supersedes hxa),hlatest⟩
  · intro hlatest space key
    have hnone : ∀ q : MemoryPlane, activeRow q.rows (space,scope,key) = none → q.get now space key scope = none := by
      intro q hq
      rw [MemoryPlane.get,hq]
      rfl
    cases hactive : activeRow p.rows (space,scope,key) with
    | none =>
      rw [hnone p hactive,hnone]
      cases hx : activeRow (moved sha256 p scope clock).rows (space,scope,key) with
      | none => rfl
      | some x =>
        obtain ⟨a,ha,-⟩ := moved_active_some h hx
        cases hactive.symm.trans ha
    | some a =>
      obtain ⟨hmem,hplace,hstatus⟩ := (h.activeRow_iff _ a).mp hactive
      cases hlive : expired now a with
      | true =>
        have hold : p.get now space key scope = none := by
          rw [MemoryPlane.get,hactive,Option.filter_some,hlive]
          rfl
        rw [hold,Option.map_none,Option.map_eq_none_iff,MemoryPlane.get,Option.filter_eq_none_iff]
        intro x hx
        obtain ⟨b,hb,rfl,-⟩ := moved_active_some h hx
        cases Option.some.inj (hactive.symm.trans hb)
        rw [show expired now (carried a) = expired now a from rfl,hlive]
        exact Bool.noConfusion
      | false =>
        obtain ⟨hlink,hlast⟩ := hlatest a hmem (congrArg (·.2.1) hplace) hstatus hlive
        have hsame : unverified (carried a) = unverified a := by
          rw [unverified,carried,filter_link.mpr hlink]
          rfl
        have hold : p.get now space key scope = some a := by
          rw [MemoryPlane.get,hactive,Option.filter_some,hlive]
          rfl
        have hnew : (moved sha256 p scope clock).get now space key scope = some (carried a) := by
          rw [MemoryPlane.get,moved_active_of h clock hactive hlast,Option.filter_some,
            show expired now (carried a) = expired now a from rfl,hlive]
          rfl
        rw [hold,hnew,Option.map_some,Option.map_some,hsame]

/-! ### Importing a superseded record -/

/-- `put` raises on a record whose id is not stored. -/
def Refused (sha256 : String → String) (m : Moment) (r : MemoryRecord) : Prop :=
  ∀ n, normalize sha256 m false r = .ok n → ¬Storable n ∨ m.fails = true

def HidesNothing (sha256 : String → String) (p : MemoryPlane) (m : Moment) (r : MemoryRecord) : Prop :=
  ∀ place a, activeRow p.rows place = some a → activeRow (importRecords sha256 p [(r,m)]).1.rows place = some a

theorem hidesNothing_iff (h : Sound sha256 p) {m : Moment} (hr : r.status = .superseded) : HidesNothing
    sha256 p m r ↔ Refused sha256 m r ∨ (∃ x ∈ p.rows, x.recordId = r.recordId) ∨ activeRow p.rows r.place =
    none := by
  by_cases hstored : ∃ x ∈ p.rows, x.recordId = r.recordId
  · refine iff_of_true (fun place a ha => ?_) (.inr (.inl hstored))
    rw [importRecords]
    cases hput : put sha256 m p r with
    | error e => exact ha
    | ok q =>
      rcases putWith_ok hput with ⟨rfl,-⟩ | ⟨n,hn,-,hnew,-⟩
      · exact ha
      · obtain ⟨-,-,rfl⟩ := normalize_ok hn
        obtain ⟨x,hx,hid⟩ := hstored
        exact absurd hid (hnew x hx)
  · have hnew : ∀ x ∈ p.rows, x.recordId ≠ r.recordId := fun x hx hid => hstored ⟨x,hx,hid⟩
    rw [or_iff_right hstored]
    cases hput : put sha256 m p r with
    | error e =>
      refine iff_of_true (fun place a ha => ?_) (.inl fun n hn => ?_)
      · rw [importRecords,hput]
        exact ha
      · by_contra hs
        obtain ⟨-,-,rfl⟩ := normalize_ok hn
        have hfind : findRow p.rows r.recordId = none := findRow_none.mpr hnew
        rw [put,putWith,hn] at hput
        simp only [putNormalized,hfind,if_neg hs] at hput
        cases hput
    | ok q =>
      rcases putWith_ok hput with ⟨-,hx⟩ | ⟨n,hn,hs,-,-⟩
      · exact absurd hx hstored
      · have hfields : n.place = r.place ∧ n.status = r.status := by
          obtain ⟨-,-,rfl⟩ := normalize_ok hn
          exact ⟨rfl,rfl⟩
        have hactive := activeRow_put h hput hn hnew
        have himport : (importRecords sha256 p [(r,m)]).1 = q := by simp only [importRecords,hput]
        have hfails : m.fails = false := by
          cases hm : m.fails with
          | false => rfl
          | true =>
            have hfind : findRow p.rows n.recordId = none := by
              obtain ⟨-,-,rfl⟩ := normalize_ok hn
              exact findRow_none.mpr hnew
            rw [put,putWith,hn] at hput
            simp only [putNormalized,hfind,hm,or_true,if_true] at hput
            cases hput
        constructor
        · intro hkeeps
          refine .inr ?_
          cases hold : activeRow p.rows r.place with
          | none => rfl
          | some a =>
            have hlost := hkeeps r.place a hold
            rw [himport,hactive,if_pos hfields.1.symm,if_neg (by rw [hfields.2,hr]; exact RecordStatus.noConfusion)] at hlost
            cases hlost
        · rintro (hrefused | hnone)
          · rcases hrefused n hn with hbad | hbad
            · exact absurd hs hbad
            · cases hfails.symm.trans hbad
          · intro place a ha
            rw [himport,hactive,if_neg]
            · exact ha
            · rintro rfl
              rw [hfields.1,hnone] at ha
              cases ha

/-- For every sequence of calls on a new plane: one active row for a key, an index of exactly
the active rows, no row lost afterwards; the plane moves without loss exactly when its live
records are the latest of their keys; and an imported superseded record hides nothing exactly
when it is refused, stored already, or nothing is active under its key. -/
theorem plane_history (sha256 : String → String) (ops : List (Op × Moment)) :
    Sound sha256 (run sha256 ops {}) ∧
      (∀ more, Grown (more.flatMap fun op => op.1.repairs) (run sha256 ops {}) (run sha256 more (run sha256 ops {}))) ∧
      (∀ scope clock now, SameReads (run sha256 ops {}) (moved sha256 (run sha256 ops {}) scope clock) scope now ↔
        LiveLatest (run sha256 ops {}) scope now) ∧
      ∀ (m : Moment) (r : MemoryRecord), HidesNothing sha256 (run sha256 ops {}) m {r with status := .superseded} ↔
        Refused sha256 m {r with status := .superseded} ∨ (∃ x ∈ (run sha256 ops {}).rows, x.recordId = r.recordId) ∨
          activeRow (run sha256 ops {}).rows r.place = none := by
  have hsound : Sound sha256 (run sha256 ops {}) := run_sound sound_empty ops
  exact ⟨hsound,run_grown _,sameReads_iff hsound,fun m r => hidesNothing_iff hsound (r := {r with status := .superseded}) rfl⟩

def digest (text : String) : String :=
  if text = "first" then "a7937b64b8caa58f03721bb6bacf5c78cb235febe0e70b1b84cd99541461a08e"
  else "16367aacb67a4a017c8da8ab95682ccb390863780f7114dda0a0e0c55644c7c4"

def noon : Clock := ⟨1700000000,by decide +kernel⟩

def backdated : List (Op × Moment) :=
  [(.put {recordId := "r1", space := "notes", key := "plan", content := "first", source := "cli", createdAt := Real.number 2},⟨noon,false⟩),
   (.put {recordId := "r2", space := "notes", key := "plan", content := "second", source := "cli", createdAt := Real.number 1},⟨noon,false⟩)]

/-- The record made first is active, and its export is read back as if there were none. -/
theorem backdated_lost : ¬∀ (sha256 : String → String) (ops : List (Op × Moment)) (scope : String) (clock : MemoryRecord → Clock)
    (now : Clock), SameReads (run sha256 ops {}) (moved sha256 (run sha256 ops {}) scope clock) scope now := by
  intro hall
  have hread := hall digest backdated "default" (fun _ => noon) noon "notes" "plan"
  have hbefore : ((run digest backdated {}).get noon "notes" "plan" "default").isSome = true := by decide +kernel
  have hafter : (moved digest (run digest backdated {}) "default" fun _ => noon).get noon "notes" "plan" "default" = none := by
    decide +kernel
  rw [hafter] at hread
  obtain ⟨a,ha⟩ := Option.isSome_iff_exists.mp hbefore
  rw [ha] at hread
  cases hread

end Verdict.Plane

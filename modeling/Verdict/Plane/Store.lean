import Mathlib.Data.List.Sort
import Mathlib.Data.Prod.Lex
import Mathlib.Order.WithBot
import Verdict.Basics.PyJson

/-! # A durable memory of records

A table of records in which a new value of a key supersedes the one that was active, and a
lexical index of the active ones. A call either does all it has to do or raises and leaves
the table as it was; only an import stops between two records.
-/
namespace Verdict.Plane
open Json

/-- A float in SQLite's order: a NaN is null, which comes first, then the infinities and the
numbers. -/
abbrev Real := WithBot (WithBot (WithTop ℚ))

def Real.number (q : ℚ) : Real := ((q : WithTop ℚ) : WithBot (WithTop ℚ))

def Real.null : Real := ⊥

def Real.json : Real → Json
  | none => .scalar .nan
  | some none => .scalar .negInf
  | some (some none) => .scalar .inf
  | some (some (some q)) => .float q

/-- The table has a check on this column. -/
inductive RecordStatus
  | active | superseded | tombstone
  | other (text : String)
  deriving DecidableEq

def RecordStatus.known : RecordStatus → Bool
  | .other _ => false
  | _ => true

structure MemoryRecord where
  (recordId space key content source : String)
  trust : String := "local-observation"
  scope : String := "default"
  metadata : Option Fields := none
  createdAt : Real := Real.number 0
  expiresAt : Option Real := none
  supersedes : Option String := none
  authority : String := "unverified"
  authorityVerified : Bool := false
  confidence : Real := Real.number 0
  sensitivity : String := "standard"
  provenance : Option Fields := none
  updatedAt : Real := Real.number 0
  contentHash : String := ""
  schemaVersion : ℤ := 2
  status : RecordStatus := .active

/-- A row of `memory_fts`. -/
structure IndexRow where
  (recordId space key content source trust scope : String)

def MemoryRecord.indexRow (r : MemoryRecord) : IndexRow := ⟨r.recordId,r.space,r.key,r.content,r.source,r.trust,r.scope⟩

def MemoryRecord.place (r : MemoryRecord) : String × String × String := (r.space,r.scope,r.key)

structure MemoryPlane where
  rows : List MemoryRecord := []
  index : List IndexRow := []

inductive PlaneError
  | required | confidence | hashMismatch | conflict | notVerified | noAuthority | mismatch | storage

/-- `time.time()`. -/
abbrev Clock := {now : ℚ // 0 < now}

structure Moment where
  clock : Clock
  fails : Bool := false

def Moment.now (m : Moment) : Real := Real.number m.clock

variable (sha256 : String → String)

/-! ### Normalizing -/

def setdefault (k : String) (v : Json) (fs : Fields) : Fields := if (fs.lookup k).isSome then fs else fs ++ [(k,v)]

def stamp (m : Moment) (t : Real) : Real := if t = Real.number 0 then m.now else t

def normalize (m : Moment) (allowAuthority : Bool) (r : MemoryRecord) : Except PlaneError MemoryRecord :=
  if r.recordId = "" ∨ r.space = "" ∨ r.key = "" ∨ r.source = "" ∨ r.content = "" then .error .required
  else if ¬(Real.number 0 ≤ r.confidence ∧ r.confidence ≤ Real.number 1) then .error .confidence
  else if r.contentHash ≠ "" ∧ r.contentHash ≠ sha256 r.content then .error .hashMismatch
  else .ok {r with
    metadata := some (r.metadata.getD [])
    provenance := some (setdefault "schema_version" (.int 2) (setdefault "observed_at" (stamp m r.createdAt).json
      (setdefault "source" (.str r.source) (r.provenance.getD []))))
    createdAt := stamp m r.createdAt
    updatedAt := stamp m r.updatedAt
    contentHash := sha256 r.content
    schemaVersion := 2
    authorityVerified := if allowAuthority then r.authorityVerified else false }

def Storable (r : MemoryRecord) : Prop := r.createdAt ≠ Real.null ∧ r.updatedAt ≠ Real.null ∧ r.status.known = true

instance (r : MemoryRecord) : Decidable (Storable r) := inferInstanceAs (Decidable (_ ∧ _))

def row (r : MemoryRecord) : MemoryRecord :=
  {r with
    metadata := r.metadata.map canonFields
    provenance := r.provenance.map canonFields
    expiresAt := r.expiresAt.filter (· ≠ Real.null) }

/-! ### The table -/

variable {sha256}

def findRow (rows : List MemoryRecord) (id : String) : Option MemoryRecord := rows.find? (·.recordId = id)

def IsActive (place : String × String × String) (r : MemoryRecord) : Prop := r.place = place ∧ r.status = .active

instance (place : String × String × String) (r : MemoryRecord) : Decidable (IsActive place r) := inferInstanceAs (Decidable (_ ∧ _))

def later (a b : MemoryRecord) : MemoryRecord :=
  if toLex (a.createdAt,a.recordId) ≤ toLex (b.createdAt,b.recordId) then b else a

def newest : List MemoryRecord → Option MemoryRecord
  | [] => none
  | r :: rs => some (rs.foldl later r)

def activeRow (rows : List MemoryRecord) (place : String × String × String) : Option MemoryRecord :=
  newest (rows.filter fun r => IsActive place r)

/-- `UPDATE memories SET status='superseded'`. -/
def supersede (id : String) (updatedAt : Real) (r : MemoryRecord) : MemoryRecord :=
  if r.recordId = id then {r with status := .superseded, updatedAt := updatedAt} else r

def unindex (id : String) (index : List IndexRow) : List IndexRow := index.filter (·.recordId ≠ id)

/-- The row of `previous`, if any, is superseded and leaves the index. -/
def MemoryPlane.retire (p : MemoryPlane) (previous : Option MemoryRecord) (updatedAt : Real) : MemoryPlane :=
  match previous with
  | none => p
  | some old => ⟨p.rows.map (supersede old.recordId updatedAt),unindex old.recordId p.index⟩

def indexed (r : MemoryRecord) : List IndexRow := if r.status = .active then [r.indexRow] else []

/-- `normalized.supersedes or previous_id`. -/
def linked (own : Option String) (previous : Option MemoryRecord) : Option String :=
  match own.filter (· ≠ "") with
  | some id => some id
  | none => previous.map MemoryRecord.recordId

variable (sha256)

/-! ### Writing -/

/-- `_put` of a normalized record. -/
def putNormalized (m : Moment) (p : MemoryPlane) (r : MemoryRecord) : Except PlaneError MemoryPlane :=
  match findRow p.rows r.recordId with
  | some existing =>
    if existing.contentHash = r.contentHash then if m.fails then .error .storage else .ok p
    else .error .conflict
  | none =>
    let previous := activeRow p.rows r.place
    let new := row {r with supersedes := linked r.supersedes previous}
    if ¬Storable r ∨ m.fails then .error .storage
    else .ok ⟨(p.retire previous r.updatedAt).rows ++ [new],(p.retire previous r.updatedAt).index ++ indexed new⟩

def putWith (allowAuthority : Bool) (m : Moment) (p : MemoryPlane) (r : MemoryRecord) : Except PlaneError MemoryPlane :=
  match normalize sha256 m allowAuthority r with
  | .error e => .error e
  | .ok r => putNormalized m p r

def put := putWith sha256 false

/-- What `put_verified` and `repair_verified` ask of a record. -/
def verified (r : MemoryRecord) : Except PlaneError Unit :=
  if r.authorityVerified = false then .error .notVerified
  else if r.authority = "" ∨ r.authority = "unverified" then .error .noAuthority
  else .ok ()

def putVerified (m : Moment) (p : MemoryPlane) (r : MemoryRecord) : Except PlaneError MemoryPlane :=
  match verified r with
  | .error e => .error e
  | .ok _ => putWith sha256 true m p r

/-- `repair_verified` writes over the row of the record; another active row of its key is
superseded. -/
def repairVerified (m : Moment) (p : MemoryPlane) (r : MemoryRecord) : Except PlaneError MemoryPlane :=
  match verified r, normalize sha256 m true r with
  | .error e, _ => .error e
  | _, .error e => .error e
  | .ok _, .ok r =>
    match findRow p.rows r.recordId with
    | none => putVerified sha256 m p r
    | some _ =>
      let conflicting := newest (p.rows.filter fun x => IsActive r.place x ∧ x.recordId ≠ r.recordId)
      let new := row {r with supersedes := if conflicting.isSome then linked r.supersedes conflicting else r.supersedes}
      if ¬Storable r ∨ m.fails then .error .storage
      else .ok ⟨(p.retire conflicting r.updatedAt).rows.map fun x => if x.recordId = r.recordId then new else x,
        unindex r.recordId (p.retire conflicting r.updatedAt).index ++ indexed new⟩

/-- `supersede`: the replacement must be for the key it is to replace. -/
def supersedeBy (m : Moment) (p : MemoryPlane) (space key : String) (replacement : MemoryRecord) (scope : String) :
    Except PlaneError MemoryPlane :=
  if replacement.space ≠ space ∨ replacement.key ≠ key ∨ replacement.scope ≠ scope then .error .mismatch
  else put sha256 m p replacement

/-- The marker that `tombstone` puts in the place of a record. -/
def marker (m : Moment) (current : MemoryRecord) (space key scope : String) : MemoryRecord where
  recordId := "tombstone:" ++ current.recordId
  space := space
  key := key
  content := "[tombstone]"
  source := "memory-plane"
  trust := "local-operation"
  scope := scope
  metadata := some [("tombstone_for",.str current.recordId)]
  createdAt := m.now
  updatedAt := m.now
  supersedes := some current.recordId
  authority := "memory-plane"
  sensitivity := current.sensitivity
  provenance := some [("operation",.str "tombstone"),("tombstone_for",.str current.recordId),("schema_version",.int 2)]
  confidence := Real.number 1
  status := .tombstone

def tombstone (m : Moment) (p : MemoryPlane) (space key scope : String) : Except PlaneError MemoryPlane :=
  match activeRow p.rows (space,scope,key) with
  | none => .ok p
  | some current => putWith sha256 false m p (marker m current space key scope)

/-- Each record is put on its own, and the first that is refused ends it. -/
def importRecords (p : MemoryPlane) : List (MemoryRecord × Moment) → MemoryPlane × Option PlaneError
  | [] => (p,none)
  | (r,m) :: rest => match put sha256 m p r with
    | .error e => (p,some e)
    | .ok p => importRecords p rest

/-! ### Reading -/

def expired (now : Clock) (r : MemoryRecord) : Bool := match r.expiresAt with
  | none => false
  | some t => decide (t ≤ Real.number now)

def MemoryPlane.get (p : MemoryPlane) (now : Clock) (space key scope : String) : Option MemoryRecord :=
  (activeRow p.rows (space,scope,key)).filter fun r => !expired now r

def exportKey (r : MemoryRecord) : Lex (String × Lex (String × Lex (Real × String))) :=
  toLex (r.space,toLex (r.key,toLex (r.createdAt,r.recordId)))

/-- `export_records(scope=scope, include_history=True)`. -/
def MemoryPlane.exportHistory (p : MemoryPlane) (scope : String) : List MemoryRecord :=
  (p.rows.filter (·.scope = scope)).insertionSort fun a b => exportKey a ≤ exportKey b

/-! ### Runs -/

inductive Op
  | put (r : MemoryRecord)
  | putVerified (r : MemoryRecord)
  | supersede (space key : String) (replacement : MemoryRecord) (scope : String)
  | tombstone (space key scope : String)
  | repairVerified (r : MemoryRecord)
  | importRecords (records : List (MemoryRecord × Moment))

def after (p : MemoryPlane) : Except PlaneError MemoryPlane → MemoryPlane
  | .ok p => p
  | .error _ => p

def perform (p : MemoryPlane) : Op × Moment → MemoryPlane
  | (.put r,m) => after p (put sha256 m p r)
  | (.putVerified r,m) => after p (putVerified sha256 m p r)
  | (.supersede space key r scope,m) => after p (supersedeBy sha256 m p space key r scope)
  | (.tombstone space key scope,m) => after p (tombstone sha256 m p space key scope)
  | (.repairVerified r,m) => after p (repairVerified sha256 m p r)
  | (.importRecords records,_) => (importRecords sha256 p records).1

def run (ops : List (Op × Moment)) (p : MemoryPlane) : MemoryPlane := ops.foldl (perform sha256) p

end Verdict.Plane

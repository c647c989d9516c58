import Verdict.Basics.HashChain
import Verdict.Basics.Json
import Verdict.Basics.Paging
import Verdict.Contracts.Path

/-! # The receipt table

Rows of `receipts`, how `_insert` computes and stores one, and the walk that recomputes what was
stored. Hashes are over the values a call passes, while the table keeps what SQLite makes of them:
a number in a text column becomes text, a negative zero loses its sign. JSON columns hold the
printed value, and reading one gives its canonical form. A text that is not JSON makes readers and
the verifier raise; no row here has one.
-/
namespace Verdict.ReceiptStore

/-- A float as `time()` or `float()` returns it. -/
inductive Stamp
  | finite (q : ℚ)
  | negZero | nan | inf | negInf
  deriving DecidableEq

def Stamp.toJson : Stamp → Json
  | .finite q => .float q
  | .negZero => .scalar .negZero
  | .nan => .scalar .nan
  | .inf => .scalar .inf
  | .negInf => .scalar .negInf

/-- What a `REAL NOT NULL` column keeps; a NaN is `NULL` there. -/
def Stamp.stored : Stamp → Option Stamp
  | .nan => none
  | .negZero => some (.finite 0)
  | t => some t

structure Links (α : Type) where
  (parentReceiptId eventId eventType terminalOutcome idempotencyKey tombstoneFor keyRef : α)
  deriving DecidableEq

def Links.map {α β : Type} (f : α → β) (l : Links α) : Links β where
  parentReceiptId := f l.parentReceiptId
  eventId := f l.eventId
  eventType := f l.eventType
  terminalOutcome := f l.terminalOutcome
  idempotencyKey := f l.idempotencyKey
  tombstoneFor := f l.tombstoneFor
  keyRef := f l.keyRef

/-- A row of `receipts`; the JSON columns are parsed. -/
structure Row where
  receiptId : String
  timestamp : Stamp
  (receiptType scope : String)
  payload : Json
  (contentHash sensitivity : String)
  provenance : Json
  links : Links (Option String)
  sequence : ℤ
  previousHash : Option String
  recordHash : String
  deriving DecidableEq

def Row.isTombstone (r : Row) : Bool := r.receiptType = "tombstone" || r.links.tombstoneFor.isSome

/-- The arguments of `_insert`. An imported record may pass any JSON for the optional columns. -/
structure Draft where
  (receiptType scope : String)
  payload : List (String × Json)
  sensitivity : String
  provenance : List (String × Json)
  receiptId : String
  timestamp : Stamp
  links : Links Json

inductive StoreError
  | value (what : String)
  | type (what : String)
  | key (what : String)
  | conflict
  | integrity
  /-- `sqlite3.IntegrityError`. -/
  | constraint
  /-- A value that SQLite cannot bind. -/
  | binding
  /-- `ReceiptStoreError` for a manifest. -/
  | manifest
  /-- The database refused a transaction, which was rolled back. -/
  | database
  deriving DecidableEq

/-- What lies outside the store: case folding, SHA-256 of a printed value, `str`, `float` and
`int` of values that are not already of that type, and SQLite's text for a float. -/
structure Env where
  lower : String → String
  (sha256 str : Json → String)
  float : Json → Option Stamp
  int : Json → Option ℤ
  realText : Scalar → String

def receiptTypes : List String :=
  ["decision","context","execution","verification","outcome","manifest","tombstone","file_edit","file_read",
   "file_write","file_delete","command","tool_call","session","compaction","error"]

/-- `_validate_scope`. -/
def validScope (scope : String) : Bool :=
  decide (Path.strip scope.toList ≠ []) && decide (scope.toList.length ≤ 512) && scope.toList.all (32 ≤ ·.toNat)

def optText : Option String → Json
  | none => .scalar .null
  | some s => .str s

/-- `provenance or {}`. -/
def orEmpty : Json → Json
  | .scalar .null => .obj []
  | .bool false => .obj []
  | .int 0 => .obj []
  | .float q => if q = 0 then .obj [] else .float q
  | .scalar .negZero => .obj []
  | .str s => if s = "" then .obj [] else .str s
  | .arr [] => .obj []
  | j => j

section
variable (env : Env)

/-- `hashlib.sha256(_canonical(value).encode()).hexdigest()`. -/
def digest (j : Json) : String := env.sha256 j.canon

def recordValue (receiptId : String) (timestamp : Stamp) (receiptType contentHash scope : String) (sequence : ℤ)
    (previousHash : Option String) (sensitivity : String) (provenance : Json) (links : Links Json) : Json :=
  .arr [.str receiptId,timestamp.toJson,.str receiptType,.str contentHash,.str scope,.int sequence,
    optText previousHash,.str sensitivity,orEmpty provenance,links.parentReceiptId,links.eventId,links.eventType,
    links.terminalOutcome,links.tombstoneFor,links.keyRef,links.idempotencyKey]

def recordHash (receiptId : String) (timestamp : Stamp) (receiptType contentHash scope : String) (sequence : ℤ)
    (previousHash : Option String) (sensitivity : String) (provenance : Json) (links : Links Json) : String :=
  digest env (recordValue receiptId timestamp receiptType contentHash scope sequence previousHash sensitivity provenance links)

def Row.expectedHash (r : Row) : String :=
  ReceiptStore.recordHash env r.receiptId r.timestamp r.receiptType r.contentHash r.scope r.sequence r.previousHash r.sensitivity
    r.provenance (r.links.map optText)

end

def chainRows (rows : List Row) (scope : String) : List Row :=
  (rows.filter (·.scope = scope)).insertionSort fun a b => a.sequence ≤ b.sequence

def nextSequence (rows : List Row) (scope : String) : ℤ × Option String :=
  match (chainRows rows scope).getLast? with
  | some r => (r.sequence + 1,some r.recordHash)
  | none => (1,none)

section
variable (env : Env)

/-- What a `TEXT` column keeps of a value. -/
def textColumn : Json → Option (Option String)
  | .scalar .null => some none
  | .str s => some (some s)
  | .int n => if -2^63 ≤ n ∧ n < 2^63 then some (some (toString n)) else none
  | .bool b => some (some (if b then "1" else "0"))
  | .scalar .nan => some none
  | .scalar s => some (some (env.realText s))
  | .arr _ => none
  | .obj _ => none

def Links.stored (l : Links Json) : Option (Links (Option String)) := do
  let parentReceiptId ← textColumn env l.parentReceiptId
  let eventId ← textColumn env l.eventId
  let eventType ← textColumn env l.eventType
  let terminalOutcome ← textColumn env l.terminalOutcome
  let idempotencyKey ← textColumn env l.idempotencyKey
  let tombstoneFor ← textColumn env l.tombstoneFor
  let keyRef ← textColumn env l.keyRef
  return ⟨parentReceiptId,eventId,eventType,terminalOutcome,idempotencyKey,tombstoneFor,keyRef⟩

/-- The row that `_insert` writes, were its values to be stored as `timestamp` and `links`. -/
def Draft.row (d : Draft) (rows : List Row) (timestamp : Stamp) (links : Links (Option String)) : Row :=
  let contentHash := digest env (.obj d.payload)
  let (sequence,previousHash) := nextSequence rows d.scope
  { receiptId := d.receiptId
    timestamp := timestamp
    receiptType := d.receiptType
    scope := d.scope
    payload := (Json.obj d.payload).canon
    contentHash := contentHash
    sensitivity := d.sensitivity
    provenance := (Json.obj d.provenance).canon
    links := links
    sequence := sequence
    previousHash := previousHash
    recordHash := recordHash env d.receiptId d.timestamp d.receiptType contentHash d.scope sequence previousHash
      d.sensitivity (.obj d.provenance) d.links }

def clashes (rows : List Row) (r : Row) : Bool :=
  rows.any (fun o => o.receiptId = r.receiptId
    || (r.links.idempotencyKey.isSome && o.scope = r.scope && o.links.idempotencyKey = r.links.idempotencyKey))

/-- `_insert`, inside a transaction. -/
def insert (rows : List Row) (d : Draft) : Except StoreError (Row × List Row) :=
  if d.receiptType ∉ receiptTypes then .error (.value "receipt_type")
  else match d.links.stored env,d.timestamp.stored with
    | none,_ => .error .binding
    | some _,none => .error .constraint
    | some links,some timestamp =>
      let row := d.row env rows timestamp links
      if clashes rows row then .error .constraint else .ok (row,rows ++ [row])

end

section
variable (env : Env)

inductive ChainFault
  | contentHash | chainLink | recordHash

def pageSize : ℕ := 5000

variable (rows : List Row)

/-- The pages of `_iter_chain_records`, tombstones included. -/
def chainPages (scope : String) : List (List Row) :=
  Paging.pages pageSize Row.sequence (chainRows rows scope) (rows.length + 1) 0

def iterChainRecords (scope : String) : List Row := (chainPages rows scope).flatten

def rowFaults (previous : Option String) (r : Row) : List ChainFault :=
  (if digest env r.payload ≠ r.contentHash then [.contentHash] else [])
    ++ (if r.sequence < 1 ∨ r.previousHash ≠ previous then [.chainLink] else [])
    ++ (if r.expectedHash env ≠ r.recordHash then [.recordHash] else [])

def chainFaults : Option String → List Row → List (String × ChainFault)
  | _,[] => []
  | previous,r :: rest => (rowFaults env previous r).map (fun f => (r.receiptId,f)) ++ chainFaults (some r.recordHash) rest

/-- `SELECT DISTINCT scope FROM receipts ORDER BY scope`. -/
def scopes : List String := ((rows.map Row.scope).dedup).insertionSort fun a b => a ≤ b

def verifyIntegrity : Option String → Except StoreError (List (String × ChainFault))
  | some scope =>
    if validScope scope then .ok (chainFaults env none (iterChainRecords rows scope)) else .error (.value "scope")
  | none => .ok ((scopes rows).flatMap fun scope => chainFaults env none (iterChainRecords rows scope))

/-- `verify_integrity(scope)["valid"]`. -/
def Valid (scope : Option String) : Prop := verifyIntegrity env rows scope = .ok []

instance (rows : List Row) (scope : Option String) : Decidable (Valid env rows scope) :=
  match h : verifyIntegrity env rows scope with
  | .ok [] => isTrue h
  | .ok (_ :: _) => isFalse (by unfold Valid; simp [h])
  | .error _ => isFalse (by unfold Valid; simp [h])

end
end Verdict.ReceiptStore

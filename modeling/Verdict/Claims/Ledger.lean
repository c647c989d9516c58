import Verdict.Claims.Claim
import Verdict.ReceiptStore.Integrity

/-! # The claims ledger

`ClaimsLedger` keeps claims and their transitions in memory and writes each to the receipt
store before it changes the memory. An `add` that raises restores the memory. Fresh
identifiers, clock readings and refusals of the database are arguments.
-/
namespace Verdict.Claims
open Proof
open ReceiptStore (Env Row PutArgs EventArgs StoreError putReceipt appendEvent queryReceipts)

/-- A time as a caller gives it. -/
inductive Moment (o : Outside)
  | aware (t : o.Instant)
  | naive
  | text (s : String)

/-- One write to the store: whether the database refuses it, the uuid it draws, the time it reads. -/
structure Writing where
  refused : Bool := false
  uuid : String := ""
  now : ℚ := 0

structure ClaimsLedger (o : Outside) where
  claims : List (Claim o) := []
  transitions : List (ClaimTransition o) := []
  receiptIds : List (String × String) := []

structure TransitionArgs (o : Outside) where
  (claimId toStatus reason : String)
  occurredAt : Option (Moment o) := none
  supersededBy : Option String := none
  clock : o.Instant
  hex : String
  writing : Writing := {}

section Ledger
variable {o : Outside}

def timestamp (fieldName : String) : Moment o → Except ClaimsError o.Instant
  | .aware t => .ok t
  | .naive => .error (.ledger (fieldName ++ " must include a timezone"))
  | .text s => match o.fromisoformat s with
    | some t => .ok t
    | none => .error (.ledger (fieldName ++ " must be an ISO-8601 timestamp"))

def identifier (fieldName s : String) : Except ClaimsError Identifier := match Identifier.of s with
  | some i => .ok i
  | none =>
    if matchesId s = true then .error (.ledger (fieldName ++ " contains sensitive content"))
    else .error (.ledger (fieldName ++ " must be a bounded identifier"))

def optIdentifier (fieldName : String) : Option String → Except ClaimsError (Option Identifier)
  | none => .ok none
  | some s => (identifier fieldName s).map some

def ClaimsLedger.find (l : ClaimsLedger o) (claimId : String) : Option (Claim o) :=
  l.claims.find? fun c => c.claimId.text = claimId

/-- `_claims[claim.claim_id] = claim`. -/
def setClaim (c : Claim o) : List (Claim o) → List (Claim o)
  | [] => [c]
  | d :: rest => if d.claimId = c.claimId then c :: rest else d :: setClaim c rest

variable (env : Env) (scope : String)

/-- The `put_receipt` call of `_persist_claim`. -/
def claimPut (c : Claim o) (w : Writing) : PutArgs where
  receiptType := "context"
  scope := scope
  payload := [("kind",.str "claim"),("claim",.obj c.toDict)]
  provenance := some [("source",.str "verdict.claims_ledger"),("version",.str CLAIMS_LEDGER_SCHEMA_VERSION)]
  receiptId := some ("claim-" ++ c.claimId.text)
  uuid := w.uuid
  now := w.now

/-- The `append_event` call of `_persist_transition`. -/
def transitionEvent (parent : String) (t : ClaimTransition o) (w : Writing) : EventArgs where
  parentReceiptId := parent
  scope := scope
  payload := [("kind",.str "claim_transition"),("transition",.obj t.hashed.toDict)]
  eventId := t.transitionId.text
  eventType := "claim_status_transition"
  uuid := w.uuid
  now := w.now

variable (l : ClaimsLedger o)
variable (rows : List Row)

def persistTransition (t : ClaimTransition o) (w : Writing) :
    Except ClaimsError (List Row) := match l.receiptIds.lookup t.claimId.text with
  | none => .error (.store (.key t.claimId.text))
  | some parent => match appendEvent env w.refused rows (transitionEvent scope parent t w) with
    | .error e => .error (.store e)
    | .ok (_,rows') => .ok rows'

def ClaimsLedger.get (claimId : String) : Except ClaimsError (Claim o) := match identifier "claim_id" claimId with
  | .error e => .error e
  | .ok _ => match l.find claimId with
    | some claim => .ok claim
    | none => .error (.ledger ("unknown claim: " ++ claimId))

def allowedStatus (current : Claim o) (toStatus : String) : Except ClaimsError ClaimStatus := match ClaimStatus.of toStatus with
  | none => .error (.transition "claim status is invalid")
  | some status =>
    if status ∈ current.status.transitions then .ok status
    else .error (.transition ("cannot transition " ++ current.status.text ++ " to " ++ status.text))

/-- `occurred_at or self.clock()`. -/
def TransitionArgs.moment (a : TransitionArgs o) : Moment o := match a.occurredAt with
  | none => .aware a.clock
  | some (.text s) => if s = "" then .aware a.clock else .text s
  | some m => m

def explanation (reason : String) : Except ClaimsError {s : String // NonBlank s} :=
  if h : NonBlank reason then .ok ⟨reason,h⟩ else .error (.ledger "transition reason must be non-empty")

/-- The constructor call of `transition`. -/
def newTransition (current : Claim o) (toStatus : ClaimStatus) (a : TransitionArgs o) : Except ClaimsError (ClaimTransition o) := do
  let occurredAt ← timestamp "occurred_at" a.moment
  let transitionId ← identifier "transition_id" ("transition-" ++ a.hex)
  let reason ← explanation a.reason
  let supersededBy ← optIdentifier "superseded_by" a.supersededBy
  return ⟨transitionId,current.claimId,current.status,toStatus,occurredAt,reason.1,supersededBy,reason.2⟩

def prepareTransition (a : TransitionArgs o) : Except ClaimsError (Claim o × ClaimTransition o) := do
  let current ← l.get a.claimId
  let toStatus ← allowedStatus current a.toStatus
  let t ← newTransition current toStatus a
  return (current,t)

/-- The ledger and the rows after it. -/
def transition (a : TransitionArgs o) : Except ClaimsError (ClaimsLedger o × List Row) := do
  let (current,t) ← prepareTransition l a
  let rows' ← persistTransition env scope l rows t a.writing
  return ({l with claims := setClaim (current.withStatus t.toStatus) l.claims, transitions := l.transitions ++ [t]},rows')

/-- The arguments of `add`, with its two writes. -/
structure AddArgs (o : Outside) where
  claim : Claim o
  clock : o.Instant
  hex : String
  first : Writing := {}
  second : Writing := {}

def AddArgs.supersede (a : AddArgs o) (predecessor : Identifier) : TransitionArgs o where
  claimId := predecessor.text
  toStatus := "superseded"
  reason := "superseded_by_new_claim"
  occurredAt := some (.text (o.isoformat a.claim.observedAt))
  supersededBy := some a.claim.claimId.text
  clock := a.clock
  hex := a.hex
  writing := a.second

/-- What `add` raises about the predecessor before it writes anything. -/
def refusal (c : Claim o) : Option ClaimsError := c.supersedes.bind fun p => match l.find p.text with
  | none => some (.ledger "supersedes references an unavailable claim")
  | some predecessor =>
    if predecessor.status = .superseded then some (.ledger "superseded claims cannot be superseded again") else none

/-- The ledger in which `_persist_claim` has left a new claim. -/
def ClaimsLedger.hold (c : Claim o) : ClaimsLedger o :=
  {l with claims := setClaim c l.claims, receiptIds := Dict.put c.claimId.text ("claim-" ++ c.claimId.text) l.receiptIds}

/-- How it ends, the ledger and the rows after it. -/
def add (a : AddArgs o) : Except ClaimsError (Claim o) × ClaimsLedger o × List Row :=
  match l.find a.claim.claimId.text with
  | some existing =>
    if (Json.obj existing.toDict).pyEq (.obj a.claim.toDict) then (.ok existing,l,rows)
    else (.error (.ledger "claim_id already exists with different content"),l,rows)
  | none => match refusal l a.claim with
    | some e => (.error e,l,rows)
    | none => match putReceipt env a.first.refused rows (claimPut scope a.claim a.first) with
      | .error e => (.error (.store e),l,rows)
      | .ok (_,rows') => match a.claim.supersedes with
        | none => (.ok a.claim,l.hold a.claim,rows')
        | some p => match transition env scope (l.hold a.claim) rows' (a.supersede p) with
          -- the memory is restored, and the receipt of the claim stays
          | .error e => (.error e,l,rows')
          | .ok (l',rows'') => (.ok a.claim,l',rows'')

/-! ### Rebuilding -/

/-- One round of the first loop of `from_receipt_store`. -/
def loadClaim (record : Row) : Except ClaimsError (ClaimsLedger o) := match record.payload with
  | .obj fs =>
    if fs.lookup "kind" ≠ some (.str "claim") then .ok l
    else match fs.lookup "claim" with
      | none => .error (.store (.key "claim"))
      | some value => (Claim.fromDict value).map fun c =>
        {l with claims := setClaim c l.claims, receiptIds := Dict.put c.claimId.text record.receiptId l.receiptIds}
  | _ => .ok l

def loadTransition (record : Row) : Except ClaimsError (ClaimsLedger o) :=
  if record.links.eventType ≠ some "claim_status_transition" then .ok l
  else match record.payload with
    | .obj fs => match fs.lookup "transition" with
      | some (.obj payload) => do
        let t ← ClaimTransition.read payload
        match l.find t.claimId.text with
        | none => throw (.ledger "transition references an unavailable claim")
        | some current =>
          return {l with claims := setClaim (current.withStatus t.toStatus) l.claims, transitions := l.transitions ++ [t]}
      | _ => .ok l
    | _ => .ok l

def scopeRecords (receiptType : String) : Except ClaimsError (List Row) :=
  match queryReceipts env rows (some receiptType) (some scope) 100000 false none with
  | .error e => .error (.store e)
  | .ok found => .ok (found.insertionSort fun a b => a.sequence ≤ b.sequence)

def fromReceiptStore : Except ClaimsError (ClaimsLedger o) := do
  let claimRecords ← scopeRecords env scope rows "context"
  let l ← claimRecords.foldlM loadClaim {}
  let eventRecords ← scopeRecords env scope rows "execution"
  eventRecords.foldlM loadTransition l

end Ledger
end Verdict.Claims

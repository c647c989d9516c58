import Verdict.Basics.JsonText
import Verdict.Proof.Receipt

/-! # The portable verifier

It checks the JSON object of a receipt without the producer, with its own rule for sensitive
identifiers. Faults of single pieces of evidence are collected; any other fault ends the check.
-/
namespace Verdict.Proof
open Json
open JsonCodec (missingKeys unknownKeys)
open Raising (bind_ok check_ok each each_all each_ok map_ok require require_ok)
open ReceiptStore (dropWord)

/-! ### Identifiers -/

def isSeparator (c : Char) : Bool := "-_.:/".toList.contains c

def segmentStarts (cs : List Char) : List (List Char) :=
  cs :: cs.tails.filterMap fun
    | c :: rest => if isSeparator c then some rest else none
    | [] => none

def endsSegment : List Char → Bool
  | [] => true
  | c :: rest => isSeparator c || (c == '\n' && rest.isEmpty)

/-- `_SENSITIVE_ID.search`: a sensitive word is a whole segment, or several. -/
def sensitiveSegment (s : String) : Bool :=
  (segmentStarts s.toList).any fun t => sensitiveWords.any fun w => (dropWord w.toList t).any endsSegment

def Portable (s : String) : Prop := matchesId s = true ∧ sensitiveSegment s = false

/-! ### Values -/

def sorted (xs : List String) : List String := xs.insertionSort (· ≤ ·)

def requiredObject (v : Json) (name : String) (required optional : List String) : Except String Fields := match v with
  | .obj fs =>
    if missingKeys required fs ≠ [] then .error (name ++ " missing field(s): " ++ ", ".intercalate (sorted (missingKeys required fs)))
    else if unknownKeys required optional fs ≠ [] then
      .error (name ++ " has unknown field(s): " ++ ", ".intercalate (sorted (unknownKeys required optional fs)))
    else .ok fs
  | _ => .error (name ++ " must be an object")

def checkString (v : Json) (name : String) : Except String String := match v with
  | .str s => if Path.strip s.toList = [] then .error (name ++ " must be a non-empty string") else .ok s
  | _ => .error (name ++ " must be a non-empty string")

/-- `_string(..., identifier=True)`. -/
def checkIdentifier (v : Json) (name : String) : Except String Unit := do
  let s ← checkString v name
  require (matchesId s = true) (name ++ " must be a bounded identifier")
  require (sensitiveSegment s = false) (name ++ " contains sensitive content")

/-- `_digest`. -/
def checkSha (v : Json) (name : String) : Except String Unit := do
  let s ← checkString v name
  require (matchesDigest s = true) (name ++ " must be a sha256 digest")

variable (o : Outside)

def checkZone (name : String) : Option o.Datetime → Except String Unit
  | none => .error (name ++ " must be an ISO-8601 timestamp")
  | some d => require (o.isAware d = true) (name ++ " must include a timezone")

def checkTimestamp (v : Json) (name : String) : Except String Unit := do
  let s ← checkString v name
  checkZone o name (o.fromisoformat (replace "Z" "+00:00" s))

/-- `value not in values` raises; an array or an object cannot even be looked up in a set. -/
def checkAmong (values : List String) (v : Json) (message : String) : Except String Unit := match v with
  | .scalar s => require (s ∈ values.map Scalar.str) message
  | _ => .error (o.unhashable v)

def checkArray (v : Json) (message : String) : Except String (List Json) := match v with
  | .arr xs => .ok xs
  | _ => .error message

def checkNonEmpty (v : Json) (message : String) : Except String (List Json) := do
  let xs ← checkArray v message
  require (xs ≠ []) message
  return xs

def indexed (name : String) (i : ℕ) : String := name ++ "[" ++ toString i ++ "]"

/-! ### Members -/

def checkSource (i : ℕ) (v : Json) : Except String Unit := do
  let item ← requiredObject v (indexed "source_references" i) ["source_id","digest","status"] []
  checkIdentifier (get item "source_id") (indexed "source_references" i ++ ".source_id")
  checkSha (get item "digest") (indexed "source_references" i ++ ".digest")
  checkAmong o ["verified"] (get item "status") (indexed "source_references" i ++ " is not verified")

def evidenceStatuses : List String := ["verified","missing","malformed","skipped","unavailable"]

def checkEvidence (i : ℕ) (v : Json) : Except String Unit := do
  let entry ← requiredObject v (indexed "evidence" i) ["evidence_id","digest","status"] []
  checkIdentifier (get entry "evidence_id") (indexed "evidence" i ++ ".evidence_id")
  checkSha (get entry "digest") (indexed "evidence" i ++ ".digest")
  let status ← checkString (get entry "status") (indexed "evidence" i ++ ".status")
  require (status ∈ evidenceStatuses) (indexed "evidence" i ++ ".status is invalid")
  require (status = "verified") (indexed "evidence" i ++ " is " ++ status)

def evidenceErrors : ℕ → List Json → List String
  | _, [] => []
  | i, x :: xs => match checkEvidence i x with
    | .error e => e :: evidenceErrors (i + 1) xs
    | .ok () => evidenceErrors (i + 1) xs

def validateEvidence (v : Json) : Except String (ℕ × List String) :=
  (checkNonEmpty v "evidence must be a non-empty array").map fun xs => (xs.length,evidenceErrors 0 xs)

def evidenceIdsOf (v : Json) : List String :=
  v.items.filterMap fun item => (item.fields.lookup "evidence_id").map o.text

def whenThere (f : Json → Except String Unit) (key : String) (fs : Fields) : Except String Unit := match fs.lookup key with
  | none => .ok ()
  | some v => f v

def checkDropReason (i : ℕ) (v : Json) : Except String Unit := do
  let item ← requiredObject v (indexed "drop_reasons" i) ["candidate_id","code"] ["evidence_id"]
  checkIdentifier (get item "candidate_id") (indexed "drop_reasons" i ++ ".candidate_id")
  checkIdentifier (get item "code") (indexed "drop_reasons" i ++ ".code")
  whenThere (checkIdentifier · (indexed "drop_reasons" i ++ ".evidence_id")) "evidence_id" item

def checkReasonEvidence (ids : List String) (i : ℕ) (v : Json) : Except String Unit :=
  whenThere (checkAmong o ids · (indexed "drop_reasons" i ++ " references unavailable evidence")) "evidence_id" v.fields

def checkEvidenceRef (ids : List String) (name : String) (v : Json) : Except String Unit := do
  checkIdentifier v (name ++ ".evidence_refs")
  checkAmong o ids v (name ++ " references unavailable evidence " ++ o.text v)

def checkClaim (ids seen : List String) (i : ℕ) (v : Json) : Except String String := do
  let item ← requiredObject v (indexed "claims" i) ["claim_id","status","claim_hash","receipt_refs","evidence_refs"] ["supersedes"]
  checkIdentifier (get item "claim_id") (indexed "claims" i ++ ".claim_id")
  let claimId ← checkString (get item "claim_id") (indexed "claims" i ++ ".claim_id")
  require (claimId ∉ seen) (indexed "claims" i ++ " duplicates claim_id")
  checkAmong o claimStatuses (get item "status") (indexed "claims" i ++ ".status is invalid")
  checkSha (get item "claim_hash") (indexed "claims" i ++ ".claim_hash")
  let refs ← checkArray (get item "receipt_refs") (indexed "claims" i ++ " references must be arrays")
  let evidenceRefs ← checkArray (get item "evidence_refs") (indexed "claims" i ++ " references must be arrays")
  require (¬(refs = [] ∧ evidenceRefs = [])) (indexed "claims" i ++ " must reference a receipt or evidence")
  each (fun _ ref => checkIdentifier ref (indexed "claims" i ++ ".receipt_refs")) 0 refs
  each (fun _ ref => checkEvidenceRef o ids (indexed "claims" i) ref) 0 evidenceRefs
  whenThere (checkIdentifier · (indexed "claims" i ++ ".supersedes")) "supersedes" item
  whenThere (checkAmong o (claimId :: seen) · (indexed "claims" i ++ " supersedes unavailable claim")) "supersedes" item
  return claimId

def checkClaimItems (ids : List String) : List String → ℕ → List Json → Except String Unit
  | _, _, [] => .ok ()
  | seen, i, v :: vs => do
    let claimId ← checkClaim o ids seen i v
    checkClaimItems ids (claimId :: seen) (i + 1) vs

/-! ### Receipts -/

def protectedFields : List String :=
  ["schema_version","receipt_id","task_id","request_id","policy_version","input_hash","context_hash","eligible_candidates",
   "selected_route","drop_reasons","source_references","evidence","timestamps","claims"]

def receiptFields : List String := protectedFields ++ ["integrity"]

def checkHead (v : Json) : Except String (Fields × String) := do
  let payload ← requiredObject v "receipt" receiptFields []
  require (get payload "schema_version" = .str SCHEMA_VERSION) "unsupported receipt schema_version"
  checkIdentifier (get payload "receipt_id") "receipt_id"
  let receiptId ← checkString (get payload "receipt_id") "receipt_id"
  return (payload,receiptId)

def checkSelected (v : Json) : Except String Unit := if v = .null then .ok () else checkIdentifier v "selected_route"

def checkRouting (payload : Fields) : Except String Unit := do
  let candidates ← checkNonEmpty (get payload "eligible_candidates") "eligible_candidates must be a non-empty array"
  each (fun i c => checkIdentifier c (indexed "eligible_candidates" i)) 0 candidates
  checkSelected (get payload "selected_route")
  let reasons ← checkArray (get payload "drop_reasons") "drop_reasons must be an array"
  each checkDropReason 0 reasons
  require (¬(get payload "selected_route" = .null ∧ reasons = [])) "a denial must include at least one drop reason"
  require (get payload "selected_route" = .null ∨ get payload "selected_route" ∈ candidates)
    "selected_route must be one of eligible_candidates"

def checkBody (payload : Fields) : Except String Unit := do
  checkIdentifier (get payload "task_id") "task_id"
  checkIdentifier (get payload "request_id") "request_id"
  checkIdentifier (get payload "policy_version") "policy_version"
  checkSha (get payload "input_hash") "input_hash"
  checkSha (get payload "context_hash") "context_hash"
  checkRouting payload
  let sources ← checkNonEmpty (get payload "source_references") "source_references must be a non-empty array"
  each (checkSource o) 0 sources

def checkTimestamps (v : Json) : Except String Unit := do
  let times ← requiredObject v "timestamps" ["created_at","decision_at"] ["verified_at"]
  each (fun _ e => checkTimestamp o e.2 ("timestamps." ++ e.1)) 0 times

def protectedOf (payload : Fields) : Fields := protectedFields.map fun key => (key,get payload key)

def checkIntegrity (payload : Fields) : Except String Unit := do
  let integrity ← requiredObject (get payload "integrity") "integrity" ["algorithm","receipt_digest"] []
  require (get integrity "algorithm" = .str "sha256") "integrity.algorithm must be sha256"
  checkSha (get integrity "receipt_digest") "integrity.receipt_digest"
  require (get integrity "receipt_digest" = .str (canonicalHash o (.obj (protectedOf payload))).text) "receipt integrity digest mismatch"

def checkTail (payload : Fields) : Except String Unit := do
  each (checkReasonEvidence o (evidenceIdsOf o (get payload "evidence"))) 0 (get payload "drop_reasons").items
  checkTimestamps o (get payload "timestamps")
  let claims ← checkArray (get payload "claims") "claims must be an array"
  checkClaimItems o (evidenceIdsOf o (get payload "evidence")) [] 0 claims
  checkIntegrity o payload

structure VerificationResult where
  receiptId : Option String := none
  errors : List String := []
  checkedEvidence : ℕ := 0

def VerificationResult.valid (r : VerificationResult) : Bool := r.errors.isEmpty

def errorsOf : Except String Unit → List String
  | .ok () => []
  | .error e => [e]

def validateReceipt (v : Json) : VerificationResult := match checkHead v with
  | .error e => {errors := [e]}
  | .ok (payload,receiptId) => match checkBody o payload with
    | .error e => {receiptId := some receiptId, errors := [e]}
    | .ok () => match validateEvidence (get payload "evidence") with
      | .error e => {receiptId := some receiptId, errors := [e]}
      | .ok (checked,errors) =>
        {receiptId := some receiptId, errors := errors ++ errorsOf (checkTail o payload), checkedEvidence := checked}

variable (text : JsonText.Library)

def load : Json → Except String Json
  | .str s => match text.loads s.toList with
    | .ok (.obj fs) => .ok (.obj fs)
    | .ok _ => .error "receipt must be a JSON object"
    | .error e => .error e
  | .obj fs => .ok (.obj fs)
  | _ => .error "receipt must be a JSON object"

def verifySerializedReceipt (v : Json) : VerificationResult := match load text v with
  | .error e => {errors := ["malformed receipt: " ++ e]}
  | .ok payload => validateReceipt o payload

def checkManifest (v : Json) : Except String (List Json) := do
  let payload ← load text v
  let manifest ← requiredObject payload "manifest" ["schema_version","receipts","manifest_digest"] []
  require (get manifest "schema_version" = .str SCHEMA_VERSION) "unsupported manifest schema_version"
  let receipts ← checkNonEmpty (get manifest "receipts") "manifest receipts must be a non-empty array"
  checkSha (get manifest "manifest_digest") "manifest_digest"
  require (get manifest "manifest_digest" = .str (canonicalHash o (.arr receipts)).text) "manifest integrity digest mismatch"
  return receipts

def joinResults : ℕ → List VerificationResult → VerificationResult
  | _, [] => {}
  | i, r :: rs =>
    {receiptId := r.receiptId.or (joinResults (i + 1) rs).receiptId
     errors := r.errors.map (indexed "receipts" i ++ ": " ++ ·) ++ (joinResults (i + 1) rs).errors
     checkedEvidence := r.checkedEvidence + (joinResults (i + 1) rs).checkedEvidence}

def verifySerializedManifest (v : Json) : VerificationResult := match checkManifest o text v with
  | .error e => {errors := ["malformed manifest: " ++ e]}
  | .ok receipts => joinResults 0 (receipts.map (verifySerializedReceipt o text))

end Verdict.Proof

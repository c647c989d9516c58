import Verdict.Admission.Evidence
import Verdict.Basics.JsonCodec
import Verdict.Basics.Raising

/-! # Lifecycle events

The contract of the memory package: `EventIdentity` and `LifecycleEvent`, their digests and
their JSON form. An event carries what its constructor has checked. A canonical JSON text is
represented by the canonical value that it prints.
-/
namespace Verdict.Memory
open JsonCodec
open Raising
open Admission (strip)

structure Sha where
  text : String → String
  json : Json → String

/-- A `ValueError` with its message, or a `TypeError`: an argument is missing or of another type. -/
inductive EventError
  | value (message : String)
  | type

def LIFECYCLE_EVENT_SCHEMA : String := "lifecycle-event/v1"
def SHARED_MEMORY_PROTOCOL_VERSION : String := "1"

inductive EventKind
  | sessionStart | beforeFirstModelTurn | beforeTool | afterTool | afterEdit | subagentStart | subagentEnd
  | beforeCompact | beforeYield | verificationResult | sessionEnd | resume | handoff | manualCapture

def EventKind.text : EventKind → String
  | .sessionStart => "session_start"
  | .beforeFirstModelTurn => "before_first_model_turn"
  | .beforeTool => "before_tool"
  | .afterTool => "after_tool"
  | .afterEdit => "after_edit"
  | .subagentStart => "subagent_start"
  | .subagentEnd => "subagent_end"
  | .beforeCompact => "before_compact"
  | .beforeYield => "before_yield"
  | .verificationResult => "verification_result"
  | .sessionEnd => "session_end"
  | .resume => "resume"
  | .handoff => "handoff"
  | .manualCapture => "manual_capture"

def allowedEventKinds : List EventKind :=
  [.sessionStart,.beforeFirstModelTurn,.beforeTool,.afterTool,.afterEdit,.subagentStart,.subagentEnd,.beforeCompact,
    .beforeYield,.verificationResult,.sessionEnd,.resume,.handoff,.manualCapture]

def eventKindAliases : List (String × EventKind) :=
  [("before_turn",.beforeFirstModelTurn),("compaction",.beforeCompact)]

def canonKind (kind : String) : String := ((eventKindAliases.lookup kind).map EventKind.text).getD kind

def Allowed (kind : String) : Prop := kind ∈ allowedEventKinds.map EventKind.text

instance (kind : String) : Decidable (Allowed kind) := inferInstanceAs (Decidable (_ ∈ _))

def Scalar.isNumber : Scalar → Bool
  | .int _ | .float _ | .negZero | .nan | .inf | .negInf => true
  | _ => false

structure Number where
  scalar : Scalar
  isNumber : Scalar.isNumber scalar = true

structure EventIdentity where
  (sourceHarness project sessionId : String)
  parentSessionId : Option String := none
  attemptId : Option String := none
  sourceEventId : Option String := none
  tenant : String := "default"
  workspace : String := "default"
  sourceAgent : String := "unknown"

structure EventArgs where
  (kind content : String)
  identity : EventIdentity
  createdAt : Number
  contentHash : String := ""
  observedAt : Option Number := none
  scope : String := "default"
  memoryKind : String := "memory"
  sensitivity : String := "standard"
  trust : String := "remote-advisory"
  classification : String := "source"
  derivedFrom : List String := []
  provenance : Fields := []
  payload : Fields := []
  metadata : Fields := []
  revision : String := "1"
  schemaVersion : String := LIFECYCLE_EVENT_SCHEMA
  protocolVersion : String := SHARED_MEMORY_PROTOCOL_VERSION
  idempotencyKey : String := ""
  deadlineAt : Option Number := none

structure LifecycleEvent (sha : Sha) extends EventArgs where
  allowed : Allowed kind
  schema : schemaVersion = LIFECYCLE_EVENT_SCHEMA
  protocol : protocolVersion = SHARED_MEMORY_PROTOCOL_VERSION
  required : content ≠ "" ∧ identity.project ≠ "" ∧ identity.sessionId ≠ ""
  classified : classification = "source" ∨ classification = "derived"
  hashed : contentHash = sha.text content

/-! ### JSON -/

def numberCodec : Codec Number where
  encode n := .scalar n.scalar
  decode
    | .scalar s => if h : Scalar.isNumber s = true then some ⟨s,h⟩ else none
    | _ => none
  settled := id
  roundTrip n := by
    simp only [Json.canon,dif_pos n.isNumber]
    rfl

def nullable {α : Type} (c : Codec α) (h : ∀ a, c.encode a ≠ .null) : Codec (Option α) where
  encode
    | some a => c.encode a
    | none => .null
  decode j := if j = .null then some none else (c.decode j).map some
  settled := Option.map c.settled
  roundTrip
    | none => if_pos rfl
    | some a => by
      have hne : Json.canon (c.encode a) ≠ .null := by
        cases hj : c.encode a with
        | scalar s => exact fun hnull => h a (hj.trans hnull)
        | arr xs => exact Json.noConfusion
        | obj fs => exact Json.noConfusion
      simp only [if_neg hne,c.roundTrip,Option.map_some]

theorem numberCodec_ne_null (n : Number) : numberCodec.encode n ≠ .null := by
  intro h
  have hnumber := n.isNumber
  rw [show n.scalar = .null from Json.scalar.inj h] at hnumber
  cases hnumber

def clock : Codec (Option Number) := nullable numberCodec numberCodec_ne_null

@[simp] theorem settled_clock : clock.settled = id := Option.map_id

namespace EventIdentity

def entries (i : EventIdentity) : List (String × Option Json) :=
  [field "source_harness" string i.sourceHarness,field "project" string i.project,field "session_id" string i.sessionId,
    field "parent_session_id" nullableString i.parentSessionId,field "attempt_id" nullableString i.attemptId,
    field "source_event_id" nullableString i.sourceEventId,field "tenant" string i.tenant,
    field "workspace" string i.workspace,field "source_agent" string i.sourceAgent]

def toDict (i : EventIdentity) : Fields := record i.entries

end EventIdentity

namespace EventArgs

variable (e : EventArgs)

/-- `_digest_payload`. -/
def digestEntries : List (String × Option Json) :=
  [field "schema_version" string e.schemaVersion,field "protocol_version" string e.protocolVersion,
    field "kind" string e.kind,field "content_hash" string e.contentHash,field "identity" object e.identity.toDict,
    field "created_at" numberCodec e.createdAt,field "scope" string e.scope,field "memory_kind" string e.memoryKind,
    field "sensitivity" string e.sensitivity,field "trust" string e.trust,field "classification" string e.classification,
    field "derived_from" (JsonCodec.list string) e.derivedFrom,field "revision" string e.revision,
    field "provenance" object e.provenance,field "payload" object e.payload,field "metadata" object e.metadata]

def digestPayload : Fields := record e.digestEntries

def entries : List (String × Option Json) :=
  [field "schema_version" string e.schemaVersion,field "protocol_version" string e.protocolVersion,
    field "kind" string e.kind,field "content" string e.content,field "content_hash" string e.contentHash,
    field "identity" object e.identity.toDict,field "created_at" numberCodec e.createdAt,
    field "observed_at" clock e.observedAt,field "scope" string e.scope,field "memory_kind" string e.memoryKind,
    field "sensitivity" string e.sensitivity,field "trust" string e.trust,field "classification" string e.classification,
    field "derived_from" (JsonCodec.list string) e.derivedFrom,field "provenance" object e.provenance,
    field "payload" object e.payload,field "metadata" object e.metadata,field "revision" string e.revision,
    field "idempotency_key" string e.idempotencyKey,field "deadline_at" clock e.deadlineAt]

def toDict : Fields := record e.entries

end EventArgs

/-- The canonical text, unless a number is not finite. -/
def canonicalize (value : Json) : Except EventError Json :=
  if value.allFinite = true then .ok value.canon
  else .error (.value "non-finite floats are not allowed in canonical JSON")

section Digests
variable (sha : Sha)

def eventDigest (payload : Fields) : Except EventError String := (canonicalize (.obj payload)).map sha.json

def sourceIdempotencyKey (schemaVersion protocolVersion sourceHarness project workspace tenant sessionId sourceEventId : String) :
    Except EventError String :=
  if strip sourceEventId = "" then .error (.value "source_event_id is required for source_idempotency_key")
  else if strip sessionId = "" then .error (.value "session_id is required for source_idempotency_key")
  else if strip project = "" ∨ strip sourceHarness = "" then
    .error (.value "project and source_harness are required for source_idempotency_key")
  else eventDigest sha
    [("schema_version",.str schemaVersion),("protocol_version",.str protocolVersion),("source_harness",.str sourceHarness),
      ("project",.str project),("workspace",.str workspace),("tenant",.str tenant),("session_id",.str sessionId),
      ("source_event_id",.str sourceEventId)]

namespace EventArgs

variable (e : EventArgs)

def sourceId : Option String := e.identity.sourceEventId.filter fun id => strip id ≠ ""

def digest : Except EventError String := eventDigest sha e.digestPayload

def contentFingerprint : Except EventError String :=
  eventDigest sha (if e.sourceId.isSome then e.digestPayload.filter fun field => field.1 ≠ "created_at" else e.digestPayload)

def derivedKey : Except EventError String := match e.sourceId with
  | some id => sourceIdempotencyKey sha e.schemaVersion e.protocolVersion e.identity.sourceHarness e.identity.project
      e.identity.workspace e.identity.tenant e.identity.sessionId id
  | none => e.digest sha

end EventArgs

/-- The checks of `__post_init__`. -/
def check (a : EventArgs) : Except EventError (LifecycleEvent sha) :=
  if hkind : ¬Allowed (canonKind a.kind) then .error (.value ("unsupported event kind: " ++ canonKind a.kind))
  else if hschema : a.schemaVersion ≠ LIFECYCLE_EVENT_SCHEMA then
    .error (.value ("unsupported schema_version: " ++ a.schemaVersion))
  else if hprotocol : a.protocolVersion ≠ SHARED_MEMORY_PROTOCOL_VERSION then
    .error (.value ("unsupported protocol_version: " ++ a.protocolVersion))
  else if hrequired : ¬(a.content ≠ "" ∧ a.identity.project ≠ "" ∧ a.identity.sessionId ≠ "") then
    .error (.value "content, project, and session_id are required")
  else if hclass : ¬(a.classification = "source" ∨ a.classification = "derived") then
    .error (.value "classification must be 'source' or 'derived'")
  else if a.contentHash ≠ "" ∧ a.contentHash ≠ sha.text a.content then
    .error (.value "content_hash does not match content")
  else .ok {a with
    kind := canonKind a.kind, contentHash := sha.text a.content
    allowed := not_not.mp hkind, schema := not_not.mp hschema, protocol := not_not.mp hprotocol
    required := not_not.mp hrequired, classified := not_not.mp hclass, hashed := rfl}

def withKey (e : LifecycleEvent sha) : Except EventError (LifecycleEvent sha) :=
  if e.idempotencyKey ≠ "" then .ok e else (e.derivedKey sha).map fun key => {e with idempotencyKey := key}

def construct (a : EventArgs) : Except EventError (LifecycleEvent sha) := Except.bind (check sha a) (withKey sha)

/-! ### Reading -/

def typed {α : Type} : Option α → Except EventError α
  | some a => .ok a
  | none => .error .type

variable (key : String)

def needText (fs : Fields) : Except EventError String := typed (need string key fs)

def readText (key default : String) (fs : Fields) : Except EventError String :=
  (typed (find string key fs)).map fun text => text.getD default

def readId (fs : Fields) : Except EventError (Option String) :=
  (typed (find nullableString key fs)).map Option.join

def readClock (fs : Fields) : Except EventError (Option Number) :=
  (typed (find clock key fs)).map Option.join

def readObject (fs : Fields) : Except EventError Fields :=
  (typed (find object key fs)).map fun fields => fields.getD []

variable (fs : Fields)

/-- `EventIdentity(**id_raw)`; only known keys are looked up. -/
def readIdentity : Except EventError EventIdentity := do
  let sourceHarness ← needText "source_harness" fs
  let project ← needText "project" fs
  let sessionId ← needText "session_id" fs
  let parentSessionId ← readId "parent_session_id" fs
  let attemptId ← readId "attempt_id" fs
  let sourceEventId ← readId "source_event_id" fs
  let tenant ← readText "tenant" "default" fs
  let workspace ← readText "workspace" "default" fs
  let sourceAgent ← readText "source_agent" "unknown" fs
  return {
    sourceHarness := sourceHarness, project := project, sessionId := sessionId, parentSessionId := parentSessionId
    attemptId := attemptId, sourceEventId := sourceEventId, tenant := tenant, workspace := workspace
    sourceAgent := sourceAgent }

/-- `tuple(raw.get("derived_from") or ())`. -/
def readDerivedFrom : Except EventError (List String) := match fs.lookup "derived_from" with
  | none | some (.scalar .null) => .ok []
  | some j => typed ((JsonCodec.list string).decode j)

/-- The arguments that `from_dict` passes; only known keys are looked up. -/
def readArgs : Except EventError EventArgs := do
  let identity ← typed (need object "identity" fs) >>= readIdentity
  let derivedFrom ← readDerivedFrom fs
  let kind ← needText "kind" fs
  let content ← needText "content" fs
  let createdAt ← typed (need numberCodec "created_at" fs)
  let contentHash ← readText "content_hash" "" fs
  let observedAt ← readClock "observed_at" fs
  let scope ← readText "scope" "default" fs
  let memoryKind ← readText "memory_kind" "memory" fs
  let sensitivity ← readText "sensitivity" "standard" fs
  let trust ← readText "trust" "remote-advisory" fs
  let classification ← readText "classification" "source" fs
  let provenance ← readObject "provenance" fs
  let payload ← readObject "payload" fs
  let metadata ← readObject "metadata" fs
  let revision ← readText "revision" "1" fs
  let schemaVersion ← readText "schema_version" LIFECYCLE_EVENT_SCHEMA fs
  let protocolVersion ← readText "protocol_version" SHARED_MEMORY_PROTOCOL_VERSION fs
  let idempotencyKey ← readText "idempotency_key" "" fs
  let deadlineAt ← readClock "deadline_at" fs
  return {
    kind := kind, content := content, identity := identity, createdAt := createdAt, contentHash := contentHash
    observedAt := observedAt, scope := scope, memoryKind := memoryKind, sensitivity := sensitivity, trust := trust
    classification := classification, derivedFrom := derivedFrom, provenance := provenance, payload := payload
    metadata := metadata, revision := revision, schemaVersion := schemaVersion, protocolVersion := protocolVersion
    idempotencyKey := idempotencyKey, deadlineAt := deadlineAt }

def fromDict : Except EventError (LifecycleEvent sha) := Except.bind (readArgs fs) (construct sha)

def toCanonicalJson (e : LifecycleEvent sha) : Except EventError Json := canonicalize (.obj e.toDict)

/-- `loads_lifecycle_event`, of a text that parses to the value. -/
def loadsLifecycleEvent : Json → Except EventError (LifecycleEvent sha)
  | .obj fs => fromDict sha fs
  | _ => .error .type

end Digests
end Verdict.Memory

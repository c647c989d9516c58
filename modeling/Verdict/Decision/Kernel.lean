import Mathlib.Data.List.Dedup
import Mathlib.Data.List.Infix
import Mathlib.Data.List.Sort
import Mathlib.Data.Prod.Lex
import Verdict.Basics.PyJson

/-! # The decision kernel

A decision filters the candidates by capability and by availability, lets an advisory ranker
reorder what is left, and binds the outcome to its inputs by an id and a receipt. Nothing is
kept: whoever has the inputs can compute the decision again.
-/
namespace Verdict.Decision
open Json

/-- What the kernel calls of the language and of `fingerprint_text`; `dumps` is given values
with sorted fields. -/
structure Outside where
  (stripLower lower : String → String)
  repr : List String → String
  dumps : Json → String
  fingerprint : String → String

/-! ### Candidates and their availability -/

/-- A catalog entry; the capabilities are in the order in which their set is walked, and
`rest` holds the columns that no decision reads. -/
structure ModelInfo where
  (id provider : String)
  capabilityTier : ℤ := 2
  model : String
  capabilities : List String := []
  availabilityState : String := "eligible"
  rest : Fields := []
  distinct : capabilities.Nodup := by decide
  deriving DecidableEq

inductive AvailabilityState
  | eligible | degraded | unknown | unavailable | denied | quarantined | quotaExhausted | rateLimited | unauthorized
  | lockedOut | circuitOpen | timeout | malformed | capabilityMismatch | policyDenied

def AvailabilityState.value : AvailabilityState → String
  | .eligible => "eligible"
  | .degraded => "degraded"
  | .unknown => "unknown"
  | .unavailable => "unavailable"
  | .denied => "denied"
  | .quarantined => "quarantined"
  | .quotaExhausted => "quota_exhausted"
  | .rateLimited => "rate_limited"
  | .unauthorized => "unauthorized"
  | .lockedOut => "locked_out"
  | .circuitOpen => "circuit_open"
  | .timeout => "timeout"
  | .malformed => "malformed"
  | .capabilityMismatch => "capability_mismatch"
  | .policyDenied => "policy_denied"

structure AvailabilityCandidate where
  modelId : String
  state : AvailabilityState
  source : String := "unknown"

structure AvailabilityReport where
  (candidates eligible : List AvailabilityCandidate)
  source : String
  errors : List String := []

abbrev Truth := String → Option AvailabilityReport

structure TaskSpec where
  (objective taskType : String)
  capabilities : List String := []
  requiredCapabilities : List String := []
  tools : List String := []
  privacy : String := "unknown"
  risk : String := "unknown"
  approvals : List String := []

inductive EligibilityVerdict
  | eligible | notLiveEligible | runtimeTruthAbsent | notRequestedTier

def EligibilityVerdict.value : EligibilityVerdict → String
  | .eligible => "eligible"
  | .notLiveEligible => "not_live_eligible"
  | .runtimeTruthAbsent => "runtime_truth_absent"
  | .notRequestedTier => "not_requested_tier"

structure EligibilityRecord where
  (modelId provider : String)
  admitted : Bool
  verdict : EligibilityVerdict
  (state source : String)
  reason : Option String := none

structure EligibilityResult where
  admitted : List ModelInfo := []
  records : List EligibilityRecord := []

/-! ### The gates -/

def capabilityAliases : List (String × String) :=
  [("function-calling","tools"),("function_calling","tools"),("tool-calling","tools"),("tool_calling","tools"),
   ("json","structured_output"),("structured-output","structured_output")]

def canonicalCapability (o : Outside) (value : String) : String :=
  (capabilityAliases.lookup (o.stripLower value)).getD (o.stripLower value)

/-- `value or "unknown"`. -/
def orUnknown (text : String) : String := if text = "" then "unknown" else text

def missingCapabilities (o : Outside) (required : List String) (m : ModelInfo) : List String :=
  (((required.map (canonicalCapability o)).dedup).filter fun c => c ∉ m.capabilities.map (canonicalCapability o)).insertionSort (· ≤ ·)

def capabilityRecord (m : ModelInfo) (missing : List String) : EligibilityRecord where
  modelId := m.id
  provider := orUnknown m.provider
  admitted := false
  verdict := .notRequestedTier
  state := "missing_capability"
  source := "capability_gate"
  reason := some ("missing capability: " ++ ", ".intercalate missing)

def capabilityGate (o : Outside) (candidates : List ModelInfo) (required : List String) : List ModelInfo × List EligibilityRecord :=
  (candidates.filter fun m => (missingCapabilities o required m).isEmpty,
   (candidates.filter fun m => !(missingCapabilities o required m).isEmpty).map fun m =>
     capabilityRecord m (missingCapabilities o required m))

def stateFor (report : Option AvailabilityReport) (modelId : String) : String × String := match report with
  | none => ("unknown","cache")
  | some report => match report.candidates.find? (·.modelId = modelId) with
    | some c => (c.state.value,c.source)
    | none => ("unknown",report.source)

structure EligibilityGate where
  availabilitySource : Option Truth
  protectedFailClosed : Bool := true
  allowUnverifiedInDev : Bool := false

def unverifiedStates : List String := ["unknown","error","unavailable","timeout","malformed","unauthorized"]

def EligibilityGate.judge (g : EligibilityGate) (isProtected devMode : Bool) (m : ModelInfo) : EligibilityRecord :=
  let provider := orUnknown m.provider
  match g.availabilitySource with
  | none =>
    if isProtected && g.protectedFailClosed then
      ⟨m.id,provider,false,.runtimeTruthAbsent,"unknown","cache",some "protected work: availability cache not configured"⟩
    else ⟨m.id,provider,true,.eligible,m.availabilityState,"catalog",none⟩
  | some truth =>
    let report := truth m.id
    let (state,source) := stateFor report m.id
    let detail := match report.bind (·.errors.head?) with
      | some e => " (" ++ e ++ ")"
      | none => ""
    if (report.elim [] (·.eligible)).any fun c => c.modelId = m.id ∧ c.modelId ≠ "" then
      ⟨m.id,provider,true,.eligible,state,source,some "adapter eligibility verdict"⟩
    else if state = AvailabilityState.eligible.value then ⟨m.id,provider,true,.eligible,state,source,none⟩
    else if state ∈ unverifiedStates then
      if isProtected && g.protectedFailClosed then
        ⟨m.id,provider,false,.runtimeTruthAbsent,state,source,some ("protected work: live availability " ++ state ++ detail)⟩
      else if devMode && g.allowUnverifiedInDev && !isProtected then
        ⟨m.id,provider,true,.notLiveEligible,state,source,some ("dev mode admits unverified candidate (" ++ state ++ ")")⟩
      else ⟨m.id,provider,false,.runtimeTruthAbsent,state,source,some ("live availability " ++ state ++ detail)⟩
    else ⟨m.id,provider,false,.notLiveEligible,state,source,some ("candidate excluded: " ++ state)⟩

/-- `EligibilityGate.evaluate`. -/
def EligibilityGate.evaluate (g : EligibilityGate) (candidates : List ModelInfo) (isProtected devMode : Bool) : EligibilityResult where
  admitted := candidates.filter fun m => (g.judge isProtected devMode m).admitted
  records := candidates.map (g.judge isProtected devMode)

/-! ### Advice -/

abbrev Ranker := EligibilityResult → TaskSpec → Option (List ModelInfo)

inductive RankerMode
  | static | semantic | shadowAdaptive

/-- `{m.id: m for m in admitted}`: of two entries with an id the later one is kept. -/
def admittedById (admitted : List ModelInfo) (id : String) : Option ModelInfo := (admitted.filter (·.id = id)).getLast?

def rankingCandidates (result : EligibilityResult) : List ModelInfo :=
  result.records.filterMap fun r => if r.admitted then admittedById result.admitted r.modelId else none

def staticKey (m : ModelInfo) : Lex (ℤ × Lex (ℤ × String)) := toLex (-m.capabilityTier,toLex (-(m.capabilities.length : ℤ),m.id))

def staticRank (candidates : List ModelInfo) : List ModelInfo := candidates.insertionSort fun a b => staticKey a ≤ staticKey b

def semanticBoost (o : Outside) (spec : TaskSpec) (m : ModelInfo) : ℕ :=
  m.capabilities.countP fun c => (o.lower c).toList <:+: (o.lower (o.repr spec.capabilities)).toList

def semanticRank (o : Outside) (spec : TaskSpec) (candidates : List ModelInfo) : List ModelInfo :=
  (staticRank candidates).insertionSort fun a b => semanticBoost o spec b ≤ semanticBoost o spec a

/-- `AdaptiveRanker.rank`; the adaptive mode notes what it saw and answers as the semantic one. -/
def adaptiveRanker (o : Outside) (mode : RankerMode) : Ranker := fun result spec =>
  let candidates := rankingCandidates result
  some (match mode with
    | .static => staticRank candidates
    | .semantic | .shadowAdaptive => semanticRank o spec candidates)

structure AdvisoryInput where
  ranker : Option Ranker := none
  label : Option String := none

/-- What advice makes of the admitted list: the ranked entries whose ids are admitted, and the
admitted ones whose ids the ranker left out. -/
def reorder (o : Outside) (result : EligibilityResult) (spec : TaskSpec) (a : AdvisoryInput) : List ModelInfo :=
  let ranked := ((a.ranker.getD (adaptiveRanker o .shadowAdaptive)) result spec).getD result.admitted
  (ranked.filter fun m => m.id ∈ result.admitted.map ModelInfo.id) ++
    result.admitted.filter fun m => m.id ∉ ranked.map ModelInfo.id

/-! ### Canonical values -/

inductive CanonicalError
  | nonFinite | magnitude

def canonicalFloat (q : ℚ) : Except CanonicalError Json :=
  if 10 ^ 16 ≤ |q| then .error .magnitude
  else if q.den = 1 then .ok (.int q.num)
  else .ok (.float q)

def canonicalScalar : Scalar → Except CanonicalError Json
  | .float q => canonicalFloat q
  | .negZero => .ok (.int 0)
  | .nan | .inf | .negInf => .error .nonFinite
  | .null => .ok .null
  | .bool b => .ok (.bool b)
  | .int n => .ok (.int n)
  | .str s => .ok (.str s)

mutual

def canonical : Json → Except CanonicalError Json
  | .scalar s => canonicalScalar s
  | .arr xs => (canonicalList xs).map .arr
  | .obj fs => (canonicalFields fs).map .obj

def canonicalList : List Json → Except CanonicalError (List Json)
  | [] => .ok []
  | x :: xs => do
    let y ← canonical x
    let ys ← canonicalList xs
    return y :: ys

def canonicalFields : Fields → Except CanonicalError Fields
  | [] => .ok []
  | (k,v) :: fs => do
    let w ← canonical v
    let gs ← canonicalFields fs
    return (k,w) :: gs

end

def strings (xs : List String) : Json := .arr (xs.map .str)

/-- `fingerprint_text(json.dumps(value, sort_keys=True))`. -/
def fingerprintJson (o : Outside) (j : Json) : String := o.fingerprint (o.dumps j.canon)

def canonicalTaskSpec (o : Outside) (spec : TaskSpec) : String :=
  o.dumps (canon (.obj [("objective",.str spec.objective),("task_type",.str spec.taskType),
    ("required_capabilities",strings spec.requiredCapabilities),("tools",strings spec.tools),("privacy",.str spec.privacy),
    ("risk",.str spec.risk),("approvals",strings spec.approvals)]))

def modelIdentity (m : ModelInfo) : Json :=
  .obj [("id",.str m.id),("provider",.str m.provider),("model",.str m.model),("capabilities",strings m.capabilities)]

def candidateCatalogDigest (o : Outside) (candidates : List ModelInfo) : String :=
  fingerprintJson o (.arr (candidates.map modelIdentity))

/-! ### The decision -/

def outcomeAccepted : String := "accepted"
def outcomeDegraded : String := "degraded"
def outcomeDenied : String := "denied"

def composeOutcome (admitted : List ModelInfo) (records : List EligibilityRecord) (preferred : Option String) : String × String :=
  if admitted.isEmpty then
    if !records.isEmpty && records.all (!·.admitted) then (outcomeDenied,"denied:all_candidates_hard_blocked")
    else (outcomeDenied,"denied:no_eligible_candidate")
  else match preferred with
    | some id =>
      if (records.any fun r => r.modelId = id ∧ r.admitted = false) ∧ id ∉ admitted.map ModelInfo.id then
        (outcomeDegraded,"degraded:preferred_candidate_fail_closed")
      else (outcomeAccepted,"accepted:all_gates_green")
    | none => (outcomeAccepted,"accepted:all_gates_green")

def preferredId (admitted : List ModelInfo) (records : List EligibilityRecord) : Option String :=
  match records with
  | r :: _ => some r.modelId
  | [] => admitted.head?.map ModelInfo.id

def exclusionProjection (r : EligibilityRecord) : Json :=
  .obj [("model_id",.str r.modelId),("provider",.str r.provider),("verdict",.str r.verdict.value),("state",.str r.state),
    ("source",.str r.source),("reason",(r.reason.map Json.str).getD .null)]

structure DecisionReceipt where
  (decisionId canonicalTaskSpec policyVersion candidateCatalogDigest : String)
  admittedSet : List String
  exclusions : List Json
  (outcome integrityDigest : String)
  advisoryConsulted : Option String

structure RouteContract where
  selectedRoute : Option (String × String)
  admittedIds : List String
  exclusions : List Json
  (explanation policyVersion decisionId : String)
  receipt : DecisionReceipt

structure DecisionRecord where
  (decisionId taskSpecCanonical policyVersion outcome : String)
  admitted : List ModelInfo
  exclusions : List Json
  receipt : DecisionReceipt
  routeContract : RouteContract
  (isProtected devMode : Bool)

def receiptSignature (r : DecisionReceipt) : Json :=
  .obj [("decision_id",.str r.decisionId),("canonical_task_spec",.str r.canonicalTaskSpec),("policy_version",.str r.policyVersion),
    ("candidate_catalog_digest",.str r.candidateCatalogDigest),("admitted_set",strings r.admittedSet),("exclusions",.arr r.exclusions),
    ("outcome",.str r.outcome),("advisory_consulted",(r.advisoryConsulted.map Json.str).getD .null)]

def receiptDigest (o : Outside) (r : DecisionReceipt) : Except CanonicalError String :=
  (canonical (receiptSignature r)).map (fingerprintJson o)

def stampReceiptDigest (o : Outside) (r : DecisionReceipt) : Except CanonicalError DecisionReceipt :=
  (receiptDigest o r).map fun digest => {r with integrityDigest := digest}

/-- `_compute_decision_id` binds which candidates are admitted, not their order. -/
def computeDecisionId (o : Outside) (spec policyVersion catalogDigest : String) (admittedIds : List String) (exclusions : List Json) :
    Except CanonicalError String :=
  (canonical (.arr exclusions)).map fun exclusions =>
    fingerprintJson o (.obj [("canonical_task_spec",.str spec),("policy_version",.str policyVersion),
      ("candidate_catalog_digest",.str catalogDigest),("admitted_set",strings (admittedIds.dedup.insertionSort (· ≤ ·))),
      ("exclusions",exclusions)])

structure Inputs where
  taskSpec : TaskSpec
  policyVersion : String
  candidates : List ModelInfo
  availabilityTruth : Truth
  isProtected : Bool
  devMode : Bool := false

def Inputs.eligibility (o : Outside) (i : Inputs) : EligibilityResult :=
  (EligibilityGate.mk (some i.availabilityTruth) i.isProtected i.devMode).evaluate
    (capabilityGate o i.candidates i.taskSpec.requiredCapabilities).1 i.isProtected i.devMode

def Inputs.records (o : Outside) (i : Inputs) : List EligibilityRecord :=
  (i.eligibility o).records ++ (capabilityGate o i.candidates i.taskSpec.requiredCapabilities).2

def Inputs.exclusions (o : Outside) (i : Inputs) : List Json :=
  ((i.records o).filter (!·.admitted)).map exclusionProjection

def Inputs.admitted (o : Outside) (i : Inputs) (advisory : Option AdvisoryInput) : List ModelInfo := match advisory with
  | none => (i.eligibility o).admitted
  | some a => reorder o (i.eligibility o) i.taskSpec a

/-- `advisory.label or "adaptive-ranker"`. -/
def AdvisoryInput.consulted (a : AdvisoryInput) : String := match a.label.filter (· ≠ "") with
  | some label => label
  | none => "adaptive-ranker"

def selectedRoute (admitted : List ModelInfo) : Option (String × String) := admitted.head?.map fun m => (m.id,m.provider)

/-- `decide`; the clock is handed to the gate, which does not read it. -/
def decide (o : Outside) (i : Inputs) (advisory : Option AdvisoryInput) (_now : Option ℚ) : Except CanonicalError DecisionRecord := do
  let admitted := i.admitted o advisory
  let exclusions := i.exclusions o
  let (outcome,reason) := composeOutcome admitted (i.records o) (preferredId admitted (i.records o))
  let ids := admitted.map ModelInfo.id
  let spec := canonicalTaskSpec o i.taskSpec
  let catalog := candidateCatalogDigest o i.candidates
  let decisionId ← computeDecisionId o spec i.policyVersion catalog ids exclusions
  let receipt ← stampReceiptDigest o ⟨decisionId,spec,i.policyVersion,catalog,ids,exclusions,reason,"",advisory.map AdvisoryInput.consulted⟩
  return ⟨decisionId,spec,i.policyVersion,outcome,admitted,exclusions,receipt,
    ⟨selectedRoute admitted,ids,exclusions,reason,i.policyVersion,decisionId,receipt⟩,i.isProtected,i.devMode⟩

end Verdict.Decision

import Mathlib.Data.List.Infix
import Mathlib.Data.List.Sort
import Mathlib.Data.Prod.Lex
import Mathlib.Data.List.Lex
import Mathlib.Data.Char
import Verdict.Contracts.Path
import Verdict.CostLedger.Ledger

/-! # Bounded recovery

`BoundedRecoveryController.decide`: a failure is classified from its evidence, and the cheapest corrective
action is chosen, as long as attempts, time, cash and tokens last. A decision is kept in the history, whose
length counts the attempts.
-/
namespace Verdict.BoundedRecovery
open CostLedger (Context Ledger)

abbrev Text := List Char

inductive RecoveryFailureClass
  | missingOrStaleContext | providerOrGatewayFailure | modelCapabilityDeficit | toolOrEnvironmentMismatch
  | badDecompositionOrPlan | implementationError | verificationOrTestInfraFailure | contextLengthOverflow
  | ambiguousOrUnknown
  deriving DecidableEq

inductive RecoveryAction
  | rehydrate | retry | repairToolOrEnvironment | switchExecutionPlane | replan | escalateCapability | block

inductive RecoveryOutcome
  | proceed | blocked | cancelled | success
  deriving DecidableEq

structure ExecutionRoute where
  (modelId provider : String)
  gatewayId : Option String := none
  capabilityTier : ℤ := 0
  isFrontier : Bool := false

structure FailureEvidence where
  errorClass : Text := []
  message : Text := []
  statusCode : Option ℤ := none
  signals : List Text := []
  sideEffectsAmbiguous : Bool := false
  cancelled : Bool := false
  generatingWorkerId : Option String := none
  verificationWorkerId : Option String := none

structure RecoveryBounds where
  maxAttempts : ℤ := 3
  deadlineAt : Option ℤ := none
  estimatedActionCashUsd : ℚ := 1/100
  estimatedActionTokens : ℚ := 100
  positive : 1 ≤ maxAttempts := by decide

structure RecoveryDecision where
  failureClass : RecoveryFailureClass
  action : RecoveryAction
  outcome : RecoveryOutcome
  (routeBefore routeAfter : ExecutionRoute)
  reason : String
  attemptIndex : ℤ
  evidenceDigest : String
  createdAt : ℤ
  escalated : Bool := false
  frontierCall : Bool := false
  replanSignal : Bool := false
  chargeGeneratingModel : Bool := true
  success : Bool := false
  budgetCashRemainingUsd : Option ℚ := none

/-- What `decide` may raise. -/
inductive DecideError
  | notIndependent (worker : String)
  | arithmetic
  deriving DecidableEq

/-! ## Classification -/

def signalClass : List (List String × RecoveryFailureClass) :=
  [(["missing_context","stale_context","context_missing","context_stale"],.missingOrStaleContext),
    (["provider_outage","gateway_failure","upstream_error","rate_limited","provider_error"],.providerOrGatewayFailure),
    (["context_length_exceeded","context_length_overflow","context_overflow"],.contextLengthOverflow),
    (["capability_deficit","model_too_weak","insufficient_capability"],.modelCapabilityDeficit),
    (["tool_mismatch","environment_mismatch","tool_missing","env_broken"],.toolOrEnvironmentMismatch),
    (["bad_decomposition","bad_plan","plan_failure","circular_plan"],.badDecompositionOrPlan),
    (["implementation_error","code_error","logic_bug"],.implementationError),
    (["verification_infra","test_infra","proof_env_failure"],.verificationOrTestInfraFailure)]

def providerErrorClasses : List String :=
  ["rate_limited","quota_exhausted","timeout","upstream_error","server_error","provider_error","gateway_error"]

def retryableStatusCodes : List ℤ := [408,409,425,429,500,502,503,504]

def contextLengthMarkers : List String :=
  ["input is too long","prompt is too long","context length","context_length_exceeded","maximum context",
    "context window","too many tokens"]

/-- `any(token in text for token in tokens)`. -/
def holdsAny (text : Text) (tokens : List String) : Bool := tokens.any fun token => decide (token.toList <:+: text)

/-- `text in {...}`. -/
def isOneOf (text : Text) (names : List String) : Bool := names.any fun name => decide (name.toList = text)

section
variable (lower : Text → Text)

def isContextLengthError (text : Text) : Bool := holdsAny (lower text) contextLengthMarkers

def classifyFailure (e : FailureEvidence) : RecoveryFailureClass :=
  if e.cancelled || e.sideEffectsAmbiguous then .ambiguousOrUnknown
  else
    let signals := e.signals.map lower
    match signalClass.find? fun group => signals.any fun s => isOneOf s group.1 with
    | some group => group.2
    | none =>
      let error := Path.strip (lower e.errorClass)
      let message := lower e.message
      if isOneOf error ["context_length_exceeded","context_length_overflow"] then .contextLengthOverflow
      else if (e.statusCode = some 400 ∨ e.statusCode = some 413) ∧ isContextLengthError lower message then
        .contextLengthOverflow
      else if isOneOf error ["context_stale","context_missing","stale_context","missing_context"] then
        .missingOrStaleContext
      else if holdsAny message ["missing context","stale context","context pack"] then .missingOrStaleContext
      else if isOneOf error providerErrorClasses || e.statusCode.any (· ∈ retryableStatusCodes)
          || holdsAny message ["provider","gateway"] then .providerOrGatewayFailure
      else if holdsAny message ["capability","too weak","cannot satisfy"] then .modelCapabilityDeficit
      else if holdsAny message ["tool","sandbox","environment","binary missing"] then .toolOrEnvironmentMismatch
      else if holdsAny message ["plan","decomposition","circular"] then .badDecompositionOrPlan
      else if holdsAny message ["test runner","verification infra","proof env"] then .verificationOrTestInfraFailure
      else if isOneOf error ["implementation_error","code_error"] || holdsAny message ["assertion"] then
        .implementationError
      else .ambiguousOrUnknown

end

/-! ## Routes -/

inductive ComponentKind
  | harness | gateway | mcp | modelPool | intelligence | provider | toolchain
  deriving DecidableEq

structure CertifiedComponent where
  componentId : String
  kind : ComponentKind
  identity : String
  ready : Bool

abbrev Certification := Option (List CertifiedComponent)

/-- `_component_ready`; a component that the report does not know is not ready. -/
def componentReady (report : Certification) (componentId : String) (kinds : List ComponentKind) : Bool :=
  match report with
  | none => true
  | some components =>
    if componentId = "" then true
    else (components.find? fun item =>
      (item.componentId = componentId || item.identity = componentId) && kinds.contains item.kind).any (·.ready)

variable (current : ExecutionRoute)

/-- The tests of `_pick_equivalent` on one candidate. -/
def isEquivalent (certification : Certification) (candidate : ExecutionRoute) : Bool :=
  candidate.capabilityTier = current.capabilityTier &&
    !(candidate.isFrontier && !current.isFrontier) &&
    !(candidate.modelId = current.modelId && candidate.provider = current.provider &&
      candidate.gatewayId = current.gatewayId) &&
    (match candidate.gatewayId with
      | none => true
      | some gateway => gateway = "" || componentReady certification gateway [.gateway]) &&
    !(certification.any (·.any fun c => c.componentId = candidate.provider || c.identity = candidate.provider) &&
      !componentReady certification candidate.provider [.provider,.gateway])

variable (candidates : List ExecutionRoute)

def pickEquivalent (certification : Certification) :
    Option ExecutionRoute := candidates.find? (isEquivalent current certification)

/-- The sort key of `_pick_stronger`. -/
def routeKey (c : ExecutionRoute) : ℤ ×ₗ Bool ×ₗ Text ×ₗ Text :=
  toLex (c.capabilityTier,toLex (c.isFrontier,toLex (c.modelId.toList,c.provider.toList)))

/-- The candidates that `_pick_stronger` takes for stronger. -/
def isStronger (current c : ExecutionRoute) : Bool :=
  decide (current.capabilityTier < c.capabilityTier ∨
    c.capabilityTier = current.capabilityTier ∧ c.modelId ≠ current.modelId)

def pickStronger : Option ExecutionRoute :=
  ((candidates.filter (isStronger current)).mergeSort fun a b => decide (routeKey a ≤ routeKey b)).head?

/-! ## The budget -/

/-- The tokens of the pool that `decide` counts as taken by a reservation. -/
def countedTokens (r : CostLedger.Reservation) : Option ℚ :=
  if r.pool = .quota ∧ r.poolId = some "tokens" then
    match r.status with
    | .reserved | .partially => some r.amount
    | .reconciled => r.actual
    | .released => none
  else none

/-- The sum that `decide` makes over the reservations. -/
def reservedTokens (ctx : Context) (l : Ledger) : Option ℚ :=
  (l.reservations.filterMap countedTokens).foldlM (fun sum q => ctx (sum + q)) 0

/-- The quota check of `decide`: whether there are too few tokens left. -/
def lacksTokens (ctx : Context) (l : Ledger) (needed : ℚ) : Except DecideError Bool :=
  match l.budgets.quota "tokens" with
  | none => .ok false
  | some budget => match reservedTokens ctx l with
    | none => .error .arithmetic
    | some reserved => match ctx (budget - reserved) with
      | none => .error .arithmetic
      | some remaining => .ok (decide (remaining < needed))

def remainingCashUsd (ctx : Context) (l : Ledger) : Except DecideError (Option ℚ) := match l.budgets.cash with
  | none => .ok none
  | some budget => match CostLedger.minusTwice ctx budget l.cashReserved l.cashSpent with
    | .error _ => .error .arithmetic
    | .ok q => .ok (some q)

/-! ## The decision -/

structure Call where
  evidence : FailureEvidence
  route : ExecutionRoute
  ledger : Ledger
  certification : Certification := none
  equivalentRoutes : List ExecutionRoute := []
  strongerRoutes : List ExecutionRoute := []
  attemptIndex : Option ℤ := none
  estimatedCashUsd : Option ℚ := none
  estimatedTokens : Option ℚ := none
  now : ℤ

structure Controller where
  bounds : RecoveryBounds
  history : List RecoveryDecision := []

structure Plan where
  action : RecoveryAction
  routeAfter : ExecutionRoute
  reason : String
  escalated : Bool := false
  frontierCall : Bool := false
  replanSignal : Bool := false
  chargeGenerating : Bool := true

/-- The branches of `decide` over the failure classes: the plan, or the reason of a block. -/
def planFor (a : Call) : RecoveryFailureClass → Except String Plan
  | .missingOrStaleContext =>
    .ok ⟨.rehydrate,a.route,"rehydrate missing/stale context; retry same cheap route (no frontier call)",false,false,false,true⟩
  | .toolOrEnvironmentMismatch =>
    .ok ⟨.repairToolOrEnvironment,a.route,"repair/select eligible tool or environment path without model upgrade",
      false,false,false,true⟩
  | .verificationOrTestInfraFailure =>
    .ok ⟨.repairToolOrEnvironment,a.route,
      "reconcile verification/test infrastructure before charging the generating model",false,false,false,false⟩
  | .providerOrGatewayFailure => match pickEquivalent a.route a.equivalentRoutes a.certification with
    | none => .error "provider/gateway failure with no equivalent same-tier certified route"
    | some equivalent => .ok ⟨.switchExecutionPlane,equivalent,"switch execution plane preserving capability tier ("
        ++ toString a.route.capabilityTier ++ "); strategy/context/proof state unchanged",false,false,false,true⟩
  | .implementationError => .ok ⟨.retry,a.route,"bounded same-tier retry for implementation error",false,false,false,true⟩
  | .badDecompositionOrPlan =>
    .ok ⟨.replan,a.route,"emit replan signal for BOD-104 strategy planner within budget (planner not invoked here)",
      false,false,true,true⟩
  | .contextLengthOverflow => match pickEquivalent a.route a.equivalentRoutes a.certification with
    | none => match pickStronger a.route a.strongerRoutes with
      | none => .error "context length overflow with no alternative route"
      | some stronger => .ok ⟨.switchExecutionPlane,stronger,"context length overflow; switch to stronger route with " ++
          "potentially larger context window (no same-tier equivalent available)",false,false,false,true⟩
    | some equivalent => .ok ⟨.switchExecutionPlane,equivalent,"context length overflow; switch execution plane to " ++
          "equivalent route with potentially larger context window",false,false,false,true⟩
  | .modelCapabilityDeficit => match pickStronger a.route a.strongerRoutes with
    | none => .error "model capability deficit with no stronger qualified candidate"
    | some stronger => .ok ⟨.escalateCapability,stronger,"escalate to stronger qualified candidate; do not endlessly retry " ++
          "incapable same-tier model",true,stronger.isFrontier,false,true⟩
  | .ambiguousOrUnknown => .error "ambiguous_or_unknown failure; conservative policy never marks success"

def Plan.tamed (p : Plan) (route : ExecutionRoute) (failureClass : RecoveryFailureClass) : Plan :=
  if p.routeAfter.isFrontier ∧ failureClass = .missingOrStaleContext then
    { p with routeAfter := {route with isFrontier := false}, frontierCall := false }
  else p

section
variable (lower : Text → Text) (digest : FailureEvidence → String) (ctx : Context)
variable (b : RecoveryBounds)

def cashNeeded (a : Call) : ℚ := a.estimatedCashUsd.getD b.estimatedActionCashUsd
def tokensNeeded (a : Call) : ℚ := a.estimatedTokens.getD b.estimatedActionTokens

def gate (attempt : ℤ) (a : Call) (cash : Option ℚ) : Except DecideError (Option String) :=
  if b.deadlineAt.any (· < a.now) then .ok (some "deadline exceeded; bounded blocker")
  else if attempt ≥ b.maxAttempts then
    .ok (some ("max attempts (" ++ toString b.maxAttempts ++ ") exhausted; bounded blocker"))
  else if cash.any (· < cashNeeded b a) then .ok (some "insufficient cash budget for recovery action; bounded blocker")
  else match lacksTokens ctx a.ledger (tokensNeeded b a) with
    | .error e => .error e
    | .ok true => .ok (some "insufficient token/quota budget for recovery action; bounded blocker")
    | .ok false => .ok none

def decision (attempt : ℤ) (a : Call) (cash : Option ℚ) : Except DecideError RecoveryDecision :=
  let block (reason : String) (failureClass : RecoveryFailureClass) : RecoveryDecision :=
    { failureClass, action := .block, outcome := .blocked, routeBefore := a.route, routeAfter := a.route, reason,
      attemptIndex := attempt, evidenceDigest := digest a.evidence, createdAt := a.now, budgetCashRemainingUsd := cash }
  let failureClass := classifyFailure lower a.evidence
  if a.evidence.cancelled then
    .ok {
      (block "cancellation during verification is not completion" .ambiguousOrUnknown) with
      outcome := .cancelled, chargeGeneratingModel := false }
  else match gate ctx b attempt a cash with
    | .error e => .error e
    | .ok (some reason) => .ok (block reason failureClass)
    | .ok none => match planFor a failureClass with
      | .error reason => .ok (block reason failureClass)
      | .ok plan =>
        let plan := plan.tamed a.route failureClass
        .ok {
          failureClass, action := plan.action, outcome := .proceed, routeBefore := a.route,
          routeAfter := plan.routeAfter, reason := plan.reason, attemptIndex := attempt,
          evidenceDigest := digest a.evidence, createdAt := a.now, escalated := plan.escalated,
          frontierCall := plan.frontierCall, replanSignal := plan.replanSignal,
          chargeGeneratingModel := plan.chargeGenerating, budgetCashRemainingUsd := cash }

def sameWorker (e : FailureEvidence) : Option String := match e.generatingWorkerId, e.verificationWorkerId with
  | some generating, some verifying => if generating = verifying then some generating else none
  | _, _ => none

/-- A raising call leaves the history alone. -/
def Controller.decide (c : Controller) (a : Call) : Controller × Except DecideError RecoveryDecision :=
  match sameWorker a.evidence with
  | some worker => (c,.error (.notIndependent worker))
  | none =>
    let attempt := a.attemptIndex.getD c.history.length
    match (remainingCashUsd ctx a.ledger).bind (decision lower digest ctx c.bounds attempt a) with
    | .error e => (c,.error e)
    | .ok d => ({c with history := c.history ++ [d]},.ok d)

end
end Verdict.BoundedRecovery

import Verdict.Basics.FreshKeys
import Verdict.Contracts.Path
import Verdict.Policy.Evaluate

/-! # Transition graphs

The edges that an execution may take next: the initial attempt, a retry or a fallback before bytes,
a resumption behind them, and the end. Each edge says whether it is legal and why.
-/
namespace Verdict.Policy

inductive ByteState
  | preBytes
  | bytesEmitted

inductive RetrySafety
  | safe
  | notSafe
  | unknown
  deriving DecidableEq

def RetrySafety.value : RetrySafety → String
  | .safe => "safe"
  | .notSafe => "unsafe"
  | .unknown => "unknown"

def DecisionState.value : DecisionState → String
  | .allow => "allow"
  | .deny => "deny"
  | .unknown => "unknown"

inductive TransitionKind
  | initial
  | retry
  | fallback
  | checkpointResume
  | terminal
  deriving DecidableEq

structure RetryPolicy extends Policy where
  allowFallback : Bool := true
  retrySafeRequired : Bool := true
  requireIdempotencyKey : Bool := true
  maxAttempts : ℕ := 3
  attemptsPositive : 1 ≤ maxAttempts := by decide

structure ExecutionContext where
  requestId : String
  idempotencyKey : Option String := none
  retrySafety : RetrySafety := .unknown
  byteState : ByteState := .preBytes
  checkpointVerified : Bool := false
  terminal : Bool := false
  attempt : ℕ := 0
  protocol : Option String := none
  requestNamed : Path.strip requestId.toList ≠ [] := by decide
  protocolNamed : ∀ name ∈ protocol, Path.strip name.toList ≠ [] := by simp

structure TransitionEdge where
  (source target : String)
  kind : TransitionKind
  legal : Bool
  reasons : List String
  routeKey : Option String
  evidenceIds : List String

structure TransitionGraph where
  (policyVersion requestId : String)
  byteState : ByteState
  nodes : List String
  edges : List TransitionEdge
  compilation : EligibilityCompilation
  compiledAt : ℤ

def TransitionGraph.legalEdges (g : TransitionGraph) : List TransitionEdge := g.edges.filter (·.legal)

inductive TransitionError
  | compile (e : CompileError)
  | stopIteration

def reasonIf (c : Prop) [Decidable c] (reason : String) : List String := if c then [reason] else []

section
variable (o : Outside) (p : RetryPolicy) (current : PolicyCandidate) (ctx : ExecutionContext)

/-- `_edge`; the route and the evidence are those of the candidate the edge is about. -/
def edge (target : String) (kind : TransitionKind) (legal : Bool) (reasons : List String) (selected : PolicyCandidate) : TransitionEdge :=
  ⟨current.candidateId,target,kind,legal,firsts reasons,selected.routeKey o,selected.evidenceIds⟩

variable (target : PolicyCandidate)
variable (decision : PolicyDecision)

def preByteReasons : List String :=
  reasonIf (decision.decision ≠ .allow) ("target route is " ++ decision.decision.value) ++
  reasonIf (ctx.retrySafety ≠ .safe) ("retry safety is " ++ ctx.retrySafety.value) ++
  reasonIf (p.retrySafeRequired = true ∧ ctx.retrySafety ≠ .safe) "policy requires an explicitly retry-safe request" ++
  reasonIf (p.allowFallback = false ∧ target.routeKey o ≠ current.routeKey o) "fallback is disabled by policy" ++
  reasonIf (p.requireIdempotencyKey = true ∧ ctx.idempotencyKey.getD "" = "") "idempotency key is required" ++
  reasonIf (∃ name ∈ ctx.protocol, ∃ r ∈ target.routeIdentity, r.protocol ≠ name) "target protocol does not match the request" ++
  reasonIf (p.maxAttempts ≤ ctx.attempt) "maximum attempt count reached"

def preByteLegality : Bool × List String :=
  let reasons := preByteReasons o p current ctx target decision
  (reasons.isEmpty,if reasons = [] then ["pre-byte retry/fallback is legal"] else reasons)

def resumeReasons : List String :=
  reasonIf (ctx.checkpointVerified = false) "verified checkpoint/resume is required after bytes" ++
  reasonIf (target.routeKey o ≠ current.routeKey o) "model switching after bytes is forbidden" ++
  reasonIf (decision.decision ≠ .allow) "target route is not policy-eligible"

def edgeTo : TransitionEdge := match ctx.byteState with
  | .bytesEmitted =>
    let reasons := resumeReasons o current ctx target decision
    edge o current target.candidateId .checkpointResume
      (ctx.checkpointVerified && decide (target.routeKey o = current.routeKey o) && decide (decision.decision = .allow))
      (if reasons = [] then ["verified same-route checkpoint/resume"] else reasons) target
  | .preBytes =>
    let legality := preByteLegality o p current ctx target decision
    edge o current target.candidateId (if target.routeKey o = current.routeKey o then .retry else .fallback) legality.1 legality.2 target

variable (candidates : List PolicyCandidate)

def considered : List PolicyCandidate :=
  FreshKeys.addAll PolicyCandidate.candidateId [] (current :: candidates)

variable (decisions : List PolicyDecision)

/-- `next(...)` over the decisions for an id. -/
def decisionFor (candidateId : String) : Except TransitionError PolicyDecision :=
  match decisions.find? fun d => d.candidateId = candidateId with
  | some d => .ok d
  | none => .error .stopIteration

def others : List PolicyCandidate :=
  ((considered current candidates).insertionSort fun a b => a.candidateId ≤ b.candidateId).filter fun c =>
    c.candidateId ≠ current.candidateId

def edgesOf (currentDecision : PolicyDecision) :
    Except TransitionError (List TransitionEdge) :=
  if ctx.terminal = true then
    .ok [⟨current.candidateId,"terminal",.terminal,true,["execution is already terminal"],current.routeKey o,current.evidenceIds⟩]
  else if currentDecision.decision ≠ .allow then
    .ok [edge o current "terminal" .terminal false
      (("current route is " ++ currentDecision.decision.value) :: currentDecision.reasons) current]
  else do
    let rest ← (others current candidates).mapM fun target => do
      let decision ← decisionFor decisions target.candidateId
      return edgeTo o p current ctx target decision
    return edge o current current.candidateId .initial true ["initial attempt is policy-eligible"] current :: rest

end

/-- `TransitionCompiler.compile`. -/
def compileTransitions (o : Outside) (p : RetryPolicy) (current : PolicyCandidate) (candidates : List PolicyCandidate)
    (ctx : ExecutionContext) (at_ : ℤ) : Except TransitionError TransitionGraph :=
  match compile o p.toPolicy (considered current candidates) at_ (fun _ => none) with
  | .error e => .error (.compile e)
  | .ok compilation => do
    let currentDecision ← decisionFor compilation.decisions current.candidateId
    let edges ← edgesOf o p current ctx candidates compilation.decisions currentDecision
    return {
      policyVersion := p.version
      requestId := ctx.requestId
      byteState := ctx.byteState
      nodes := current.candidateId :: ((others current candidates).map (·.candidateId) ++ ["terminal"])
      edges := edges
      compilation := compilation
      compiledAt := at_ }

/-! ### The relay -/

structure RelayAttempt where
  model : String
  route : RouteIdentity
  candidate : PolicyCandidate
  candidateRoute : candidate.routeIdentity = some route := by rfl
  notServed : candidate.actualRoute = none := by rfl

def relayPolicy (isProtected : Bool) (protocol : String) : RetryPolicy where
  isProtected := isProtected
  requireActualIdentity := true
  allowedProtocols := [protocol]
  maxAttempts := 3

structure RelayRequest where
  requestId : String
  key : Option String
  safety : RetrySafety
  protocol : String
  isProtected : Bool
  requestNamed : Path.strip requestId.toList ≠ []
  protocolNamed : Path.strip protocol.toList ≠ []

def RelayRequest.context (r : RelayRequest) (index : ℕ) : ExecutionContext where
  requestId := r.requestId
  idempotencyKey := r.key
  retrySafety := r.safety
  attempt := index
  protocol := some r.protocol
  requestNamed := r.requestNamed
  protocolNamed := by simpa using r.protocolNamed

/-- The edge to the next attempt. -/
def transitionEdge (isOpaqueAlias : String → Bool) (o : Outside) (attempts : List RelayAttempt) (index : ℕ) (r : RelayRequest)
    (at_ : ℤ) : Except TransitionError (Option TransitionEdge) := match attempts.drop index with
  | current :: target :: rest =>
    if r.isProtected && isOpaqueAlias current.model then
      .ok (some ⟨current.candidate.candidateId,target.candidate.candidateId,.fallback,false,
        ["protected opaque alias has no actual-route attestation"],target.candidate.routeKey o,[]⟩)
    else do
      let graph ← compileTransitions o (relayPolicy r.isProtected r.protocol) current.candidate
        ((target :: rest).map (·.candidate)) (r.context index) at_
      return graph.edges.find? fun e => e.target = target.candidate.candidateId
  | _ => .ok none

end Verdict.Policy

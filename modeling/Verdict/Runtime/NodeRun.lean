import Verdict.Contracts.WorkGraph

/-! # Events of a run

`events.jsonl` is the only state that outlives a controller. An event has the node it
is about (empty for the run itself) and its data; what no reader of the log uses
(evidence texts, capacity classes, usage, timestamps) is left out. The sequence number
of an event is its position in the log.
-/
namespace Verdict.Runtime

inductive Category
  | verificationFailed | ownershipViolation | contextLengthExceeded | contextInputRejected
  | dispatchDenied | permitDenied | permitRevokedAfterCommit | poolExhausted
  | other (name : String)
  deriving DecidableEq

def Category.name : Category → String
  | verificationFailed => "verification_failed"
  | ownershipViolation => "ownership_violation"
  | contextLengthExceeded => "context_length_exceeded"
  | contextInputRejected => "context_input_rejected"
  | dispatchDenied => "dispatch_denied"
  | permitDenied => "permit_denied"
  | permitRevokedAfterCommit => "permit_revoked_after_commit"
  | poolExhausted => "pool_exhausted"
  | other name => name

inductive ReviewStatus
  | pass | fail | error
  deriving DecidableEq

/-- Event types that no reader of the log acts on. -/
inductive Note
  | runStarted | controller | topology | eligibility | cooldown | reassign | restore | hydrate
  | salvage | rehydrate | repack | repoGates | repoGate | control | reviewAttempt
  deriving DecidableEq

inductive Body
  | nodeState (state : NodeState) (routeId commit : String)
  | selection (routeId : String) (attempt : ℕ)
  | dispatch (routeId : String) (attempt : ℕ)
  | terminal (ok : Bool) (routeId : String) (attempt : ℕ)
  | failure (category : Category) (routeId : String) (attempt : Option ℕ)
  | verify (ok : Bool)
  | barrier (name : String) (ok : Bool)
  | integrate (commits : List String) (ref : String)
  | review (status : ReviewStatus) (routeId : String) (blocking : ℕ)
  | runFinished (outcome : RunOutcome)
  | note (type : Note)
  deriving DecidableEq

/-- The events `emit` is called with for the run as a whole. -/
def Body.runLevel : Body → Bool
  | integrate _ _ | review _ _ _ | runFinished _ | note _ => true
  | barrier name ok => decide (name = "integration") && ok
  | _ => false

structure Event where
  nodeId : String
  body : Body
  deriving DecidableEq

variable (i : String)

def nodeLog (log : List Event) : List Body :=
  (log.filter fun e => decide (e.nodeId = i)).map Event.body

@[simp]
theorem nodeLog_append (l l' : List Event) :
    nodeLog i (l ++ l') = nodeLog i l ++ nodeLog i l' := by
  simp [nodeLog]

theorem nodeLog_own (bs : List Body) : nodeLog i (bs.map (Event.mk i)) = bs := by
  induction bs with
  | nil => rfl
  | cons b bs ih => simpa [nodeLog] using ih

theorem nodeLog_other {i j : String} (h : j ≠ i) (bs : List Body) : nodeLog i (bs.map (Event.mk j)) = [] := by
  simp [nodeLog,h]

theorem nodeLog_mono {l l' : List Event} (h : l <+: l') : nodeLog i l <+: nodeLog i l' :=
  (h.filter _).map _

theorem mem_nodeLog {i : String} {log : List Event} {b : Body} : b ∈ nodeLog i log ↔ ⟨i,b⟩ ∈ log := by
  constructor
  · intro h
    obtain ⟨e,he,rfl⟩ := List.mem_map.mp h
    obtain ⟨he,hi⟩ := List.mem_filter.mp he
    rw [← of_decide_eq_true hi]
    exact he
  · intro h
    exact List.mem_map.mpr ⟨_,List.mem_filter.mpr ⟨h,by simp⟩,rfl⟩

/-- `prior_validated` for one node: commit and route of its last `VALIDATED` event that
names a commit. -/
def priorValidated : List Body → Option (String × String)
  | [] => none
  | b :: rest => match priorValidated rest with
    | some found => some found
    | none => match b with
      | .nodeState .validated routeId commit => if commit = "" then none else some (commit,routeId)
      | _ => none

/-- `prior_attempts` for one node: the highest attempt dispatched in earlier lives. -/
def priorAttempts : List Body → ℕ
  | [] => 0
  | .dispatch _ attempt :: rest => max attempt (priorAttempts rest)
  | _ :: rest => priorAttempts rest

def dispatchedRoutes (log : List Body) : List String :=
  log.filterMap (fun b => match b with
    | .dispatch routeId _ => some routeId
    | _ => none)

def dispatchedAttempts (log : List Body) : List ℕ :=
  log.filterMap (fun b => match b with
    | .dispatch _ attempt => some attempt
    | _ => none)

end Verdict.Runtime

/-! ## The run record of a node and the effects a driver has on it

A driver task runs from one `await` to the next without interruption. What it does in between is a
list of effects on the `NodeRun` of its node; most also append to the event log. `_set` is the
only effect that can fail, and an exception ends a list of effects after any prefix of it. The
event sink itself does not fail.
-/
namespace Verdict.Runtime

structure RuntimePolicy where
  maxParallel : ℤ := 3
  maxAttemptsPerNode : ℕ := 4
  requireReview : Bool := true
  contextBudgetBytes : ℕ := 60000
  minContextBudgetBytes : ℕ := 4000
  requireDispatchPermit : Bool := false

/-- What the runtime is built with. `authority` and `reviewer`: one is configured.
`feedback`: the selector takes session failures. `takesBudget`: so does the hydrator
a context budget. -/
structure Config where
  policy : RuntimePolicy := {}
  authority : Bool := false
  reviewer : Bool := true
  feedback : Bool := false
  takesBudget : Bool := true

inductive Action
  | reroute | retryInfra | correctImplementation | rehydrate | block | failClosed
  deriving DecidableEq

inductive Scope
  | route | provider | none
  deriving DecidableEq

structure FailureClassification where
  category : Category
  action : Action
  cooldownSeconds : ℕ := 0
  scope : Scope := .none
  deriving DecidableEq

inductive HistoryOutcome
  | validated | restore | salvage
  | failed (category : Category)

def HistoryOutcome.name : HistoryOutcome → String
  | validated => "validated"
  | restore => "restore"
  | salvage => "salvage"
  | failed category => category.name

structure HistoryRow where
  attempt : ℕ
  routeId : String
  outcome : HistoryOutcome

structure NodeRun where
  state : NodeState := .planned
  attempt : ℕ := 0
  routeId : String := ""
  history : List HistoryRow := []
  failures : List FailureClassification := []
  commit : String := ""
  reason : String := ""
  contextBudget : ℕ := 0
  repackedRoutes : List String := []
  rehydratedRoutes : List String := []

def NodeRun.historyRoutes (run : NodeRun) : List String := run.history.map HistoryRow.routeId

inductive Eff
  | set (state : NodeState) (commit : String)
  | emit (body : Body)
  | bind (routeId : String)
  | unbind (previous : String)
  | fail (failure : FailureClassification)
  | record (row : HistoryRow)
  | reason (text : String)
  | commit (sha : String)
  | budget (bytes : ℕ)
  | repacked (routeId : String)
  | rehydrated (routeId : String)

/-- One effect: the record after it and the events it emits; `none` when
`check_transition` refuses. -/
def Eff.apply (run : NodeRun) : Eff → Option (NodeRun × List Body)
  | set state sha => match checkTransition run.state state with
    | .ok () => some ({run with state := state},[.nodeState state run.routeId sha])
    | .error _ => none
  | emit body => some (run,[body])
  | bind routeId => some ({run with attempt := run.attempt + 1, routeId := routeId},[])
  | unbind previous => some ({run with attempt := run.attempt - 1, routeId := previous},[])
  | fail f => some ({run with failures := run.failures ++ [f]},[])
  | record row => some ({run with history := run.history ++ [row]},[])
  | reason text => some ({run with reason := text},[])
  | commit sha => some ({run with commit := sha},[])
  | budget bytes => some ({run with contextBudget := bytes},[])
  | repacked routeId => some ({run with repackedRoutes := routeId :: run.repackedRoutes},[])
  | rehydrated routeId => some ({run with rehydratedRoutes := routeId :: run.rehydratedRoutes},[])

structure Performed where
  run : NodeRun
  events : List Body
  ok : Bool

def perform (run : NodeRun) : List Eff → Performed
  | [] => ⟨run,[],true⟩
  | e :: es => match e.apply run with
    | none => ⟨run,[],false⟩
    | some (run',bodies) =>
      let rest := perform run' es
      ⟨rest.run,bodies ++ rest.events,rest.ok⟩

theorem apply_set {run run' : NodeRun} {state : NodeState} {commit : String} {bodies : List Body}
    (h : (Eff.set state commit).apply run = some (run',bodies)) : state ∈ transitions run.state ∧ run' =
    {run with state := state} ∧ bodies = [.nodeState state run.routeId commit] := by
  simp only [Eff.apply] at h
  split at h
  · rename_i hok
    cases h
    exact ⟨checkTransition_ok.mp hok,rfl,rfl⟩
  · cases h

theorem perform_final {run : NodeRun} (effs : List Eff) (h : transitions run.state = []) :
    (perform run effs).run.state = run.state := by
  induction effs generalizing run with
  | nil => rfl
  | cons e es ih =>
    cases ha : e.apply run with
    | none => simp only [perform,ha]
    | some res =>
      obtain ⟨run',bodies⟩ := res
      have hstate : run'.state = run.state := by
        cases e with
        | set state commit =>
          have hlegal := (apply_set ha).1
          rw [h] at hlegal
          cases hlegal
        | _ => cases ha; rfl
      simp only [perform,ha]
      rw [ih (by rw [hstate]; exact h),hstate]

def recordFailure (cfg : Config) (run : NodeRun) (failure : FailureClassification) (validated : Bool) :
    List Eff :=
  [.fail failure,.set (if validated then .rejected else .terminalFailure) "",
    .emit (.failure failure.category run.routeId (some run.attempt))]
  ++ (if cfg.feedback then [.emit (.note .controller)] else [])
  ++ (if failure.scope ≠ .none ∧ 0 < failure.cooldownSeconds then [.emit (.note .cooldown)] else [])
  ++ [.record ⟨run.attempt,run.routeId,.failed failure.category⟩]

end Verdict.Runtime

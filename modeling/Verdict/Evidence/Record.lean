import Verdict.Basics.PyJson
import Verdict.Receipt.NodeRecord

/-! # The record of a node as it is written

`_node_record` with everything it copies from the data of the events. Event data is any
parsed object; what a step of the loop makes of it may raise.
-/
namespace Verdict.Evidence
open Json Receipt

inductive EventType
  | runStarted | runFinished | planReady | planStarted | planRepairStarted | planRepairTerminal
  | dispatch | terminal | failure | selection | nodeState | verify | barrier | integrate
  | review | reviewAttempt | reassign | cooldown | controller | decisionSignals
  | repoGates | repoGate | openspecConformance
  | other (name : String)
  deriving DecidableEq

/-- `time` is the field `at`. -/
structure RunEvent where
  seq : ℕ
  time : String
  type : EventType
  nodeId : String := ""
  data : Fields := []

inductive Raised
  | orchestration (text : String)
  /-- Any other exception. -/
  | other (what : String)
  deriving DecidableEq

/-- What lies outside: case folding, `str`, `repr` and `float` of values that are not of that
type already, and the redaction of a text. -/
structure Env where
  (lower upper : String → String)
  (str repr : Json → String)
  float : ℤ → Option ℚ
  redactText : String → String

/-- `_terminal_ok`, `_terminal_error` and `_terminal_reported`, and the route it was sent to. -/
structure Terminal where
  ok : Bool
  (error reported intendedRoute : String)
  executedModel : Option String

structure Row where
  attempt : ℕ
  routeId : String := ""
  provider : String := ""
  capacityClass : String := "unknown"
  outcome : RowOutcome := .running
  faultInjected : Bool := false
  probes : Fields := []
  duration : Option Json := none
  usage : Option Fields := none
  executorKind : Option String := none
  harness : Option String := none
  terminal : Option Terminal := none
  /-- `served_identity` with `_terminal_served_status`. -/
  served : Option (Fields × String) := none
  failureCategory : Option String := none

structure Pending where
  probes : Fields := []
  route : String := ""

structure Scan where
  attempts : Dict ℕ Row := .empty
  current : ℕ := 0
  lastSuccess : Option ℕ := none
  claimedState : String := ""
  claimedSeq : Option ℕ := none
  commit : Option String := none
  pending : Pending := {}

def probeFields : List String := ["probe_class","cache_checked_at","cache_freshness","evidence_level"]

def servedFields : List String := ["provider","model","connection_id","decision_strategy"]

def attemptOf (e : RunEvent) (fallback : ℕ) : ℕ := match get e.data "attempt" with
  | .int n => if 0 < n then n.toNat else fallback
  | _ => fallback

/-- `list(value or [])`. -/
def listOf (j : Json) : Except Raised (List Json) :=
  if truthy j = false then .ok []
  else match j with
  | .arr xs => .ok xs
  | .str s => .ok (s.toList.map fun c => .str (String.singleton c))
  | .obj fs => .ok (fs.map fun e => .str e.1)
  | _ => .error (.other "TypeError")

def outcomeName : RowOutcome → String
  | .running => "running"
  | .success => "success"
  | .failure => "failure"
  | .abandoned => "abandoned"

def kindName : NodeKind → String
  | .implement => "implement"
  | .research => "research"
  | .integrate => "integrate"
  | .review => "review"

section
variable (env : Env)

/-- `str(value)`. -/
def text : Json → String
  | .str s => s
  | j => env.str j

/-- `str(data.get(key) or fallback)`. -/
def textOr (data : Fields) (key fallback : String) : String :=
  if truthy (get data key) then text env (get data key) else fallback

/-- `str(data.get(key))`, where the value counts as true. -/
def textOf (data : Fields) (key : String) : Option String :=
  if truthy (get data key) then some (text env (get data key)) else none

def routeProvider (routeId : String) : String :=
  env.lower (String.ofList (Path.strip (routeId.toList.takeWhile (· ≠ '/'))))

def probesOf (data base : Fields) : Fields :=
  probeFields.foldl (fun fs key => match textOf env data key with
    | some s => Dict.put key (.str s) fs
    | none => fs) base

/-- What every `dispatch`, `terminal` and `failure` does to the row of its attempt. -/
def Row.touch (row : Row) (e : RunEvent) (pending : Pending) : Row × Pending :=
  -- a failure behind the terminal carries the route of a revoked candidate
  let route := if e.type = .failure ∧ row.terminal.isSome then row.routeId else textOr env e.data "route_id" row.routeId
  let row := {row with
    routeId := route
    provider := textOr env e.data "provider" (if row.provider ≠ "" then row.provider else routeProvider env route)
    capacityClass := textOr env e.data "capacity_class" row.capacityClass
    probes := probesOf env e.data row.probes
    faultInjected := row.faultInjected || truthy (get e.data "fault_injected")}
  if pending.probes.isEmpty then (row,pending)
  else if pending.route ≠ "" ∧ pending.route = route then ({row with probes := update row.probes pending.probes},{})
  else if e.type = .dispatch then (row,{})
  else (row,pending)

/-- `float(data["duration_seconds"])`, for an int or a float. -/
def durationOf (data : Fields) : Except Raised (Option Json) := match get data "duration_seconds" with
  | .int n => match env.float n with
    | some q => .ok (some (.float q))
    | none => .error (.other "OverflowError")
  | .bool b => .ok (some (.float (if b then 1 else 0)))
  | .float q => .ok (some (.float q))
  | .scalar .negZero => .ok (some (.scalar .negZero))
  | .scalar .nan => .ok (some (.scalar .nan))
  | .scalar .inf => .ok (some (.scalar .inf))
  | .scalar .negInf => .ok (some (.scalar .negInf))
  | _ => .ok none

def servedIdentity (check : Fields) : Except Raised Fields :=
  (listOf (get check "reasons")).map (fun reasons =>
    [("status",get check "status"),("served_route",get check "served_route")]
      ++ servedFields.map (fun key => (key,get (get check "served").fields key)) ++ [("reasons",.arr reasons)])

def Row.servedBy (row : Row) (check : Json) : Except Raised (Option (Fields × String)) :=
  if check.isObj then (servedIdentity check.fields).map (fun identity =>
    some (identity,textOr env check.fields "status" ""))
  else .ok row.served

def Row.finish (row : Row) (data : Fields) : Except Raised Row := do
  let ok := decide (get data "ok" = .bool true)
  let duration ← durationOf env data
  let reported := textOr env data "reported_model" ""
  let check := get data "served_check"
  let served ← row.servedBy env check
  return {row with
    outcome := if ok then .success else .failure
    duration := duration.or row.duration
    usage := if (get data "usage").isObj then some (get data "usage").fields else row.usage
    executorKind := (textOf env data "executor_kind").or row.executorKind
    harness := (textOf env data "harness").or row.harness
    served := served
    terminal := some {
      ok := ok
      error := textOr env data "error" ""
      reported := reported
      intendedRoute := row.routeId
      executedModel := ((if check.isObj then textOf env check.fields "served_route" else none)).or
        (if reported ≠ "" then some reported else none)}}

def Scan.row (sc : Scan) : Row := (sc.attempts.get? sc.current).getD {attempt := sc.current}

def Scan.next (sc : Scan) (e : RunEvent) : Except Raised Scan :=
  match e.type with
  | .dispatch =>
    let sc := {sc with current := attemptOf e (sc.current + 1)}
    let (row,pending) := sc.row.touch env e sc.pending
    .ok {sc with attempts := sc.attempts.set sc.current row, pending := pending}
  | .terminal =>
    let sc := {sc with current := attemptOf e (if sc.current = 0 then 1 else sc.current)}
    let (row,pending) := sc.row.touch env e sc.pending
    (row.finish env e.data).map (fun row => {sc with
      attempts := sc.attempts.set sc.current row
      pending := pending
      lastSuccess := if get e.data "ok" = .bool true then some e.seq else sc.lastSuccess})
  | .failure =>
    let sc := {sc with current := attemptOf e (if sc.current = 0 then 1 else sc.current)}
    let (row,pending) := sc.row.touch env e sc.pending
    .ok {sc with
      attempts := sc.attempts.set sc.current
        {row with outcome := .failure, failureCategory := some (textOr env e.data "category" "unknown")}
      pending := pending}
  | .selection =>
    let probes := probesOf env e.data []
    .ok {sc with pending := ⟨if truthy (get e.data "unknown_capacity_opt_in") then
      Dict.put "unknown_capacity_opt_in" (.str "true") probes else probes,textOr env e.data "route_id" ""⟩}
  | .nodeState =>
    let state := match e.data.lookup "state" with
      | some j => text env j
      | none => ""
    .ok {sc with
      claimedState := state
      claimedSeq := some e.seq
      lastSuccess := if state = "TERMINAL_SUCCESS" then some e.seq else sc.lastSuccess}
  | .integrate => .ok {sc with commit := (textOf env e.data "commit").or sc.commit}
  | _ => .ok sc

def classifyRouteIdentity (routeId reported : String) (ok : Bool) (error failureCategory : String) : String :=
  if reported = "(mechanical merge)" then "mechanical"
  else if ok = false then
    if error = "model_mismatch" ∨ failureCategory = "model_mismatch" then "mismatch" else "unattested"
  else if reported = "" then "unattested"
  else if reported = routeId then "match"
  else "mismatch"

def Row.routeIdentity (row : Row) : String := match row.terminal with
  | none => "unattested"
  | some t =>
    let category := row.failureCategory.getD ""
    match row.served with
    | none => classifyRouteIdentity row.routeId t.reported t.ok t.error category
    | some (_,status) =>
      if t.error = "model_mismatch" ∨ category = "model_mismatch" then "mismatch"
      else if status = "verified" then "match"
      else if status = "mismatch" then "mismatch"
      else "unattested"

def validatedBy (events : List RunEvent) : Option ℕ → List RunEvent
  | none => []
  | some last => events.filter fun e => decide (e.type = .verify ∧ get e.data "ok" = .bool true ∧ last < e.seq)

def Scan.numbers (sc : Scan) : List ℕ := sc.attempts.entries.map Prod.fst

def Scan.finalState (sc : Scan) (passed : List RunEvent) : String :=
  let revokes := fun (e : RunEvent) => (sc.claimedState = "REJECTED" ∨ sc.claimedState = "BLOCKED")
    ∧ ∃ seq ∈ sc.claimedSeq, e.seq < seq
  if ∃ e ∈ passed.getLast?, ¬ revokes e then "VALIDATED"
  else if sc.claimedState ≠ "" ∧ sc.claimedState ≠ "VALIDATED" then sc.claimedState
  else if sc.lastSuccess.isSome then "TERMINAL_SUCCESS"
  else match sc.numbers.max?.bind sc.attempts.get? with
  | none => "PLANNED"
  | some row => match row.outcome with
    | .success => "TERMINAL_SUCCESS"
    | .failure => "TERMINAL_FAILURE"
    | _ => "RUNNING"

def Scan.abandon (sc : Scan) (state : String) (number : ℕ) (row : Row) : Row :=
  if row.outcome = .running ∧ (some number ≠ sc.numbers.max? ∨ state ≠ "RUNNING") then {row with outcome := .abandoned}
  else row

def field (key : String) : Option Json → Fields
  | some j => [(key,j)]
  | none => []

def Row.json (row : Row) : Fields :=
  [("attempt",.int row.attempt),("route_id",.str row.routeId),("provider",.str row.provider),
    ("capacity_class",.str row.capacityClass),("outcome",.str (outcomeName row.outcome)),
    ("fault_injected",.bool row.faultInjected)]
  ++ row.probes ++ field "duration_seconds" row.duration ++ field "usage" (row.usage.map .obj)
  ++ field "executor_kind" (row.executorKind.map .str) ++ field "harness" (row.harness.map .str)
  ++ field "intended_route" (row.terminal.map fun t => .str t.intendedRoute)
  ++ field "executed_model" (row.terminal.map fun t => (t.executedModel.map .str).getD .null)
  ++ field "served_identity" (row.served.map fun s => .obj s.1)
  ++ field "failure_category" (row.failureCategory.map .str)
  ++ [("route_identity",.str row.routeIdentity)]

structure NodeRecord where
  nodeId : String
  kind : NodeKind
  finalState : String
  attempts : List Row
  validatedBy : List RunEvent
  commit : Option String

def nodeRecord (n : WorkNode) (events : List RunEvent) : Except Raised NodeRecord :=
  (events.foldlM (Scan.next env) {}).map (fun sc =>
    let passed := validatedBy events sc.lastSuccess
    let state := sc.finalState passed
    { nodeId := n.nodeId
      kind := n.kind
      finalState := state
      attempts := (sc.attempts.entries.insertionSort fun a b => a.1 ≤ b.1).map fun e => sc.abandon state e.1 e.2
      validatedBy := passed
      commit := sc.commit })

def NodeRecord.json (r : NodeRecord) : Fields :=
  [("node_id",.str r.nodeId),("kind",.str (kindName r.kind)),("final_state",.str r.finalState),
    ("attempts",.arr (r.attempts.map fun row => .obj row.json)),
    ("validated_by",.arr (r.validatedBy.map (fun e => .obj [
      ("command",(e.data.lookup "command").getD (.str "")),("exit_code",get e.data "exit_code"),("seq",.int e.seq)])))]
  ++ field "commit" ((r.commit.bind fun c => if c ≠ "" then some (.str c) else none))

end
end Verdict.Evidence

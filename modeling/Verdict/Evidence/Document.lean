import Verdict.Evidence.Record

/-! # The receipt of a run directory as it is written

`build_run_receipt` reads `events.jsonl`, `graph.json` and `review.json` and makes one
object of them. `graph.json` enters with what `WorkGraph.from_dict` makes of it.
-/
namespace Verdict.Evidence
open Json Receipt

/-- A line of `events.jsonl`. -/
inductive Line
  | blank
  | event (e : RunEvent)
  | corrupt

/-- `torn`: a crash has left a partial line at the end. -/
structure EventsFile where
  lines : List Line
  torn : Bool := false

structure Plan where
  (goal digest topology : String)
  graph : WorkGraph

/-- The object in `graph.json`; `plan` is absent without nodes. -/
structure GraphFile where
  runId : Json := .null
  goal : Json := .null
  openspec : Option Json := none
  plan : Option (Except Raised Plan) := none

structure RunDir where
  name : String
  events : Option EventsFile := none
  graph : Option (Except Raised GraphFile) := none
  review : Option (Except Raised Fields) := none
  receipt : Option (Except Raised Fields) := none

/-- `EventLog.read` behind the sequence number `last`. -/
def readLines (last : ℕ) : List Line → Except Raised (List RunEvent)
  | [] => .ok []
  | .blank :: lines => readLines last lines
  | .corrupt :: _ => .error (.orchestration "corrupt event")
  | .event e :: lines =>
    if e.seq ≤ last then .error (.orchestration "seq not greater")
    else (readLines e.seq lines).map (e :: ·)

variable (file : EventsFile)

def EventsFile.read : Except Raised (List RunEvent) := readLines 0 file.lines

/-- `_repair_torn_tail`. -/
def EventsFile.repair : EventsFile := {file with torn := false}

section
variable (env : Env) (sha256 : EventsFile → String)

/-- `_free`, without the node for the attempts of the planner. -/
def freeForm (head : RunEvent → Fields) (types : List EventType) (events : List RunEvent) : List Json :=
  (events.filter fun e => decide (e.type ∈ types)).map fun e => .obj (update (head e) e.data)

variable (e : RunEvent)

def withNode : Fields := [("seq",.int e.seq),("at",.str e.time),("node_id",.str e.nodeId)]

def withoutNode : Fields := [("seq",.int e.seq),("at",.str e.time)]

structure BarrierRow where
  name : String
  ok : Bool
  seq : ℕ

def barrierName : String :=
  textOr env e.data "name" (if e.nodeId ≠ "" then e.nodeId else "integration")

variable (events : List RunEvent)

def barriers : Dict String BarrierRow :=
  events.foldl (fun rows e => if e.type = .barrier then
    rows.set (barrierName env e) ⟨barrierName env e,decide (get e.data "ok" = .bool true),e.seq⟩ else rows) .empty

variable (plan : Option Plan)

def declared : List String :=
  (((plan.map fun p => p.graph.nodes).getD []).filterMap WorkNode.barrier).map Barrier.name |>.dedup.insertionSort (· ≤ ·)

def integration (events : List RunEvent) : Fields :=
  let rows := barriers env events
  let missing := (declared plan).filter fun name => !rows.contains name
  [("ok",.bool (decide (rows.entries ≠ []) && decide (missing = []) && rows.values.all BarrierRow.ok)),
    ("barriers",.arr (((rows.entries.insertionSort fun a b => a.1 ≤ b.1).map Prod.snd).map (fun b =>
      .obj [("name",.str b.name),("ok",.bool b.ok),("seq",.int b.seq)]))),
    ("missing",.arr (missing.map .str))]

def reviewAttemptKeys : List String :=
  ["attempt","route_id","status","category","scope","cooldown_seconds","duration_seconds","detail"]

def reviewAttempts : List Json :=
  (events.filter fun e => decide (e.type = .reviewAttempt)).map (fun e =>
    .obj ((reviewAttemptKeys.map fun key => (key,get e.data key)).filter fun f => decide (f.2 ≠ .null)))

/-- `f.get("severity") in {"critical", "high"}`; a value that has no hash raises. -/
def severe (finding : Json) : Except Raised Bool := match finding with
  | .obj fs => match get fs "severity" with
    | .arr _ | .obj _ => .error (.other "TypeError")
    | j => .ok (decide (j = .str "critical" ∨ j = .str "high"))
  | _ => .ok false

def blockingOf (source : Fields) : Except Raised ℤ := match get source "findings" with
  | .arr findings => (findings.mapM severe).map fun flags => (flags.count true : ℤ)
  | _ => match get source "blocking" with
    | .bool b => .ok (if b then 1 else 0)
    | .int n => .ok n
    | _ => .ok 0

variable (d : RunDir)

/-- `review.json`, or else the last review of the log. -/
def reviewSource (events : List RunEvent) : Except Raised (Option Fields) := match d.review with
  | some file => file.map some
  | none => .ok (((events.filter fun e => decide (e.type = .review)).getLast?).map RunEvent.data)

def reviewBlock (events : List RunEvent) : Except Raised Fields := do
  let source ← reviewSource d events
  let attempts := reviewAttempts events
  let extra := if attempts.isEmpty then [] else [("attempts",.arr attempts)]
  match source with
  | none => return [("status",.str "MISSING"),("reviewer",.str ""),("route_id",.str ""),("blocking",.int 0)] ++ extra
  | some source =>
    let blocking ← blockingOf source
    return [("status",.str (env.upper (textOr env source "status" "ERROR"))),
      ("reviewer",.str (((source.lookup "reviewer").map (text env)).getD "")),
      ("route_id",.str (((source.lookup "route_id").map (text env)).getD "")),("blocking",.int blocking)] ++ extra

/-- `_no_change_implement_nodes`. -/
def noChangeNodes (graph : WorkGraph) (events : List RunEvent) (nodes : List NodeRecord) : List String :=
  let validated := (nodes.filter fun n => decide (n.kind = .implement ∧ n.finalState = "VALIDATED")).map NodeRecord.nodeId
  let last := fun (i : String) (keep : Fields → Bool) => ((events.filter (fun e =>
    decide (e.type = .barrier ∧ e.nodeId = i) && keep e.data)).map RunEvent.seq).getLast?
  ((graph.nodes.map WorkNode.nodeId).filter fun i => decide (i ∈ validated)).filter (fun i =>
    match last i fun data => decide (get data "name" = .str "no_change") && decide (get data "ok" = .bool true),
      last i (fun data => decide (get data "name" = .str "ownership")) with
    | some seq, some ownership => decide (ownership < seq)
    | some _, none => true
    | none, _ => false)

def producerFromStarted (started : Option RunEvent) : Option Fields :=
  started.bind (fun e => match get e.data "producer" with
    | .obj raw => some [("verdict_version",get raw "verdict_version"),("git_sha",get raw "git_sha"),("dirty",get raw "dirty")]
    | _ => none)

variable (nodes : List NodeRecord)

def identityCount (identity : String) : ℕ :=
  (nodes.flatMap NodeRecord.attempts).countP fun row => decide (row.routeIdentity = identity)

def mismatched : Bool :=
  (nodes.flatMap NodeRecord.attempts).any fun row => decide (row.outcome = .success ∧ row.routeIdentity = "mismatch")

/-- Only a run that never executed a node and settled `BLOCKED` may have no plan. -/
def prePlan : Bool :=
  (((events.filter fun e => decide (e.type = .runFinished)).getLast?).any (fun e =>
      decide (get e.data "outcome" = .str "BLOCKED")))
    && events.all fun e => decide (e.nodeId = "" ∧ e.type ≠ .planReady)

def receiptSchema : String := "verdict.run-receipt/v1"

/-- The object `openspec` with the last conformance result of the log. -/
def openspecBlock : Json → Json
  | .obj block => .obj (Dict.put "conformance_result"
      (((events.filter fun e => decide (e.type = .openspecConformance)).getLast?.map fun e => get e.data "result").getD .null)
      block)
  | j => j

/-- `completion_verdict` of an object of the schema. -/
def completionVerdict (receipt : Fields) : String × String :=
  let blocked := fun reason => ("BLOCKED",reason)
  let openspec := (receipt.lookup "openspec").bind (fun block => match block with
    | .obj block => match get block "conformance_result" with
      | .obj check =>
        if get check "status" ≠ .str "PASS" then
          some ("OpenSpec conformance required: " ++ text env ((check.lookup "reason").getD (.str "missing conformance result")))
        else if ¬ truthy (get block "spec_revision_digest")
            ∨ ¬ pyEq (get check "spec_revision_digest") (get block "spec_revision_digest") then
          some "OpenSpec spec_changed: conformance revision differs"
        else if ¬ truthy (get check "output_sha256") ∨ get check "valid" ≠ .bool true ∨ truthy (get check "issues")
            ∨ ¬ pyEq (get check "exit_code") (.int 0) then
          some "OpenSpec conformance evidence invalid"
        else none
      | _ => some "OpenSpec conformance required: missing conformance result"
    | _ => some "OpenSpec block malformed")
  let work := (get receipt "nodes").items.filter (fun n =>
    decide (get n.fields "kind" = .str "implement" ∨ get n.fields "kind" = .str "integrate"))
  let integration := (get receipt "integration").fields
  let review := (get receipt "review").fields
  if get receipt "claimed_outcome" = .str "CANCELLED" then ("CANCELLED","run cancelled by operator")
  else match openspec with
  | some reason => blocked reason
  | none =>
    if work.isEmpty then
      if get receipt "graph_digest" = .null ∧ truthy (get receipt "claimed_reason") then
        blocked (text env (get receipt "claimed_reason"))
      else blocked "no implement/integrate nodes to validate"
    else match work.find? (fun n => decide (get n.fields "final_state" ≠ .str "VALIDATED")) with
    | some n => blocked ("node " ++ text env (get n.fields "node_id") ++ " not VALIDATED (final_state="
        ++ text env (get n.fields "final_state") ++ ")")
    | none =>
      let failed := ((get integration "barriers").items.filter fun b => !truthy (get b.fields "ok")).map (fun b =>
        text env (get b.fields "name"))
      let missing := (get integration "missing").items.map (text env)
      if ¬ truthy (get integration "ok") then
        if failed ≠ [] then blocked ("integration barrier failed: " ++ ", ".intercalate failed)
        else if missing ≠ [] then blocked ("integration barrier missing: " ++ ", ".intercalate missing)
        else blocked "integration barrier not recorded"
      else if get review "status" ≠ .str "PASS" then
        blocked ("review status " ++ text env ((review.lookup "status").getD (.str "MISSING")) ++ " (PASS required)")
      else if truthy (get review "blocking") then
        blocked ("review has " ++ text env (get review "blocking") ++ " blocking finding(s)")
      else ("COMPLETE","all implement/integrate nodes validated, barrier ok, review PASS")

variable (graph : GraphFile)

def receiptBody (plan : Option Plan) (digest : String) (events : List RunEvent)
    (nodes : List NodeRecord) (review : Fields) : Fields :=
  let started := events.find? fun e => decide (e.type = .runStarted)
  let finished := (events.filter fun e => decide (e.type = .runFinished)).getLast?
  let signals := freeForm withNode [.decisionSignals] events
  let gates := freeForm withNode [.repoGates] events
  let gateResults := freeForm withNode [.repoGate] events
  let noChange := (plan.map fun p => noChangeNodes p.graph events nodes).getD []
  let runId := if truthy graph.runId then text env graph.runId
    else (started.bind fun e => textOf env e.data "run_id").getD d.name
  ([("schema",.str receiptSchema),("run_id",.str runId),
    ("goal",.str (match plan with
      | some p => p.goal
      | none => if truthy graph.goal then text env graph.goal else "")),
    ("graph_digest",(plan.map fun p => .str p.digest).getD .null),
    ("topology",(plan.map fun p => .str p.topology).getD .null),
    ("nodes",.arr (nodes.map fun n => .obj n.json)),
    ("route_identity_summary",.obj [("attempts",.int (nodes.flatMap NodeRecord.attempts).length),
      ("match",.int (identityCount nodes "match")),("mismatch",.int (identityCount nodes "mismatch")),
      ("unattested",.int (identityCount nodes "unattested")),("mechanical",.int (identityCount nodes "mechanical"))]),
    ("integration",.obj (integration env plan events)),
    ("reassignments",.arr (freeForm withNode [.reassign] events)),
    ("cooldowns",.arr (freeForm withNode [.cooldown] events)),
    ("review",.obj review),
    ("controller_events",.arr (freeForm withNode [.controller] events)),
    ("planner_attempts",.arr (freeForm withoutNode [.planStarted,.planRepairStarted,.planRepairTerminal] events)),
    ("decision_signals",if signals.isEmpty then .null else .arr signals),
    ("claimed_outcome",.str (((finished.bind fun e => e.data.lookup "outcome").map (text env)).getD "")),
    ("event_count",.int events.length),("events_digest",.str digest),
    ("started_at",((started.or events.head?).map fun e => .str e.time).getD .null),
    ("finished_at",(finished.map fun e => .str e.time).getD .null)] : Fields)
  ++ (match plan, finished with
    | none, some e => [("claimed_reason",.str (String.ofList ((env.redactText
        (((e.data.lookup "reason").map (text env)).getD "")).toList.take 500)))]
    | _, _ => [])
  ++ (match started.map (fun e => get e.data "retry_budget") with
    | some (.obj budget) => [("retry_budget",.obj budget)]
    | _ => [])
  ++ field "producer" ((producerFromStarted started).map .obj)
  ++ (if gates.isEmpty && gateResults.isEmpty then [] else [("repo_gates",.arr gates),("repo_gate_results",.arr gateResults)])
  ++ (if noChange.isEmpty then [] else [("no_change_nodes",.arr (noChange.map .str))])
  ++ (if mismatched nodes then [("route_identity_warning",
      .str "One or more successful attempts reported a model different from the intended route")] else [])
  ++ field "openspec" (graph.openspec.map (openspecBlock events))

def RunDir.eventsFile : Except Raised EventsFile := match d.events with
  | some file => .ok file.repair
  | none => .error (.orchestration "missing events.jsonl")

def RunDir.graphFile : Except Raised GraphFile := d.graph.getD (.ok {})

def GraphFile.parse : Except Raised (Option Plan) := match graph.plan with
  | some parsed => parsed.map some
  | none => .ok none

def buildRunReceipt : Except Raised Fields := do
  let file ← d.eventsFile
  let events ← file.read
  let graph ← d.graphFile
  let plan ← graph.parse
  if plan.isNone ∧ prePlan events = false then
    .error (.orchestration "missing or empty graph.json for a run that was planned")
  else
    let own := fun (n : WorkNode) => events.filter fun e => decide (e.nodeId = n.nodeId)
    let nodes ← ((plan.map fun p => p.graph.nodes).getD []).mapM fun n => nodeRecord env n (own n)
    let review ← reviewBlock env d events
    let body := receiptBody env d graph plan (sha256 file) events nodes review
    let (outcome,reason) := completionVerdict env body
    return body ++ [("outcome",.str outcome),("reason",.str reason)]

end
end Verdict.Evidence

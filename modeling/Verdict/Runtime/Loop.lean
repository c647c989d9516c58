import Verdict.Controls.Channel
import Verdict.Runtime.Driver

/-! # The controller loop and its lives

`DagRuntime.run` with its control handlers, block propagation, crash isolation and `_conclude`,
and `run_golden_path` resuming a run directory. Between two waits of the loop nothing else runs,
so it is either `idle` (suspended in `asyncio.wait`) or `polling`; driver tasks move in every
other phase. A controller may die after any prefix of the events of its step, and the next life
starts from the log alone.
-/
namespace Verdict.Runtime
open Controls Driver

structure Cell where
  run : NodeRun := {}
  task : Option Task := none

/-- The independence level of a review round. -/
inductive Level
  | family | route
  deriving DecidableEq

inductive Phase
  | idle | polling | cancelling | concluding
  | reviewing (level : Level)
  | finished (outcome : RunOutcome)
  deriving DecidableEq

structure Sys where
  cells : String → Cell
  log : List Event
  phase : Phase

/-- `blocking` counts the blocking findings. -/
structure ReviewResult where
  status : ReviewStatus
  routeId : String
  blocking : ℕ := 0
  detail : String := ""
  attempts : ℕ := 0
  deriving DecidableEq

def ReviewResult.passed (r : ReviewResult) : Prop := r.status = .pass ∧ r.blocking = 0

instance (r : ReviewResult) : Decidable r.passed := inferInstanceAs (Decidable (_ ∧ _))

/-- `needle in text`. -/
def inText (needle text : String) : Bool := decide (needle.toList <:+: text.toList)

inductive Recovery
  | reassign | repair | failClosed
  deriving DecidableEq

/-- `RecoveryBudget.decide`, with one verification repair. -/
def decideRecovery (maxAttempts : ℕ) (history : List FailureClassification) (attempts : ℕ) : Recovery :=
  if maxAttempts ≤ max history.length attempts then .failClosed
  else match history.getLast? with
  | none => .reassign
  | some last =>
    if last.action = .block then .failClosed
    else if last.category = .verificationFailed then
      if 1 ≤ (history.filter fun f => decide (f.category = .verificationFailed)).length - 1 then .failClosed
      else .repair
    else .reassign

namespace Cell

variable (c : Cell)

def active : Bool := c.task.any fun t => decide (t.status = .running)

def cancelTask : Cell := {c with task := c.task.map (fun t => {t with cancelRequested := true})}

def block (reason : String) : Cell × List Body :=
  ({c with run := {c.run with state := .blocked, reason := reason}},[.nodeState .blocked "" ""])

/-- One node of `_handle_cancel_run`. -/
def cancelRun : Cell × List Body :=
  let c := c.cancelTask
  let reason := "cancelled by operator"
  match c.run.state with
  | .planned => c.block reason
  | .admitted | .dispatched | .running =>
    ({c with run := {c.run with state := .terminalFailure, reason := reason}},[.nodeState .terminalFailure "" ""])
  | _ => (c,[])

/-- `_handle_cancel_node`; only active work can be cancelled. -/
def cancelNode : Cell × List Body :=
  let reason := "cancelled_by_operator"
  match c.run.state with
  | .planned =>
    let (c',bodies) := c.cancelTask.block reason
    (c',bodies ++ [.note .control])
  | .admitted | .dispatched | .running =>
    let (c',bodies) := c.cancelTask.block reason
    (c',[.nodeState .terminalFailure "" ""] ++ bodies ++ [.note .control])
  | _ => (c,[.note .control])

/-- The guards of `_handle_retry_node`. -/
def retriable (cfg : Config) (c : Cell) : Prop :=
  (c.run.state = .terminalFailure ∨ c.run.state = .blocked) ∧ c.active = false
    ∧ inText "cancelled" c.run.reason = false ∧ c.run.failures ≠ []
    ∧ decideRecovery cfg.policy.maxAttemptsPerNode c.run.failures c.run.attempt ≠ .failClosed

instance (cfg : Config) (c : Cell) : Decidable (c.retriable cfg) := inferInstanceAs (Decidable (_ ∧ _))

def retryNode (cfg : Config) (c : Cell) : Cell × List Body :=
  if c.retriable cfg then
    ({c with run := {c.run with state := .planned, reason := ""}},[.nodeState .planned "" "",.note .control])
  else (c,[.note .control])

/-- A finished task leaves `pending`; a crashed driver blocks only its node. -/
def reap : Cell × List Body :=
  match c.task with
  | none => (c,[])
  | some t => match t.status with
    | .running => (c,[])
    | .returned | .cancelled => ({c with task := none},[])
    | .raised text =>
      let state := if c.run.state = .validated ∨ c.run.state = .blocked then c.run.state else .blocked
      (⟨{c.run with reason := "driver crash: " ++ text, state := state},none⟩,[.nodeState .blocked "" ""])

def drive (cfg : Config) (n : WorkNode) (c : Cell) (reply : Reply) : Option (Cell × List Body) :=
  match c.task with
  | none => none
  | some t =>
    if t.status ≠ .running then none
    else (script cfg n t c.run reply).map (fun (effs,t') =>
      let p := perform c.run effs
      (⟨p.run,some (if p.ok then t' else {t with status := .raised "illegal transition"})⟩,p.events))

/-- An exception ends the task: in the awaited call, or behind the first `k` effects. -/
def raised (cfg : Config) (n : WorkNode) (c : Cell) (during : Option (Reply × ℕ)) (text : String) :
    Option (Cell × List Body) :=
  match c.task with
  | none => none
  | some t =>
    if t.status ≠ .running then none
    else match during with
    | none => some ({c with task := some {t with status := .raised text}},[])
    | some (reply,k) => (script cfg n t c.run reply).map (fun (effs,_) =>
        let p := perform c.run (effs.take k)
        (⟨p.run,some {t with status := .raised text}⟩,p.events))

/-- `CancelledError` is delivered at the `await`; an awaited call may also swallow it, and
then the task goes on. -/
def cancelled (c : Cell) : Option (Cell × List Body) :=
  match c.task with
  | none => none
  | some t => if t.status = .running ∧ t.cancelRequested then
      some ({c with task := some {t with status := .cancelled}},[]) else none

/-- What `run_golden_path` restores of a node from the log of earlier lives. -/
def boot (past : List Body) : Cell :=
  match priorValidated past with
  | some (commit,routeId) => {run := {state := .validated, commit := commit, routeId := routeId}}
  | none => {run := {attempt := priorAttempts past}}

def holdsSlot : Bool :=
  c.task.any (fun t => decide (t.status = .running) && match t.pc with
    | .prepare | .commitPermit | .execute | .checkEpoch | .validate | .verify _ | .gates | .commit | .seal
    | .failing | .settling | .leaving => true
    | _ => false)

end Cell

namespace Sys
variable (g : WorkGraph) (cfg : Config)

def put (s : Sys) (i : String) (c : Cell) (bodies : List Body) : Sys :=
  {s with cells := fun j => if j = i then c else s.cells j, log := s.log ++ bodies.map (Event.mk i)}

variable (s : Sys)

def say (bodies : List Body) : Sys := {s with log := s.log ++ bodies.map (Event.mk "")}

def finish (outcome : RunOutcome) : Sys :=
  {s.say [.runFinished outcome] with phase := .finished outcome}

def sweep (f : Sys → WorkNode → Cell × List Body) (s : Sys) (nodes : List WorkNode) : Sys :=
  nodes.foldl (fun s n => s.put n.nodeId (f s n).1 (f s n).2) s

variable (n : WorkNode)

def reapOne : Cell × List Body := (s.cells n.nodeId).reap

def cancelOne : Cell × List Body := ((s.cells n.nodeId).cancelTask,[])

def cancelRunOne : Cell × List Body := (s.cells n.nodeId).cancelRun

def blockedDeps : List String :=
  n.dependsOn.filter fun d => decide ((s.cells d).run.state = .blocked)

def blockable : Prop :=
  (s.cells n.nodeId).run.state = .planned ∧ s.blockedDeps n ≠ []

instance (s : Sys) (n : WorkNode) : Decidable (s.blockable n) := inferInstanceAs (Decidable (_ ∧ _))

def blockOne : Cell × List Body :=
  if s.blockable n then
    (s.cells n.nodeId).block ("dependency blocked: " ++ ", ".intercalate (s.blockedDeps n))
  else (s.cells n.nodeId,[])

/-- Passes over the nodes until one changes nothing. -/
def propagateBlocks : ℕ → Sys → Sys
  | 0, s => s
  | fuel+1, s => if ∃ n ∈ g.nodes, s.blockable n then propagateBlocks fuel (sweep blockOne s g.nodes) else s

def ready : Prop :=
  (s.cells n.nodeId).run.state = .planned ∧ ∀ d ∈ n.dependsOn, (s.cells d).run.state = .validated

instance (s : Sys) (n : WorkNode) : Decidable (s.ready n) := inferInstanceAs (Decidable (_ ∧ _))

def spawnOne : Cell × List Body :=
  if s.ready n ∧ (s.cells n.nodeId).task = none then ({s.cells n.nodeId with task := some {}},[])
  else (s.cells n.nodeId,[])

def commits : List String :=
  (g.nodes.map fun n => (s.cells n.nodeId).run.commit).filter fun c => decide (c ≠ "")

/-- The routes `_conclude` excludes from the review. -/
def implementers : List String :=
  (g.nodes.flatMap fun n => (s.cells n.nodeId).run.routeId :: (s.cells n.nodeId).run.historyRoutes).filter
    (fun r => decide (r ≠ ""))

def settledAll : Prop := ∀ n ∈ g.nodes, (s.cells n.nodeId).run.state = .validated

instance (s : Sys) : Decidable (s.settledAll g) := inferInstanceAs (Decidable (∀ n ∈ g.nodes, _))

/-- The end of an iteration: propagate, start what is ready, and leave the loop when no
task is pending. -/
def launch : Sys :=
  let s := sweep spawnOne (propagateBlocks g g.nodes.length s) g.nodes
  if ∃ n ∈ g.nodes, (s.cells n.nodeId).task ≠ none then {s with phase := .idle}
  else if s.settledAll g then {s with phase := .concluding}
  else s.finish .blocked

def handle (req : ControlRequest) : Sys :=
  let nodeId := req.nodeId.getD ""
  match req.kind with
  | .cancelRun => {(sweep cancelRunOne s g.nodes).say [.note .control] with phase := .cancelling}
  | .cancelNode =>
    if nodeId ∉ g.ids then s.say [.note .control]
    else s.put nodeId (s.cells nodeId).cancelNode.1 (s.cells nodeId).cancelNode.2
  | .retryNode =>
    if nodeId ∉ g.ids then s.say [.note .control]
    else s.put nodeId ((s.cells nodeId).retryNode cfg).1 ((s.cells nodeId).retryNode cfg).2

/-- `_conclude` behind the merge of the leaves. -/
def integrated (ref : String) : Sys :=
  let s := s.say [.integrate (s.commits g) ref,.barrier "integration" true]
  if ¬ cfg.policy.requireReview then s.finish .complete
  else if ¬ cfg.reviewer then s.finish .blocked
  else {s with phase := .reviewing .family}

def reviewed (level : Level) (r : ReviewResult) : Sys :=
  let s := s.say [.note .controller]
  if level = .family ∧ r.status = .error ∧ inText "no independent reviewer" r.detail then
    {s with phase := .reviewing .route}
  else
    let s := s.say (List.replicate r.attempts (.note .reviewAttempt) ++ [.review r.status r.routeId r.blocking])
    if r.passed then s.finish .complete else s.finish .blocked

def slotFree : Prop :=
  ((g.nodes.filter fun n => (s.cells n.nodeId).holdsSlot).length : ℤ)
    < min cfg.policy.maxParallel g.maxParallel

instance (s : Sys) : Decidable (s.slotFree g cfg) := inferInstanceAs (Decidable (_ < _))

def boot (log : List Event) : Sys where
  cells i := Cell.boot (nodeLog i log)
  log := log ++ [⟨"",.note .runStarted⟩]
    ++ (if ∃ n ∈ g.nodes, priorValidated (nodeLog n.nodeId log) ≠ none then [⟨"",.note .controller⟩] else [])
    ++ (g.nodes.filter (fun n => decide (priorValidated (nodeLog n.nodeId log) = none
        ∧ priorAttempts (nodeLog n.nodeId log) ≠ 0))).map (fun n => ⟨n.nodeId,.note .controller⟩)
    ++ [⟨"",.note .topology⟩]
  phase := .polling

end Sys

/-- What can happen in one life of a controller. -/
inductive Live
  | wake (deadline : Bool)
  | control (request : ControlRequest)
  | launch
  | drive (nodeId : String) (reply : Reply)
  | raised (nodeId : String) (during : Option (Reply × ℕ)) (text : String)
  | cancelled (nodeId : String)
  | drained
  | merged (ref : String)
  | reviewed (result : ReviewResult)
  deriving DecidableEq

/-- What is appended to the log between two lives: reports of the supervisor and of a
controller behind its run, and the verdict on a run that was given up. -/
inductive Report
  | note (type : Note)
  | failedClosed

def Report.event : Report → Event
  | note type => ⟨"",.note type⟩
  | failedClosed => ⟨"",.runFinished .blocked⟩

/-- `restart`: the controller dies, perhaps behind the first `k` events of a step, and
`run_golden_path` is started again on the directory. -/
inductive Act
  | live (a : Live)
  | restart (during : Option (Live × ℕ)) (reports : List Report := [])

namespace Sys
variable (g : WorkGraph) (cfg : Config)

def driven (s : Sys) (i : String) (f : WorkNode → Cell → Option (Cell × List Body)) : Option Sys :=
  if s.phase = .polling then none
  else (WorkGraph.node? g.nodes i).bind (fun n =>
    (f n (s.cells i)).map fun (c,bodies) => s.put i c bodies)

def waitsForSlot (c : Cell) : Bool := c.task.any (fun t => match t.pc with
  | .slot _ => true
  | _ => false)

def liveStep (s : Sys) : Live → Option Sys
  | .wake deadline =>
    if s.phase ≠ .idle then none
    else
      let s := sweep reapOne s g.nodes
      some (if deadline then (sweep cancelOne s g.nodes).finish .blocked else {s with phase := .polling})
  | .control request => if s.phase = .polling then some (s.handle g cfg request) else none
  | .launch => if s.phase = .polling then some (s.launch g) else none
  | .drive i reply =>
    if waitsForSlot (s.cells i) ∧ ¬ s.slotFree g cfg then none
    else s.driven g i fun n c => c.drive cfg n reply
  | .raised i during text => s.driven g i fun n c => c.raised cfg n during text
  | .cancelled i => s.driven g i fun _ c => c.cancelled
  | .drained =>
    if s.phase = .cancelling ∧ ∀ n ∈ g.nodes, (s.cells n.nodeId).active = false then some (s.finish .cancelled)
    else none
  | .merged ref => if s.phase = .concluding then some (s.integrated g cfg ref) else none
  | .reviewed r => match s.phase with
    | .reviewing level => some (s.reviewed level r)
    | _ => none

def cutLog (s : Sys) : Option (Live × ℕ) → Option (List Event)
  | none => some s.log
  | some (a,k) => (s.liveStep g cfg a).map fun t => t.log.take (s.log.length + k)

def step (s : Sys) : Act → Option Sys
  | .live a => s.liveStep g cfg a
  | .restart during reports => (s.cutLog g cfg during).map fun cut => boot g (cut ++ reports.map Report.event)

def init : Sys := boot g []

end Sys
end Verdict.Runtime

import Verdict.Receipt.Completion

/-! # The supervisor of a controller

`ControllerSupervisor.run` polls the event log for a verdict of the run, stops the controller, and
starts the next generation or returns. The controller runs `DagRuntime.run` and then writes the
receipt, which may override the outcome. The two interleave freely over the run directory (`file`
and `receipt`), to which both append. Clock, leases and process handling are known by what a poll
or a cleanup finds. Generation 0 has been spawned.
-/
namespace Verdict.Supervisor
open Verdict.Runtime Verdict.Receipt

/-- Where the controller process is: in `DagRuntime.run`, behind it with the receipt still
to be written, behind a receipt that overrides the outcome, or gone. -/
inductive Stage
  | running
  | reporting (outcome : RunOutcome)
  | overriding (outcome : RunOutcome)
  | rewriting (outcome : RunOutcome)
  | done (outcome : RunOutcome)
  | dead
  deriving DecidableEq

namespace Stage

def alive : Stage → Bool
  | done _ | dead => false
  | _ => true

def written : Stage → Option RunOutcome
  | overriding outcome | rewriting outcome | done outcome => some outcome
  | _ => none

def killed (stage : Stage) : Stage := if stage.alive then dead else stage

theorem killed_alive (stage : Stage) : stage.killed.alive = false := by cases stage <;> rfl

end Stage

inductive Watch
  | finished (outcome : RunOutcome)
  | stalled | operationExpired | exited | deadline
  deriving DecidableEq

inductive State
  | complete | blocked
  deriving DecidableEq

/-- What the end of `_supervise_one` finds out: the controller and its workers are gone, only
the controller is, or `_kill` could not verify that it is. -/
inductive Cleanup
  | cleaned | workersLeft | unverified
  deriving DecidableEq

/-- `stopping`: the watch has ended, and the controller is being terminated. -/
inductive Mode
  | watching
  | stopping (watch : Watch)
  | returned (state : State)
  deriving DecidableEq

structure Clock where
  deadline : Bool := false
  expired : Bool := false
  stalled : Bool := false
  deriving DecidableEq

structure World where
  sys : Sys
  file : List Event
  stage : Stage
  receipt : Option RunReceipt
  (startSeq restarts : ℕ)
  mode : Mode

namespace World
variable (g : WorkGraph) (cfg : Config) (maxRestarts : ℕ)

def start (file : List Event) (receipt : Option RunReceipt) : World where
  sys := Sys.boot g file
  file := (Sys.boot g file).log
  stage := .running
  receipt := receipt
  startSeq := file.length
  restarts := 0
  mode := .watching

variable (w : World)

def report (reports : List Report) : World := {w with file := w.file ++ reports.map Report.event}

/-- The run's own verdict for this supervision. -/
def finished : Option RunOutcome := claimedOutcome (w.file.drop w.startSeq)

/-- One round of `_watch`. -/
def poll (w : World) (clock : Clock) : World :=
  if clock.deadline then {w with mode := .stopping .deadline}
  else match w.finished with
  | some outcome => {w with mode := .stopping (.finished outcome)}
  | none =>
    if ¬ w.stage.alive then {w with mode := .stopping .exited}
    else if clock.expired then {w with mode := .stopping .operationExpired}
    else if clock.stalled then {w with mode := .stopping .stalled}
    else w

def failClosed : World :=
  let w := w.report [.note .controller]
  {w.report (if w.finished = none then [.failedClosed] else []) with mode := .returned .blocked}

def spawn : World :=
  {w with
    sys := Sys.boot g w.file
    file := (Sys.boot g w.file).log
    stage := .running
    mode := .watching}

/-- `_note_death` and the next round of `run`. `late`: the deadline is spent, or there is no
command. -/
def restart (late spawned : Bool) : World :=
  let w := w.report [.note .controller]
  if maxRestarts ≤ w.restarts then w.failClosed
  else
    let w := {w with restarts := w.restarts + 1}
    if late then w.failClosed
    else
      let w := w.report [.note .controller]
      if spawned then w.spawn g else {w with mode := .stopping .exited}

def kill : World := {w with stage := w.stage.killed}

/-- The end of `_supervise_one`, and what `run` makes of it. Where an `OwnershipError` leaves
it, a controller that was not seen to end goes on. -/
def stop (watch : Watch) (late spawned : Bool) : Cleanup → World
  | .unverified => w.failClosed
  | .workersLeft => w.kill.failClosed
  | .cleaned => match watch with
    | .finished outcome => {w.kill with mode := .returned (if outcome = .complete then .complete else .blocked)}
    | .deadline => w.kill.failClosed
    | .stalled | .operationExpired | .exited => w.kill.restart g maxRestarts late spawned

/-- The controller appends what it has logged beyond `seen` to the shared file. -/
def append (seen log : List Event) : World := {w with file := w.file ++ log.drop seen.length}

/-- `write_run_receipt` and the verdict on it. `replaced`: the new receipt is in place.
`ok`: nothing was raised. -/
def wrote (outcome : RunOutcome) (replaced ok : Bool) : Option World :=
  let receipt := buildRunReceipt g w.file
  let w := if replaced then {w with receipt := some receipt} else w
  if ¬ ok then some {w.report [.note .controller] with stage := .dead}
  else if ¬ replaced then none
  else some {w with stage := if receipt.completionVerdict.1 = outcome then .done outcome else .overriding outcome}

end World

inductive Tick
  | live (a : Live)
  | returned
  | wrote (replaced ok : Bool)
  | overrode
  | rewrote (replaced : Bool)
  | crashed (during : Option (Live × ℕ))
  | poll (clock : Clock)
  | stop (cleanup : Cleanup) (late spawned : Bool)
  deriving DecidableEq

def World.step (g : WorkGraph) (cfg : Config) (maxRestarts : ℕ) (w : World) : Tick → Option World
  | .live a =>
    if w.stage = .running then (w.sys.liveStep g cfg a).map (fun t => {w.append w.sys.log t.log with sys := t}) else none
  | .returned => match w.stage, w.sys.phase with
    | .running, .finished outcome => some {w with stage := .reporting outcome}
    | _, _ => none
  | .wrote replaced ok => match w.stage with
    | .reporting outcome => w.wrote g outcome replaced ok
    | _ => none
  | .overrode => match w.stage with
    | .overriding outcome => some {w.report [.note .controller] with stage := .rewriting outcome}
    | _ => none
  | .rewrote replaced => match w.stage with
    | .rewriting outcome => some {w with
        receipt := if replaced then some (buildRunReceipt g w.file) else w.receipt
        stage := .done outcome}
    | _ => none
  | .crashed during => match w.stage with
    | .running => (w.sys.cutLog g cfg during).map fun cut => {w.append w.sys.log cut with stage := .dead}
    | .reporting _ | .overriding _ | .rewriting _ => some {w with stage := .dead}
    | _ => none
  | .poll clock => if w.mode = .watching then some (w.poll clock) else none
  | .stop cleanup late spawned => match w.mode with
    | .stopping watch => some (w.stop g maxRestarts watch late spawned cleanup)
    | _ => none

end Verdict.Supervisor

import Verdict.Runtime.NodeRun

/-! # The driver of a node

`_drive`, `_attempt`, `_validate`, `_fail` and `_integrate_node` as one resumable task. A program
counter names the `await` the task is suspended at, a reply is what the awaited call answers, with
the synchronous calls behind it, and `segment` gives the effects up to the next `await`. Selector,
executor, classifier, git and the gates are known through their replies. The loop head of `_drive`
is reached without an `await`, so `script` appends it to the segment that jumps there.
-/
namespace Verdict.Runtime

inductive Pc
  | start | top | select | cooldown
  | bindProof (routeId : String)
  | slot (previous : String)
  | prepare | commitPermit | execute | checkEpoch | validate
  | verify (changed : Bool)
  | gates | commit | seal | failing | settling | infraSleep | leaving
  | mergeBase
  | mergeWorktree (base : String)
  | mergeVerify (base : String)
  | mergeGates (base : String)
  | mergeRemove (base : String) (failed : Option String)
  deriving DecidableEq

inductive Status
  | running | returned | cancelled
  | raised (text : String)
  deriving DecidableEq

/-- An `asyncio.Task` of `_drive`, with the locals of its loop. -/
structure Task where
  pc : Pc := .start
  status : Status := .running
  cancelRequested : Bool := false
  waitedOnce : Bool := false
  revocations : ℕ := 0

inductive Origin
  | matched | unknown | mismatch
  deriving DecidableEq

inductive Reply
  | started
  | noRoute (coolingSoon : Bool) (explanation : String)
  | route (routeId : String) (blocker : Bool)
  | woke
  | proof (found : Bool)
  | slot (blocker : Bool)
  | prepared (restored fits : Bool) (origin : Origin)
  | permit (granted : Bool)
  | executed (ok usable : Bool) (failure : FailureClassification)
  | epoch (unchanged : Bool)
  | changed (files : List String) (failure : FailureClassification)
  | ran (ok : Bool) (failure : FailureClassification) (tail : String)
  | noted (type : Note)
  | gated (ok : Bool) (failure : FailureClassification) (reason : String)
  | committed (sha : String)
  | salvaged (found : Bool)
  | removed (gone : Bool)
  | base (sha : String)
  | conflict (text : String)
  | added
  deriving DecidableEq

abbrev Segment := List Eff × Task

namespace Driver
variable (cfg : Config) (n : WorkNode) (t : Task) (run : NodeRun)

def Worker (n : WorkNode) : Prop := n.kind = .implement ∨ n.kind = .research

instance : Decidable (Worker n) := inferInstanceAs (Decidable (_ ∨ _))

def goto (pc : Pc) : Task := {t with pc := pc}

def ret : Task := {t with status := .returned}

/-- Stop with `BLOCKED` and a `pool_exhausted` failure event. -/
def exhausted (reason routeId : String) : List Eff :=
  [.reason reason,.set .blocked "",.emit (.failure .poolExhausted routeId none)]

def budgetReason : String :=
  "replacement budget exhausted after " ++ toString run.attempt ++ " attempts: " ++
    ", ".intercalate (run.history.map fun h => h.routeId ++ ":" ++ h.outcome.name)

/-- The head of the loop of `_drive`. -/
def loopHead : Segment :=
  if cfg.policy.maxAttemptsPerNode ≤ run.attempt then (exhausted (budgetReason run) run.routeId,ret t)
  else ([],goto t .select)

def revoked (routeId : String) : Segment :=
  let t := {t with revocations := t.revocations + 1}
  if cfg.policy.maxAttemptsPerNode < t.revocations then
    (exhausted "pre-dispatch revalidation kept revoking selections" routeId,ret t)
  else ([],goto t .top)

def bound (routeId : String) : Segment :=
  ([.bind routeId,.emit (.note .eligibility),.emit (.selection routeId (run.attempt + 1))]
    ++ (if run.routeId ≠ "" ∧ run.failures ≠ [] then [.emit (.note .reassign)] else []),
    goto t (.slot run.routeId))

variable (failure : FailureClassification)

def denied (reason : String) : List Eff :=
  recordFailure cfg run failure false ++ [.reason reason,.set .blocked ""]

def restoring (restored : Bool) : List Eff :=
  if restored ∧ 1 < run.attempt ∧ n.ownedFiles ≠ [] then
    [.emit (.note .restore),.record ⟨run.attempt,run.routeId,.restore⟩]
  else []

def sending (restored : Bool) : List Eff :=
  restoring n run restored ++ [.set .dispatched "",.emit (.dispatch run.routeId run.attempt),
    .set .running "",.emit (.note .hydrate)]

/-- `_attempt` from the prepared worktree up to the send. -/
def prepared (restored fits : Bool) (origin : Origin) : Segment :=
  let send := sending n run restored
  if ¬ fits then
    (send ++ denied cfg run ⟨.contextInputRejected,.failClosed,0,.none⟩
      "context_input_rejected: full prompt exceeds conservative input budget",goto t .leaving)
  else if cfg.authority then
    match origin with
    | .unknown => (send ++ denied cfg run ⟨.dispatchDenied,.block,0,.none⟩
        "dispatch_denied: executor origin unknown",goto t .leaving)
    | .mismatch => (send ++ denied cfg run ⟨.dispatchDenied,.block,0,.none⟩
        "dispatch_denied: executor origin mismatch",goto t .leaving)
    | .matched => (send,goto t .commitPermit)
  else if cfg.policy.requireDispatchPermit then
    (send ++ denied cfg run ⟨.dispatchDenied,.block,0,.none⟩
      "dispatch_denied: no admission proof for the bound route",goto t .leaving)
  else (send,goto t .execute)

def executed (ok usable : Bool) (failure : FailureClassification) : Segment :=
  let terminal := [Eff.emit (.terminal ok run.routeId run.attempt)]
  if ¬ ok ∨ ¬ usable then (terminal ++ recordFailure cfg run failure false,goto t .failing)
  else if cfg.authority then (terminal,goto t .checkEpoch)
  else (terminal ++ [.set .terminalSuccess ""],goto t .validate)

/-- `_validate` behind the ownership check. -/
def verifying (changed : Bool) : Segment :=
  if n.verificationCommand ≠ [] then ([],goto t (.verify changed))
  else ([.emit (.verify true)],goto t .commit)

/-- `_validate` on the changed files of the worktree. -/
def validated (files : List String) (failure : FailureClassification) : Segment :=
  if n.kind = .implement then
    let outside := files.filter fun p => !n.owns p
    if outside ≠ [] then
      ([.emit (.barrier "ownership" false)] ++ recordFailure cfg run failure true,goto t .failing)
    else
      let rest := verifying n t (decide (files ≠ []))
      ([.emit (.barrier "ownership" true)]
        ++ (if files = [] then [.emit (.barrier "no_change" true)] else []) ++ rest.1,rest.2)
  else if n.ownedFiles = [] ∧ files ≠ [] then
    ([.emit (.barrier "ownership" false)] ++ recordFailure cfg run failure true,goto t .failing)
  else verifying n t (decide (files ≠ []))

/-- Halve the context budget, not below the floor. -/
def repack : List Eff :=
  let current := if run.contextBudget = 0 then cfg.policy.contextBudgetBytes else run.contextBudget
  let smaller := max cfg.policy.minContextBudgetBytes (current / 2)
  if current ≤ smaller then []
  else [.budget smaller,.emit (.note .repack)]
    ++ (if cfg.takesBudget ∧ run.routeId ∉ run.repackedRoutes then [.repacked run.routeId] else [])

def adjust : List Eff :=
  match failure.category with
  | .contextLengthExceeded => repack cfg run
  | .verificationFailed | .ownershipViolation =>
    if run.routeId ∉ run.rehydratedRoutes then [.rehydrated run.routeId,.emit (.note .rehydrate)] else []
  | _ => []

/-- `_drive` behind a failed attempt. -/
def settle : Segment :=
  match run.failures.getLast? with
  | none => ([.set .planned ""],goto t .top)
  | some failure =>
    if failure.action = .retryInfra then ([],goto t .infraSleep)
    else if failure.action = .block then
      (adjust cfg run failure ++ [.reason ("non-recoverable: " ++ failure.category.name),.set .blocked ""],ret t)
    else (adjust cfg run failure ++ [.set .planned ""],goto t .top)

def barrierName (n : WorkNode) : String := match n.barrier with
  | some b => b.name
  | none => "integration"

/-- `_integrate_node` behind the removal of its worktree. -/
def mergeRemoved (base : String) : Option String → Segment
  | none => ([.commit base,.record ⟨run.attempt,"",.validated⟩,.set .validated base],ret t)
  | some reason => ([.reason reason]
      ++ recordFailure cfg run ⟨.verificationFailed,.correctImplementation,0,.none⟩ true
      ++ [.set .blocked ""],ret t)

/-- The effects from an `await` to the next, for the reply of the awaited call. -/
def segment : Pc → Reply → Option Segment
  | .start, .started =>
    if Worker n then some ([],goto t .top)
    else some ([.bind "",.set .admitted "",.set .dispatched "",.set .running ""],goto t .mergeBase)
  | .select, .noRoute soon explanation =>
    if soon ∧ ¬ t.waitedOnce then some ([.emit (.note .cooldown)],goto t .cooldown)
    else some ([.reason ("no eligible model: " ++ explanation),.emit (.note .eligibility),.set .blocked "",
      .emit (.failure .poolExhausted "" none)],ret t)
  | .select, .route routeId blocker =>
    if routeId = "" then none
    else if blocker then
      let rest := revoked cfg t routeId
      some ([.emit (.note .eligibility)] ++ rest.1,rest.2)
    else if cfg.authority then some ([],goto t (.bindProof routeId))
    else some (bound t run routeId)
  | .cooldown, .woke => some ([],{t with pc := .top, waitedOnce := true})
  | .bindProof routeId, .proof found =>
    if found then some (bound t run routeId)
    else
      let rest := revoked cfg t routeId
      some ([.emit (.note .eligibility)] ++ rest.1,rest.2)
  | .slot previous, .slot blocker =>
    if blocker then
      let rest := revoked cfg t run.routeId
      some ([.emit (.note .eligibility),.unbind previous] ++ rest.1,rest.2)
    else some ([.set .admitted ""],goto t .prepare)
  | .prepare, .prepared restored fits origin => some (prepared cfg n t run restored fits origin)
  | .commitPermit, .permit granted =>
    if granted then some ([.emit (.note .controller)],goto t .execute)
    else some (recordFailure cfg run ⟨.permitDenied,.reroute,0,.none⟩ false,goto t .settling)
  | .execute, .executed ok usable failure => some (executed cfg t run ok usable failure)
  | .checkEpoch, .epoch unchanged =>
    if unchanged then some ([.set .terminalSuccess ""],goto t .validate)
    else some (recordFailure cfg run ⟨.permitRevokedAfterCommit,.reroute,0,.none⟩ false,goto t .settling)
  | .validate, .changed files failure => some (validated cfg n t run files failure)
  | .verify changed, .ran ok failure _ =>
    if ¬ ok then some ([.emit (.verify false)] ++ recordFailure cfg run failure true,goto t .failing)
    else some ([.emit (.verify true)], goto t (if n.kind = .implement ∧ changed then .gates else .commit))
  | .gates, .noted type => some ([.emit (.note type)],t)
  | .gates, .gated ok failure _ =>
    if ok then some ([],goto t .commit) else some (recordFailure cfg run failure true,goto t .failing)
  | .commit, .committed sha => if sha = "" then none else some ([.commit sha],goto t .seal)
  | .seal, .removed gone =>
    some ([.record ⟨run.attempt,run.routeId,.validated⟩,.set .validated run.commit],
      if gone then ret t else goto t .leaving)
  | .failing, .salvaged found =>
    some (if found ∧ n.ownedFiles ≠ [] then
      [.emit (.note .salvage),.record ⟨run.attempt,run.routeId,.salvage⟩] else [],goto t .settling)
  | .settling, .removed _ => some (settle cfg t run)
  | .infraSleep, .woke => some ([.set .planned ""],goto t .top)
  | .leaving, .removed _ => some ([],ret t)
  | .mergeBase, .conflict text =>
    some ([.set .terminalFailure "",.reason ("integration merge failed: " ++ text),
      .emit (.barrier (barrierName n) false),.set .blocked ""],ret t)
  | .mergeBase, .base sha =>
    if sha = "" then none
    else some ([.emit (.terminal true "" run.attempt),.set .terminalSuccess ""],goto t (.mergeWorktree sha))
  | .mergeWorktree base, .added =>
    some ([],goto t (if n.verificationCommand ≠ [] then .mergeVerify base else .mergeGates base))
  | .mergeVerify base, .ran ok _ tail =>
    if ok then some ([.emit (.verify true)],goto t (.mergeGates base))
    else some ([.emit (.verify false),.emit (.barrier (barrierName n) false)],
      goto t (.mergeRemove base (some ("integration verification failed: " ++ tail))))
  | .mergeGates _, .noted type => some ([.emit (.note type)],t)
  | .mergeGates base, .gated ok _ reason =>
    some ([.emit (.barrier (barrierName n) ok)],goto t (.mergeRemove base (if ok then none else some reason)))
  | .mergeRemove base failed, .removed _ => some (mergeRemoved cfg t run base failed)
  | _, _ => none

def script (reply : Reply) : Option Segment :=
  (segment cfg n t run t.pc reply).map (fun (effs,t') =>
    if t'.pc = .top ∧ t'.status = .running then
      let head := loopHead cfg t' (perform run effs).run
      (effs ++ head.1,head.2)
    else (effs,t'))

end Driver
end Verdict.Runtime

import Mathlib.Algebra.Order.Ring.Rat
import Mathlib.Data.List.Infix
import Mathlib.Data.List.Sort
import Verdict.Basics.Dict
import Verdict.Basics.Raising

/-! # Issue leases

A lease is kept in two files: `active.json` holds the last one of the issue, and each generation
has a file of its own. Every call is the list of the files it writes, so that a crash leaves the
directory after some of them. `release_lease` does not ask whether the lease is still active.
-/
namespace Verdict.Leases
open Raising

inductive LeaseStatus
  | active | superseded | released
  deriving DecidableEq

def LeaseStatus.text : LeaseStatus → String
  | .active => "ACTIVE"
  | .superseded => "SUPERSEDED"
  | .released => "RELEASED"

structure Lease where
  (issue dispatchId workerId worktree branch : String)
  generation : ℕ
  status : LeaseStatus
  acquiredAt : ℚ
  acquiredAtIso : String
  heartbeatAt : ℚ
  heartbeatAtIso : Option String := none
  lastProgressAt : ℚ
  lastProgressAtIso : Option String := none
  staleAfterSeconds : ℚ
  bounded : 0 < staleAfterSeconds
  supervisorId : String
  supersededReason : Option String := none
  releasedAt : Option ℚ := none
  deriving DecidableEq

def Lease.isStale (lease : Lease) (now : ℚ) : Bool := decide (lease.staleAfterSeconds < now - lease.lastProgressAt)

/-- `{**lease, "status": "SUPERSEDED", "superseded_reason": "stale_progress"}`. -/
def Lease.fenced (lease : Lease) : Lease := {lease with status := .superseded,supersededReason := some "stale_progress"}

inductive LeaseError
  | invalidIssue
  | noIdentity
  | noBound
  | held (worker dispatch : String) (generation : ℕ)
  | nothingToHeartbeat
  | fenced (active : ℕ)
  | nothingToRelease
  | notCurrent
  | noLease
  | notActive (status : LeaseStatus)
  | otherAttempt
  | superseded
  | stale
  deriving DecidableEq

def LeaseError.message : LeaseError → String
  | .invalidIssue => "invalid issue identifier"
  | .noIdentity => "lease needs dispatch and worker identity"
  | .noBound => "lease staleness bound must be positive"
  | .held worker dispatch generation => "lease held by worker " ++ worker ++ " (dispatch " ++ dispatch ++ ", generation " ++
      toString generation ++ "); stop and supersede it before assigning a new writer"
  | .nothingToHeartbeat => "no lease to heartbeat"
  | .fenced active => "writer is fenced (active generation " ++ toString active ++ "); its writes are superseded"
  | .nothingToRelease => "no lease to release"
  | .notCurrent => "only the current lease generation may release"
  | .noLease => "no active issue lease; dispatch must acquire one first"
  | .notActive status => "lease is not active (" ++ status.text ++ "); writer is fenced"
  | .otherAttempt => "lease dispatch_id does not match the hydrated packet attempt"
  | .superseded => "lease generation or identity superseded; this writer is fenced"
  | .stale => "lease is stale; rehydrate and redispatch first"

/-! ### Files -/

structure Folder where
  active : Option Lease := none
  generations : Dict ℕ Lease := .empty
  lock : Option ℕ := none

/-- The directories under `leases`, by issue. -/
abbrev State := Dict String Folder

def folder (s : State) (issue : String) : Folder := (s.get? issue).getD {}

/-- `bool(issue) and "/" not in issue and ".." not in issue`. -/
def validIssue (issue : String) : Bool :=
  decide (issue ≠ "" ∧ '/' ∉ issue.toList ∧ ¬['.','.'] <:+: issue.toList)

def readLease (s : State) (issue : String) : Except LeaseError (Option Lease) := do
  require (validIssue issue = true) .invalidIssue
  .ok (folder s issue).active

def readLeaseHistory (s : State) (issue : String) : Except LeaseError (List Lease) := do
  require (validIssue issue = true) .invalidIssue
  .ok ((folder s issue).generations.values.insertionSort fun a b => a.generation ≤ b.generation)

inductive File
  | generation | active | lock

/-- One write of `_persist_lease`. -/
structure Write where
  file : File
  lease : Lease

def Folder.write (f : Folder) (w : Write) : Folder := match w.file with
  | .generation => {f with generations := f.generations.set w.lease.generation w.lease}
  | .active => {f with active := some w.lease}
  | .lock => {f with lock := some w.lease.generation}

def write (s : State) (w : Write) : State := s.set w.lease.issue ((folder s w.lease.issue).write w)

def writeAll (s : State) (ws : List Write) : State := ws.foldl write s

def persistLease (lease : Lease) : List Write := [⟨.generation,lease⟩,⟨.active,lease⟩,⟨.lock,lease⟩]

/-! ### Calls -/

structure Acquire where
  (issue dispatchId workerId worktree branch : String)
  staleAfterSeconds : ℚ
  supervisorId : String
  now : ℚ

inductive Call
  | acquire (a : Acquire)
  | heartbeat (issue : String) (generation : ℤ) (progress : Bool) (now : ℚ)
  | release (issue : String) (generation : ℤ) (now : ℚ)
  | supersedeStale (now : ℚ)
  | requireForPr (issue : String) (attemptId : Option String) (hint : Option Lease) (now : ℚ)

structure Plan where
  writes : List Write
  lease : Option Lease := none
  reaped : List String := []

section
variable (iso : ℚ → String) (s : State)

/-- The lease that `acquire_lease` creates. -/
def Acquire.lease (a : Acquire) (generation : ℕ) (hbound : 0 < a.staleAfterSeconds) : Lease where
  issue := a.issue
  dispatchId := a.dispatchId
  workerId := a.workerId
  worktree := a.worktree
  branch := a.branch
  generation := generation
  status := .active
  acquiredAt := a.now
  acquiredAtIso := iso a.now
  heartbeatAt := a.now
  lastProgressAt := a.now
  staleAfterSeconds := a.staleAfterSeconds
  bounded := hbound
  supervisorId := a.supervisorId

def acquirePlan (a : Acquire) (hbound : 0 < a.staleAfterSeconds) : Option Lease → Except LeaseError Plan
  | none => .ok {writes := persistLease (a.lease iso 1 hbound),lease := some (a.lease iso 1 hbound)}
  | some existing =>
    let lease := a.lease iso (existing.generation + 1) hbound
    if existing.status = .active then
      if existing.isStale a.now then .ok {writes := persistLease existing.fenced ++ persistLease lease,lease := some lease}
      else .error (.held existing.workerId existing.dispatchId existing.generation)
    else .ok {writes := persistLease lease,lease := some lease}

def acquireLease (a : Acquire) : Except LeaseError Plan :=
  if a.dispatchId = "" ∨ a.workerId = "" then .error .noIdentity
  else if hbound : 0 < a.staleAfterSeconds then do
    let existing ← readLease s a.issue
    acquirePlan iso a hbound existing
  else .error .noBound

def Lease.beat (lease : Lease) (progress : Bool) (now : ℚ) : Lease :=
  let updated := {lease with heartbeatAt := now,heartbeatAtIso := some (iso now)}
  if progress then {updated with lastProgressAt := now,lastProgressAtIso := some (iso now)} else updated

def heartbeatPlan (generation : ℤ) (progress : Bool) (now : ℚ) : Option Lease → Except LeaseError Plan
  | none => .error .nothingToHeartbeat
  | some active =>
    if (active.generation : ℤ) = generation ∧ active.status = .active then
      .ok {writes := persistLease (active.beat iso progress now),lease := some (active.beat iso progress now)}
    else .error (.fenced active.generation)

variable (issue : String)

def heartbeatLease (generation : ℤ) (progress : Bool) (now : ℚ) : Except LeaseError Plan := do
  let active ← readLease s issue
  heartbeatPlan iso generation progress now active

/-- `{**active, "status": "RELEASED", "released_at": now}`. -/
def Lease.release (lease : Lease) (now : ℚ) : Lease := {lease with status := .released,releasedAt := some now}

def releasePlan (generation : ℤ) (now : ℚ) : Option Lease → Except LeaseError Plan
  | none => .error .nothingToRelease
  | some active =>
    if (active.generation : ℤ) = generation then
      .ok {writes := persistLease (active.release now),lease := some (active.release now)}
    else .error .notCurrent

def releaseLease (generation : ℤ) (now : ℚ) : Except LeaseError Plan := do
  let active ← readLease s issue
  releasePlan generation now active

/-- The lease of a directory that `supersede_stale_leases` reaps. -/
def staleLease (now : ℚ) (f : Folder) : Option Lease :=
  f.active.filter fun lease => decide (lease.status = .active) && lease.isStale now

/-- `sorted(root.iterdir())`: the directory of the issue `.` is `root` itself. -/
def issueFolders : List String := (s.keys.filter fun issue => issue ≠ ".").insertionSort fun a b => a ≤ b

def supersedeStaleLeases (now : ℚ) : Plan :=
  let stale := (issueFolders s).filterMap fun issue => staleLease now (folder s issue)
  {writes := stale.flatMap fun lease => persistLease lease.fenced,reaped := stale.map fun lease => lease.issue}

def checkForPr (attemptId : Option String) (now : ℚ) : Option Lease → Except LeaseError Plan
  | none => .error .noLease
  | some lease => do
    require (lease.status = .active) (.notActive lease.status)
    require (some lease.dispatchId = attemptId) .otherAttempt
    let active ← readLease s issue
    require (active = some lease) .superseded
    require (lease.isStale now = false) .stale
    .ok {writes := [],lease := some lease}

def requireLeaseForPr (attemptId : Option String) (hint : Option Lease) (now : ℚ) : Except LeaseError Plan := do
  let lease ← hint.elim (readLease s issue) fun lease => .ok (some lease)
  checkForPr s issue attemptId now lease

def Call.plan : Call → Except LeaseError Plan
  | .acquire a => acquireLease iso s a
  | .heartbeat issue generation progress now => heartbeatLease iso s issue generation progress now
  | .release issue generation now => releaseLease s issue generation now
  | .supersedeStale now => .ok (supersedeStaleLeases s now)
  | .requireForPr issue attemptId hint now => requireLeaseForPr s issue attemptId hint now

structure Op where
  call : Call
  crash : Option ℕ := none

def next (op : Op) : State := match op.call.plan iso s with
  | .error _ => s
  | .ok plan => writeAll s (op.crash.elim plan.writes fun n => plan.writes.take n)

def run (ops : List Op) : State := ops.foldl (next iso) .empty

end
end Verdict.Leases

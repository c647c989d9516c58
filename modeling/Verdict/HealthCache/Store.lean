import Verdict.Basics.Run
import Verdict.HealthCache.Entry

/-! # The shared health cache file and its writers

Several `HealthCache` objects share one JSON file. Every write takes the file lock, so a locked
read-merge-write is one step here; in between each object works on its own, possibly stale,
sections. The scheduling sections (token buckets, cycle cursor, rescreen hints) are merged by
rules that the results below do not depend on, and enter as the parameter `ρ` with
`SchedulingOps`.
-/
namespace Verdict.HealthCache

open Dict (mergeWith)

structure ScopedCooldown where
  key : String
  category : Category
  (checkedAt untilAt : Time)
  canonicalCategory : Option String := none
  providerId : Option String := none
  pool : Option String := none
  accountId : Option String := none
  deriving DecidableEq

/-- Identity of the authorization a dispatch is bound to. `to_key` prints the four
fields as a JSON array, which is injective, so the scope is its own key. -/
structure DispatchScope where
  (gatewayOrigin configGeneration profileDigest bindingId : String)
  nonblank : ∀ f ∈ [gatewayOrigin,configGeneration,profileDigest,bindingId], Path.strip f.toList ≠ [] := by decide
  deriving DecidableEq

structure DispatchPermit where
  (permitId attemptId routeId : String)
  scope : DispatchScope
  epoch : ℕ
  notAfter : Time
  deriving DecidableEq

structure RevocationEvent where
  routeId : String
  sourceRevision : Option String
  observedAt : Time
  sequence : ℕ
  deriving DecidableEq

structure DispatchScopeState where
  epoch : ℕ := 0
  sequence : ℕ := 0
  revocations : Dict String RevocationEvent := .empty

structure DispatchAttempt where
  permit : DispatchPermit
  committedAt : Time
  authorizationDigest : String
  deriving DecidableEq

def DispatchScopeState.same (a b : DispatchScopeState) : Bool :=
  a.epoch = b.epoch && a.sequence = b.sequence && a.revocations.same b.revocations

structure Sections (ρ : Type) where
  routes : Dict String HealthEntry := .empty
  cooldowns : Dict String ScopedCooldown := .empty
  scopes : Dict DispatchScope DispatchScopeState := .empty
  attempts : Dict String DispatchAttempt := .empty
  scheduling : ρ

def Sections.cooldownFor {ρ : Type} (s : Sections ρ) (key : String) (now : Time) : Option ScopedCooldown :=
  (s.cooldowns.get? key).filter fun c => now < c.untilAt

/-- `lookup(route, now).state`. -/
def Sections.stateOf {ρ : Type} (fresh : EvidenceFresh) (s : Sections ρ) (route : String) (now : Time) : RouteState :=
  ((s.routes.get? route).map fun e => e.stateAt fresh now).getD .unprobed

structure SchedulingOps (ρ : Type) where
  blank : ρ
  same : ρ → ρ → Bool
  saveOver (mine disk : ρ) : ρ
  reloadOver (mine loaded disk : ρ) : ρ

section
variable {ρ : Type} (ops : SchedulingOps ρ)

def Sections.same (a b : Sections ρ) : Bool :=
  a.routes.same b.routes && a.cooldowns.same b.cooldowns &&
    a.scopes.sameBy DispatchScopeState.same b.scopes && a.attempts.same b.attempts &&
    ops.same a.scheduling b.scheduling

def recordCooldown (cooldowns : Dict String ScopedCooldown) (c : ScopedCooldown) : Dict String ScopedCooldown :=
  match cooldowns.get? c.key with
  | some existing => if c.untilAt ≤ existing.untilAt then cooldowns else cooldowns.set c.key c
  | none => cooldowns.set c.key c

/-- One scope of `_merge_dispatch_records`: disk wins key conflicts, epochs take the max. -/
def mergeScope (_ : DispatchScope) (mine : DispatchScopeState) : Option DispatchScopeState → Option DispatchScopeState
  | none => some mine
  | some current => some {
      epoch := max current.epoch mine.epoch
      sequence := max current.sequence mine.sequence
      revocations := mergeWith (fun _ event known => if known.isSome then none else some event)
        mine.revocations current.revocations }

/-- `attempts.setdefault`. -/
def mergeAttempt (_ : String) (mine : DispatchAttempt) (known : Option DispatchAttempt) : Option DispatchAttempt :=
  if known.isSome then none else some mine

/-- `save`: a revision-current and strictly newer entry replaces the one on disk. -/
def saveRoute (_ : String) (mine : HealthEntry) : Option HealthEntry → Option HealthEntry
  | none => some {mine with writeRevision := 1}
  | some disk =>
    if disk.writeRevision ≤ mine.writeRevision ∧ disk.checkedAt < mine.checkedAt then
      some {mine with writeRevision := disk.writeRevision + 1}
    else none

/-- `reload`: a strictly newer unsaved entry stays in memory. -/
def reloadRoute (_ : String) (mine : HealthEntry) : Option HealthEntry → Option HealthEntry
  | none => some mine
  | some disk => if disk.checkedAt < mine.checkedAt then some mine else none

/-- `_merge_in_memory_over_disk`. -/
def mergeOverDisk (mine disk : Sections ρ) : Sections ρ where
  routes := mergeWith saveRoute mine.routes disk.routes
  cooldowns := mine.cooldowns.values.foldl recordCooldown disk.cooldowns
  scopes := mergeWith mergeScope mine.scopes disk.scopes
  attempts := mergeWith mergeAttempt mine.attempts disk.attempts
  scheduling := ops.saveOver mine.scheduling disk.scheduling

/-- The refreshed memory of `reload` when something was unsaved. -/
def reloadOver (mine loaded disk : Sections ρ) : Sections ρ where
  routes := mergeWith reloadRoute (mine.routes.changedFrom loaded.routes) disk.routes
  cooldowns := (mine.cooldowns.changedFrom loaded.cooldowns).values.foldl recordCooldown disk.cooldowns
  scopes := mergeWith mergeScope mine.scopes disk.scopes
  attempts := mergeWith mergeAttempt mine.attempts disk.attempts
  scheduling := ops.reloadOver mine.scheduling loaded.scheduling disk.scheduling

/-- `merge_and_save` gives every entry that changed under the lock a new revision. -/
def bumpRevisions (previous routes : Dict String HealthEntry) : Dict String HealthEntry :=
  routes.mapValues (fun route entry =>
    if previous.get? route = some entry then entry
    else {entry with writeRevision := (previous.get? route).elim 0 HealthEntry.writeRevision + 1})

end

/-- The write calls of the API that change memory only. -/
inductive Mutation (ρ : Type)
  | record (route : String) (result : ProbeResult) (now : Time)
  | recordLiveness (route : String) (latencyMs : Option ℕ) (pool capacityEvidence : Option String)
      (identity : String) (now : Time)
  | recordPassiveTraffic (route : String) (observed now : Time) (source : String) (latencyMs : Option ℕ)
      (pool capacityEvidence : Option String)
  | recordPassiveFailure (route : String) (observed now : Time) (httpStatus : Option ℕ) (category : Category)
      (source : String)
  | recordAgenticEvidence (route : String) (passed : Bool) (now : Time) (source : String) (childId : Option String)
  | recordCooldown (c : ScopedCooldown)
  | clearCooldown (key : String)
  | schedule (f : ρ → ρ)

section
variable {ρ : Type} (fresh : EvidenceFresh)

def storeRoute (s : Sections ρ) (route : String) : Except HealthCacheError (Option HealthEntry) →
    Except HealthCacheError (Sections ρ)
  | .error e => .error e
  | .ok none => .ok s
  | .ok (some entry) => .ok {s with routes := s.routes.set route entry}

def Mutation.apply (s : Sections ρ) : Mutation ρ → Except HealthCacheError (Sections ρ)
  | .record route result now =>
    storeRoute s route ((recordEntry fresh route (s.routes.get? route) result now).map some)
  | .recordLiveness route latencyMs pool capacityEvidence identity now =>
    storeRoute s route ((livenessEntry fresh route (s.routes.get? route) latencyMs pool capacityEvidence
      identity now).map some)
  | .recordPassiveTraffic route observed now source latencyMs pool capacityEvidence =>
    storeRoute s route (passiveTrafficEntry fresh route (s.routes.get? route) observed now source latencyMs
      pool capacityEvidence)
  | .recordPassiveFailure route observed now httpStatus category source =>
    storeRoute s route (passiveFailureEntry fresh route (s.routes.get? route) observed now httpStatus category
      source)
  | .recordAgenticEvidence route passed now source childId =>
    storeRoute s route (.ok (agenticEvidenceEntry route (s.routes.get? route) passed now source childId))
  | .recordCooldown c => .ok {s with cooldowns := HealthCache.recordCooldown s.cooldowns c}
  | .clearCooldown key => .ok {s with cooldowns := s.cooldowns.pop key}
  | .schedule f => .ok {s with scheduling := f s.scheduling}

def runMutations (s : Sections ρ) : List (Mutation ρ) → Sections ρ × Bool
  | [] => (s,true)
  | m :: ms => match m.apply fresh s with
    | .error _ => (s,false)
    | .ok t => runMutations t ms

end

structure RevocationArgs where
  scope : DispatchScope
  (routeId eventId : String)
  sourceRevision : Option String
  observedAt : Time

structure CommitArgs where
  scope : DispatchScope
  (routeId attemptId authorizationDigest : String)
  expectedEpoch : ℕ
  (proofDeadline qualifiedAt now : Time)
  permitId : String

section
variable {ρ : Type}

def Sections.scopeState (s : Sections ρ) (scope : DispatchScope) : DispatchScopeState :=
  (s.scopes.get? scope).getD {}

/-- `revocation_epoch`, on whatever view the caller's object holds. -/
def Sections.revocationEpoch (s : Sections ρ) (scope : DispatchScope) : ℕ := (s.scopeState scope).epoch

variable (r : RevocationArgs)

def RevocationArgs.valid : Bool :=
  Path.strip r.routeId.toList ≠ [] ∧ Path.strip r.eventId.toList ≠ []

def RevocationArgs.replayed (s : Sections ρ) : Bool :=
  (s.scopeState r.scope).revocations.contains r.eventId

def RevocationArgs.event (sequence : ℕ) : RevocationEvent where
  routeId := r.routeId
  sourceRevision := r.sourceRevision
  observedAt := r.observedAt
  sequence := sequence

/-- The mutation of `record_revocation`. -/
def revoke (s : Sections ρ) : Sections ρ :=
  if r.replayed s then s
  else
    let record := s.scopeState r.scope
    { s with scopes := s.scopes.set r.scope {
        epoch := record.epoch + 1
        sequence := record.sequence + 1
        revocations := record.revocations.set r.eventId (r.event (record.sequence + 1)) } }

variable (c : CommitArgs)

/-- The checks `commit_dispatch` makes before it takes the lock. -/
def CommitArgs.admissible : Bool :=
  Path.strip c.routeId.toList ≠ [] ∧ Path.strip c.attemptId.toList ≠ [] ∧
    c.qualifiedAt ≤ c.now ∧ c.qualifiedAt < c.proofDeadline ∧ c.now < c.proofDeadline ∧
    c.proofDeadline ≤ c.now + permitProofMaxValidity

def CommitArgs.routeDenied (entry : Option HealthEntry) : Bool :=
  match entry with
  | none => false
  | some e => (!e.healthy && decide (c.now < e.untilAt)) || e.lastFailure.any fun t => decide (c.qualifiedAt ≤ t)

/-- The checks `commit_dispatch` makes under the lock. -/
def CommitArgs.grants (s : Sections ρ) : Bool :=
  !c.routeDenied (s.routes.get? c.routeId) && c.expectedEpoch = (s.scopeState c.scope).epoch &&
    !s.attempts.contains c.attemptId

def CommitArgs.permit : DispatchPermit where
  permitId := c.permitId
  attemptId := c.attemptId
  routeId := c.routeId
  scope := c.scope
  epoch := c.expectedEpoch
  notAfter := c.proofDeadline

def CommitArgs.attempt : DispatchAttempt where
  permit := c.permit
  committedAt := c.now
  authorizationDigest := c.authorizationDigest

/-- The mutation of `commit_dispatch`. -/
def commit (s : Sections ρ) : Sections ρ :=
  if c.grants s then {s with attempts := s.attempts.set c.attemptId c.attempt} else s

/-- The permit `commit_dispatch` returns when the file holds `s`. -/
def minted (s : Sections ρ) : Option DispatchPermit :=
  if c.admissible && c.grants s then some c.permit else none

end

/-- One `HealthCache` object: its sections, and what disk held when they last agreed. -/
structure Cache (ρ : Type) where
  (mem snapshot : Sections ρ)

structure State (ρ : Type) where
  file : Sections ρ
  caches : ℕ → Option (Cache ρ)
  permits : List DispatchPermit
  accepted : List (DispatchScope × String)

inductive Act (ρ : Type)
  | reopen (i : ℕ)
  | mutate (i : ℕ) (m : Mutation ρ)
  | save (i : ℕ)
  | reload (i : ℕ)
  | mergeAndSave (i : ℕ) (body : List (Mutation ρ))
  | recordRevocation (i : ℕ) (r : RevocationArgs)
  | commitDispatch (i : ℕ) (c : CommitArgs)

section
variable {ρ : Type} (fresh : EvidenceFresh) (ops : SchedulingOps ρ)

def State.initial : State ρ where
  file := {scheduling := ops.blank}
  caches := fun _ => none
  permits := []
  accepted := []

def State.setCache (s : State ρ) (i : ℕ) (c : Cache ρ) : State ρ :=
  {s with caches := Function.update s.caches i (some c)}

def State.publish (s : State ρ) (i : ℕ) (sections : Sections ρ) : State ρ :=
  {s.setCache i ⟨sections,sections⟩ with file := sections}

/-- One call of the API on object `i`. A call that raises before its write leaves the
file alone; the bodies of the two dispatch calls touch no route, so they bump no
revision. -/
def step (s : State ρ) : Act ρ → Option (State ρ)
  | .reopen i => some (s.setCache i ⟨s.file,s.file⟩)
  | .mutate i m => (s.caches i).map (fun c => match m.apply fresh c.mem with
    | .ok mem => s.setCache i {c with mem := mem}
    | .error _ => s)
  | .save i => (s.caches i).map fun c => s.publish i (mergeOverDisk ops c.mem s.file)
  | .reload i => (s.caches i).map (fun c =>
    if c.mem.same ops c.snapshot then s.setCache i ⟨s.file,s.file⟩
    else s.setCache i ⟨reloadOver ops c.mem c.snapshot s.file,s.file⟩)
  | .mergeAndSave i body => (s.caches i).map (fun _ => match runMutations fresh s.file body with
    | (mem,true) => s.publish i {mem with routes := bumpRevisions s.file.routes mem.routes}
    | (mem,false) => s.setCache i ⟨mem,s.file⟩)
  | .recordRevocation i r => (s.caches i).map (fun _ =>
    if r.valid then
      { s.publish i (revoke r s.file) with
        accepted := if r.replayed s.file then s.accepted else s.accepted ++ [(r.scope,r.eventId)] }
    else s)
  | .commitDispatch i c => (s.caches i).map (fun _ =>
    if c.admissible then
      {s.publish i (commit c s.file) with permits := s.permits ++ (minted c s.file).toList}
    else s)

end
end Verdict.HealthCache

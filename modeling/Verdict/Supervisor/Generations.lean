import Mathlib.Algebra.Order.Ring.Rat
import Verdict.Basics.Run

/-! # Controller generations and their workers

One state file says which controller generation owns a run, its workers and the launches on their
way. Five calls change it, each under a lock: a launch is split between the controller
(`owned_worker_command`) and the launched process (`register_worker`, which starts the payload
under the lock), and a cleanup reads the state, kills the containment and then takes the lock.
What lies between two locked sections interleaves freely, and a process there may die.
-/
namespace Verdict.Supervisor.Generations

open List (mem_append mem_append_left mem_singleton)

/-- The cgroup leaf of a generation; `inode` identifies the directory. -/
structure Containment where
  token : String
  inode : ℕ
  deriving DecidableEq

structure Worker where
  identity : ℕ
  (token operationId : String)
  deriving DecidableEq

structure OpState where
  token : Option String := none
  active : Bool := false
  deadline : ℚ := 0
  workers : List Worker := []
  pending : List String := []
  containment : Option Containment := none
  deriving DecidableEq

inductive OwnershipError
  | uncleaned | revoked | ownershipChanged | delegationMissing | containmentUnavailable | deadlineSpent
  | intentUnavailable | containmentChanged | missingCommand | stillActive | invalidRecord | absenceUnverified
  | identityChanged | revocationUnverified | pendingUnknown | generationChanged | removalUnverified

def activateGeneration (token : String) (deadline : ℚ) (state : OpState) : Except OwnershipError OpState :=
  if state.workers ≠ [] ∨ state.pending ≠ [] then .error .uncleaned
  else .ok {token := some token, active := true, deadline := deadline}

/-- `preflight_worker_containment`; `prepared` is the leaf it could create. -/
def preflightWorkerContainment (token : String) (prepared : Option Containment) (state : OpState) :
    Except OwnershipError OpState :=
  if state.token ≠ some token ∨ state.active = false then .error .revoked
  else match state.containment, prepared with
    | some _, _ => .ok state
    | none, some leaf => .ok {state with containment := some leaf}
    | none, none => .error .containmentUnavailable

def revokeGeneration (token : String) (state : OpState) : Except OwnershipError OpState :=
  if state.token ≠ some token then .error .ownershipChanged else .ok {state with active := false}

/-- The locked section of `owned_worker_command`. -/
def ownedWorkerCommand (token launchId : String) (prepared : Option Containment) (state : OpState) :
    Except OwnershipError OpState :=
  if state.token ≠ some token ∨ state.active = false then .error .revoked
  else match state.containment, prepared with
    | some _, _ => .ok {state with pending := state.pending ++ [launchId]}
    | none, some leaf => .ok {state with containment := some leaf, pending := state.pending ++ [launchId]}
    | none, none => .error .delegationMissing

structure Registration where
  (token operationId launchId : String)
  command : Option (List String)
  containment : Containment
  deriving DecidableEq

/-- What `register_worker` checks before it joins the containment and takes the lock. -/
def joinable (token : String) (initial : OpState) : Except OwnershipError Containment :=
  if initial.active = false then .error .revoked
  else match initial.containment with
    | some leaf => if initial.token ≠ some token then .error .containmentUnavailable else .ok leaf
    | none => .error .containmentUnavailable

/-- The locked section of `register_worker`, up to the start of the payload. -/
def registerWorker (r : Registration) (identity : ℕ) (now : ℚ) (state : OpState) : Except OwnershipError OpState :=
  if state.active = false ∨ state.token ≠ some r.token then .error .revoked
  else if state.deadline ≤ now then .error .deadlineSpent
  else if r.launchId ∉ state.pending then .error .intentUnavailable
  else if state.containment ≠ some r.containment then .error .containmentChanged
  else if r.command = some [] then .error .missingCommand
  else .ok { state with
    pending := state.pending.erase r.launchId
    workers := state.workers ++ [⟨identity,r.token,r.operationId⟩] }

/-- What the kernel reports to a cleanup: whether the killed leaf was seen empty, and
whether no recorded process id belongs to another process. -/
structure Report where
  (emptied identitiesHold : Bool)

/-- The leaf that `cleanup_workers` kills on the strength of `snapshot`. -/
def killedBy (snapshot : OpState) (revocationVerified : Bool) (report : Report) : Option Containment :=
  if snapshot.active ∧ revocationVerified then none
  else if ∃ w ∈ snapshot.workers, some w.token ≠ snapshot.token then none
  else if report.emptied then snapshot.containment.filter (fun leaf => some leaf.token = snapshot.token) else none

/-- The checks of `cleanup_workers` before it takes the lock. -/
def cleanupChecks (snapshot : OpState) (revocationVerified : Bool) (report : Report) : Except OwnershipError Unit :=
  if snapshot.active ∧ revocationVerified then .error .stillActive
  else if ∃ w ∈ snapshot.workers, some w.token ≠ snapshot.token then .error .invalidRecord
  else if snapshot.containment.isSome ∧ killedBy snapshot revocationVerified report = none then
    .error .absenceUnverified
  else if snapshot.containment = none ∧ snapshot.workers ≠ [] then .error .absenceUnverified
  else if report.identitiesHold = false then .error .identityChanged
  else if revocationVerified = false then .error .revocationUnverified
  else if snapshot.pending ≠ [] then .error .pendingUnknown
  else .ok ()

/-- The locked section of `cleanup_workers`; `removed` says whether `rmdir` went through. -/
def finishCleanup (snapshot : OpState) (removed : Bool) (current : OpState) : Except OwnershipError OpState :=
  if current.token ≠ snapshot.token ∨ current.active then .error .generationChanged
  else match snapshot.containment with
    | some _ => if removed then .ok {current with containment := none, workers := []} else .error .removalUnverified
    | none => .ok {current with workers := []}

inductive Event
  | activated (token : String)
  | revoked (token : String)
  | intended (launchId token : String)
  | registered (launchId : String)
  | started (launchId token : String)
  deriving DecidableEq

structure Payload where
  (launchId token : String)
  containment : Containment
  deriving DecidableEq

/-- The state file; launched processes before their locked section; states that some
cleanup has read, and those it has acted on; the running payloads and the history. -/
structure System where
  file : OpState := {}
  registering : List Registration := []
  reads : List OpState := []
  cleared : List OpState := []
  alive : List Payload := []
  log : List Event := []

inductive Act
  | activate (token : String) (deadline : ℚ)
  | preflight (token : String) (prepared : Option Containment)
  | revoke (token : String)
  | intend (token launchId : String) (prepared : Option Containment)
  | join (token operationId launchId : String) (command : Option (List String))
  | register (r : Registration) (identity : ℕ) (now : ℚ) (execs : Bool)
  | abandon (r : Registration)
  | exit (p : Payload)
  | read
  | kill (snapshot : OpState) (revocationVerified : Bool) (report : Report)
  | finish (snapshot : OpState) (removed : Bool)

namespace System

def locked (s : System) (result : Except OwnershipError OpState) (events : List Event) : System :=
  match result with
  | .error _ => s
  | .ok file => {s with file := file, log := s.log ++ events}

/-- The payload that a registration starts by `exec`. -/
def payloadOf (r : Registration) (execs : Bool) : Option Payload :=
  if r.command.isSome ∧ execs then some ⟨r.launchId,r.token,r.containment⟩ else none

def step (s : System) : Act → Option System
  | .activate token deadline =>
    if .activated token ∈ s.log then none
    else some (s.locked (activateGeneration token deadline s.file) [.activated token])
  | .preflight token prepared => some (s.locked (preflightWorkerContainment token prepared s.file) [])
  | .revoke token => some (s.locked (revokeGeneration token s.file) [.revoked token])
  | .intend token launchId prepared =>
    if s.log.any (fun e => match e with | .intended l _ => l = launchId | _ => false) then none
    else some (s.locked (ownedWorkerCommand token launchId prepared s.file) [.intended launchId token])
  | .join token operationId launchId command => some (match joinable token s.file with
    | .error _ => s
    | .ok leaf => {s with registering := s.registering ++ [⟨token,operationId,launchId,command,leaf⟩]})
  | .register r identity now execs =>
    if r ∈ s.registering then
      let t := {s with registering := s.registering.erase r}
      match registerWorker r identity now s.file with
      | .error _ => some t
      | .ok file => some { t with
          file := file
          alive := t.alive ++ (payloadOf r execs).toList
          log := t.log ++ .registered r.launchId :: (payloadOf r execs).toList.map (fun p => .started p.launchId p.token) }
    else none
  | .abandon r => some {s with registering := s.registering.erase r}
  | .exit p => some {s with alive := s.alive.erase p}
  | .read => some {s with reads := s.reads ++ [s.file]}
  | .kill snapshot revocationVerified report =>
    if snapshot ∈ s.reads then
      let t := match killedBy snapshot revocationVerified report with
        | some leaf => {s with alive := s.alive.filter (fun p => p.containment ≠ leaf)}
        | none => s
      match cleanupChecks snapshot revocationVerified report with
      | .error _ => some t
      | .ok _ => some {t with cleared := t.cleared ++ [snapshot]}
    else none
  | .finish snapshot removed =>
    if snapshot ∈ s.cleared then some (s.locked (finishCleanup snapshot removed s.file) []) else none

structure Owned (s : System) : Prop where
  current : ∀ token, s.file.token = some token → .activated token ∈ s.log
  revoked : ∀ token, .revoked token ∈ s.log → .activated token ∈ s.log ∧
    (s.file.token = some token → s.file.active = false)
  alive : ∀ p ∈ s.alive, s.file.token = some p.token ∧ s.file.containment = some p.containment ∧ s.file.workers ≠ []
  intents : ∀ launchId token, .intended launchId token ∈ s.log →
    launchId ∈ s.file.pending ∨ .registered launchId ∈ s.log
  reads : ∀ snapshot ∈ s.reads, (∀ token, snapshot.token = some token → .activated token ∈ s.log) ∧
    (snapshot.active = false → snapshot.token = s.file.token →
      s.file.active = false ∧ ∀ p ∈ s.alive, snapshot.containment = some p.containment)
  cleared : ∀ snapshot ∈ s.cleared, (∀ token, snapshot.token = some token → .activated token ∈ s.log) ∧
    (snapshot.token = s.file.token → s.file.active = false ∧ s.alive = [])

theorem owned_initial : Owned {} where
  current := fun _ h => by cases h
  revoked := fun _ h => by cases h
  alive := fun _ h => by cases h
  intents := fun _ _ h => by cases h
  reads := fun _ h => by cases h
  cleared := fun _ h => by cases h

variable {token : String} {state file : OpState}

theorem activateGeneration_ok {deadline : ℚ} (h : activateGeneration token deadline state = .ok file) :
    state.workers = [] ∧ state.pending = [] ∧ file = {token := some token, active := true, deadline := deadline} := by
  unfold activateGeneration at h
  split at h
  · cases h
  · rename_i hempty
    simp only [not_or,ne_eq,not_not] at hempty
    exact ⟨hempty.1,hempty.2,(Except.ok.inj h).symm⟩

theorem revokeGeneration_ok (h : revokeGeneration token state = .ok file) :
    state.token = some token ∧ file = {state with active := false} := by
  unfold revokeGeneration at h
  split at h
  · cases h
  · rename_i htoken
    exact ⟨not_not.mp htoken,(Except.ok.inj h).symm⟩

/-- A locked section of the active generation keeps token, activity and workers, and a
containment once it is set. -/
structure Continues (state file : OpState) : Prop where
  token : file.token = state.token
  active : file.active = state.active
  workers : file.workers = state.workers
  containment : ∀ leaf, state.containment = some leaf → file.containment = some leaf
  was_active : state.active = true

variable {prepared : Option Containment}

theorem preflight_ok (h : preflightWorkerContainment token prepared state = .ok file) :
    Continues state file ∧ file.pending = state.pending := by
  unfold preflightWorkerContainment at h
  split at h
  · cases h
  · rename_i hgate
    simp only [not_or,Bool.not_eq_false] at hgate
    split at h
    · cases h
      exact ⟨⟨rfl,rfl,rfl,fun _ h => h,hgate.2⟩,rfl⟩
    · rename_i leaf hnone
      cases h
      exact ⟨⟨rfl,rfl,rfl,fun leaf hl => absurd (hnone.symm.trans hl) (by simp),hgate.2⟩,rfl⟩
    · cases h

theorem ownedWorkerCommand_ok {launchId : String}
    (h : ownedWorkerCommand token launchId prepared state = .ok file) :
    Continues state file ∧ state.token = some token ∧ file.pending = state.pending ++ [launchId] := by
  unfold ownedWorkerCommand at h
  split at h
  · cases h
  · rename_i hgate
    simp only [not_or,Bool.not_eq_false,not_not] at hgate
    split at h
    · cases h
      exact ⟨⟨rfl,rfl,rfl,fun _ h => h,hgate.2⟩,hgate.1,rfl⟩
    · rename_i leaf hnone
      cases h
      exact ⟨⟨rfl,rfl,rfl,fun leaf hl => absurd (hnone.symm.trans hl) (by simp),hgate.2⟩,hgate.1,rfl⟩
    · cases h

variable {r : Registration} {identity : ℕ} {now : ℚ}

theorem registerWorker_ok (h : registerWorker r identity now state = .ok file) :
    state.active = true ∧ state.token = some r.token ∧ state.containment = some r.containment ∧
      file = { state with
        pending := state.pending.erase r.launchId
        workers := state.workers ++ [⟨identity,r.token,r.operationId⟩] } := by
  unfold registerWorker at h
  split at h
  · cases h
  rename_i hgate
  simp only [not_or,Bool.not_eq_false,not_not] at hgate
  split at h
  · cases h
  split at h
  · cases h
  split at h
  · cases h
  rename_i hleaf
  split at h
  · cases h
  exact ⟨hgate.1,hgate.2,not_not.mp hleaf,(Except.ok.inj h).symm⟩

variable {snapshot : OpState}

theorem finishCleanup_ok {current : OpState} {removed : Bool}
    (h : finishCleanup snapshot removed current = .ok file) : current.token = snapshot.token ∧
    current.active = false ∧ file.token = current.token ∧ file.active = current.active ∧ file.pending =
    current.pending := by
  unfold finishCleanup at h
  split at h
  · cases h
  rename_i hgate
  simp only [not_or,not_not,Bool.not_eq_true] at hgate
  split at h
  · split at h
    · cases h
      exact ⟨hgate.1,hgate.2,rfl,rfl,rfl⟩
    · cases h
  · cases h
    exact ⟨hgate.1,hgate.2,rfl,rfl,rfl⟩

variable {revocationVerified : Bool} {report : Report}

theorem killedBy_some {leaf : Containment}
    (h : killedBy snapshot revocationVerified report = some leaf) : snapshot.containment = some leaf := by
  unfold killedBy at h
  split at h
  · cases h
  split at h
  · cases h
  split at h
  · exact (Option.filter_eq_some_iff.mp h).1
  · cases h

theorem cleanupChecks_ok (h : cleanupChecks snapshot revocationVerified report = .ok ()) :
    snapshot.active = false ∧ (snapshot.containment = none ∨
      ∃ leaf, snapshot.containment = some leaf ∧ killedBy snapshot revocationVerified report = some leaf) := by
  unfold cleanupChecks at h
  split at h
  · cases h
  rename_i hactive
  split at h
  · cases h
  split at h
  · cases h
  rename_i hkilled
  split at h
  · cases h
  split at h
  · cases h
  split at h
  · cases h
  rename_i hverified
  refine ⟨by simpa [hverified] using hactive,?_⟩
  cases hc : snapshot.containment with
  | none => exact .inl rfl
  | some leaf =>
    right
    have hsome : ∃ l, killedBy snapshot revocationVerified report = some l := by
      rw [← Option.ne_none_iff_exists']
      intro hnone
      exact hkilled ⟨by simp [hc],hnone⟩
    obtain ⟨l,hl⟩ := hsome
    have hleaf := killedBy_some hl
    rw [hc] at hleaf
    cases hleaf
    exact ⟨leaf,rfl,hl⟩

section Preservation
variable {s : System} (ho : Owned s)
include ho

variable {token : String} {file : OpState}

theorem Owned.activate {deadline : ℚ} (hfresh : .activated token ∉ s.log)
    (h : activateGeneration token deadline s.file = .ok file) :
    Owned {s with file := file, log := s.log ++ [.activated token]} := by
  obtain ⟨hworkers,hpending,rfl⟩ := activateGeneration_ok h
  have halive : s.alive = [] := by
    rw [List.eq_nil_iff_forall_not_mem]
    intro p hp
    exact (ho.alive p hp).2.2 hworkers
  have hold : ∀ {snapshot : OpState}, (∀ t, snapshot.token = some t → .activated t ∈ s.log) →
      snapshot.token ≠ some token := fun hs heq => hfresh (hs token heq)
  constructor
  · intro t ht
    cases ht
    simp
  · intro t ht
    have hr : .revoked t ∈ s.log := by simpa using ht
    obtain ⟨hact,-⟩ := ho.revoked t hr
    refine ⟨mem_append_left _ hact,?_⟩
    intro heq
    cases heq
    exact absurd hact hfresh
  · intro p hp
    have hp : p ∈ s.alive := hp
    rw [halive] at hp
    cases hp
  · intro l t hl
    have hl' : .intended l t ∈ s.log := by simpa using hl
    rcases ho.intents l t hl' with hp | hr
    · rw [hpending] at hp
      cases hp
    · exact .inr (mem_append_left _ hr)
  · intro snapshot hs
    obtain ⟨hused,-⟩ := ho.reads snapshot hs
    refine ⟨fun t ht => mem_append_left _ (hused t ht),fun _ heq => ?_⟩
    exact absurd heq (hold hused)
  · intro snapshot hs
    obtain ⟨hused,-⟩ := ho.cleared snapshot hs
    refine ⟨fun t ht => mem_append_left _ (hused t ht),fun heq => ?_⟩
    exact absurd heq (hold hused)

theorem Owned.revoke (h : revokeGeneration token s.file = .ok file) :
    Owned {s with file := file, log := s.log ++ [.revoked token]} := by
  obtain ⟨htoken,rfl⟩ := revokeGeneration_ok h
  constructor
  · intro t ht
    exact mem_append_left _ (ho.current t ht)
  · intro t ht
    rcases mem_append.mp ht with ht | ht
    · exact ⟨mem_append_left _ (ho.revoked t ht).1,fun _ => rfl⟩
    · have heq : t = token := by simpa using ht
      rw [heq]
      exact ⟨mem_append_left _ (ho.current token htoken),fun _ => rfl⟩
  · exact ho.alive
  · intro l t hl
    have hl' : .intended l t ∈ s.log := by simpa using hl
    rcases ho.intents l t hl' with hp | hr
    · exact .inl hp
    · exact .inr (mem_append_left _ hr)
  · intro snapshot hs
    obtain ⟨hused,hgone⟩ := ho.reads snapshot hs
    exact ⟨fun t ht => mem_append_left _ (hused t ht),fun hin heq => ⟨rfl,(hgone hin heq).2⟩⟩
  · intro snapshot hs
    obtain ⟨hused,hgone⟩ := ho.cleared snapshot hs
    exact ⟨fun t ht => mem_append_left _ (hused t ht),fun heq => ⟨rfl,(hgone heq).2⟩⟩

theorem Owned.continues (hc : Continues s.file file) {events : List Event}
    (hpending : ∀ l ∈ s.file.pending, l ∈ file.pending)
    (hevents : ∀ e ∈ events, ∃ l t, e = .intended l t ∧ l ∈ file.pending) :
    Owned {s with file := file, log := s.log ++ events} := by
  constructor
  · intro t ht
    exact mem_append_left _ (ho.current t (hc.token.symm.trans ht))
  · intro t ht
    rcases mem_append.mp ht with ht | ht
    · obtain ⟨hact,hoff⟩ := ho.revoked t ht
      exact ⟨mem_append_left _ hact,fun heq => hc.active.trans (hoff (hc.token.symm.trans heq))⟩
    · obtain ⟨l,t',heq,-⟩ := hevents _ ht
      cases heq
  · intro p hp
    obtain ⟨htok,hleaf,hw⟩ := ho.alive p hp
    exact ⟨hc.token.trans htok,hc.containment _ hleaf,by rw [hc.workers]; exact hw⟩
  · intro l t hl
    rcases mem_append.mp hl with hl | hl
    · rcases ho.intents l t hl with hp | hr
      · exact .inl (hpending l hp)
      · exact .inr (mem_append_left _ hr)
    · obtain ⟨l',t',heq,hin⟩ := hevents _ hl
      cases heq
      exact .inl hin
  · intro snapshot hs
    obtain ⟨hused,hgone⟩ := ho.reads snapshot hs
    refine ⟨fun t ht => mem_append_left _ (hused t ht),fun hin heq => ?_⟩
    have hoff := (hgone hin (heq.trans hc.token)).1
    rw [hc.was_active] at hoff
    cases hoff
  · intro snapshot hs
    obtain ⟨hused,hgone⟩ := ho.cleared snapshot hs
    refine ⟨fun t ht => mem_append_left _ (hused t ht),fun heq => ?_⟩
    have hoff := (hgone (heq.trans hc.token)).1
    rw [hc.was_active] at hoff
    cases hoff

theorem Owned.register {registering : List Registration} (execs : Bool) (h : registerWorker r identity now s.file = .ok file) :
    Owned { s with
      registering := registering
      file := file
      alive := s.alive ++ (payloadOf r execs).toList
      log := s.log ++ .registered r.launchId ::
        (payloadOf r execs).toList.map (fun p => .started p.launchId p.token) } := by
  obtain ⟨hactive,htoken,hleaf,rfl⟩ := registerWorker_ok h
  have hpayload : ∀ p ∈ (payloadOf r execs).toList, p = ⟨r.launchId,r.token,r.containment⟩ := by
    intro p hp
    unfold payloadOf at hp
    split at hp
    · simpa using hp
    · simp at hp
  constructor
  · intro t ht
    exact mem_append_left _ (ho.current t ht)
  · intro t ht
    have hr : .revoked t ∈ s.log := by simpa using ht
    obtain ⟨hact,hoff⟩ := ho.revoked t hr
    exact ⟨mem_append_left _ hact,hoff⟩
  · intro p hp
    rcases mem_append.mp hp with hp | hp
    · obtain ⟨htok,hl,-⟩ := ho.alive p hp
      exact ⟨htok,hl,by simp⟩
    · rw [hpayload p hp]
      exact ⟨htoken,hleaf,by simp⟩
  · intro l t hl
    have hl' : .intended l t ∈ s.log := by simpa using hl
    rcases ho.intents l t hl' with hp | hr
    · by_cases heq : l = r.launchId
      · rw [heq]
        exact .inr (by simp)
      · exact .inl ((List.mem_erase_of_ne heq).mpr hp)
    · exact .inr (mem_append_left _ hr)
  · intro snapshot hs
    obtain ⟨hused,hgone⟩ := ho.reads snapshot hs
    refine ⟨fun t ht => mem_append_left _ (hused t ht),fun hin heq => ?_⟩
    have hoff := (hgone hin heq).1
    rw [hactive] at hoff
    cases hoff
  · intro snapshot hs
    obtain ⟨hused,hgone⟩ := ho.cleared snapshot hs
    refine ⟨fun t ht => mem_append_left _ (hused t ht),fun heq => ?_⟩
    have hoff := (hgone heq).1
    rw [hactive] at hoff
    cases hoff

theorem Owned.fewer {alive : List Payload} (hsub : ∀ p ∈ alive, p ∈ s.alive) : Owned {s with alive := alive} where
  current := ho.current
  revoked := ho.revoked
  alive := fun p hp => ho.alive p (hsub p hp)
  intents := ho.intents
  reads := fun snapshot hs =>
    ⟨(ho.reads snapshot hs).1,fun hin heq =>
      ⟨((ho.reads snapshot hs).2 hin heq).1,fun p hp => ((ho.reads snapshot hs).2 hin heq).2 p (hsub p hp)⟩⟩
  cleared := by
    intro snapshot hs
    obtain ⟨hused,hgone⟩ := ho.cleared snapshot hs
    refine ⟨hused,fun heq => ⟨(hgone heq).1,?_⟩⟩
    rw [List.eq_nil_iff_forall_not_mem]
    intro p hp
    have hp' := hsub p hp
    rw [(hgone heq).2] at hp'
    cases hp'

theorem Owned.read : Owned {s with reads := s.reads ++ [s.file]} where
  current := ho.current
  revoked := ho.revoked
  alive := ho.alive
  intents := ho.intents
  reads := by
    intro snapshot hs
    rcases mem_append.mp hs with hs | hs
    · exact ho.reads snapshot hs
    · rw [mem_singleton.mp hs]
      exact ⟨ho.current,fun hin _ => ⟨hin,fun p hp => (ho.alive p hp).2.1⟩⟩
  cleared := ho.cleared

variable {snapshot : OpState}

theorem Owned.clear (hread : snapshot ∈ s.reads) (hin : snapshot.active = false)
    (hdead : snapshot.token = s.file.token → s.alive = []) : Owned {s with cleared := s.cleared ++ [snapshot]} where
  current := ho.current
  revoked := ho.revoked
  alive := ho.alive
  intents := ho.intents
  reads := ho.reads
  cleared := by
    intro t ht
    rcases mem_append.mp ht with ht | ht
    · exact ho.cleared t ht
    · rw [mem_singleton.mp ht]
      obtain ⟨hused,hgone⟩ := ho.reads snapshot hread
      exact ⟨hused,fun heq => ⟨(hgone hin heq).1,hdead heq⟩⟩

theorem Owned.finish {removed : Bool} (hs : snapshot ∈ s.cleared)
    (h : finishCleanup snapshot removed s.file = .ok file) : Owned {s with file := file, log := s.log ++ []} := by
  obtain ⟨htok,hoff,hft,hfa,hfp⟩ := finishCleanup_ok h
  have hdead := ((ho.cleared snapshot hs).2 htok.symm).2
  rw [List.append_nil]
  constructor
  · intro t ht
    exact ho.current t (hft.symm.trans ht)
  · intro t ht
    exact ⟨(ho.revoked t ht).1,fun _ => hfa.trans hoff⟩
  · intro p hp
    have hp : p ∈ s.alive := hp
    rw [hdead] at hp
    cases hp
  · intro l t hl
    rw [show file.pending = s.file.pending from hfp]
    exact ho.intents l t hl
  · intro t ht
    refine ⟨(ho.reads t ht).1,fun _ _ => ⟨hfa.trans hoff,?_⟩⟩
    intro p hp
    have hp : p ∈ s.alive := hp
    rw [hdead] at hp
    cases hp
  · intro t ht
    exact ⟨(ho.cleared t ht).1,fun _ => ⟨hfa.trans hoff,hdead⟩⟩

end Preservation

/-- No payload of a generation starts behind the revocation of that generation. -/
def Fenced (log : List Event) : Prop :=
  log.Pairwise fun earlier later => ∀ token launchId, earlier = .revoked token → later ≠ .started launchId token

theorem fenced_append {log events : List Event} (hf : Fenced log)
    (hstart : ∀ e ∈ events, ∀ launchId token, e = .started launchId token → .revoked token ∉ log)
    (hevents : Fenced events) : Fenced (log ++ events) := by
  apply List.pairwise_append.mpr
  refine ⟨hf,hevents,?_⟩
  intro e he e' he' token launchId hrev heq
  rw [hrev] at he
  exact hstart e' he' launchId token heq he

theorem fenced_single (e : Event) : Fenced [e] := List.pairwise_singleton _ e

theorem Owned.fenced_register {s : System} (ho : Owned s) (hf : Fenced s.log) (execs : Bool)
    (h : registerWorker r identity now s.file = .ok file) : Fenced
    (s.log ++ .registered r.launchId :: (payloadOf r execs).toList.map fun p => .started p.launchId p.token)
    := by
  obtain ⟨hactive,htoken,-,-⟩ := registerWorker_ok h
  have hnot : .revoked r.token ∉ s.log := by
    intro hr
    have hoff := (ho.revoked r.token hr).2 htoken
    rw [hactive] at hoff
    cases hoff
  apply fenced_append hf
  · intro e he launchId token heq
    subst heq
    unfold payloadOf at he
    split at he
    · simp only [Option.toList_some,List.map_singleton,List.mem_cons,reduceCtorEq,List.not_mem_nil,or_false,
        false_or,Event.started.injEq] at he
      rw [he.2]
      exact hnot
    · simp at he
  · unfold payloadOf
    split
    · simp [Fenced]
    · exact fenced_single _

variable {s' : System} {a : Act}

theorem step_owned {s : System} (ho : Owned s ∧ Fenced s.log) (h : s.step a = some s') :
    Owned s' ∧ Fenced s'.log := by
  obtain ⟨ho,hf⟩ := ho
  have hquiet : ∀ {e : Event}, (∀ l t, e ≠ .started l t) → Fenced (s.log ++ [e]) := by
    intro e he
    apply fenced_append hf
    · intro e' he' l t heq
      rw [mem_singleton] at he'
      exact absurd (he'.symm.trans heq) (he l t)
    · exact fenced_single e
  cases a with
  | activate token deadline =>
    simp only [step] at h
    split at h
    · cases h
    rename_i hfresh
    cases h
    cases hr : activateGeneration token deadline s.file with
    | error e => exact ⟨ho,hf⟩
    | ok file => exact ⟨ho.activate hfresh hr,hquiet (by simp)⟩
  | preflight token prepared =>
    cases h
    cases hr : preflightWorkerContainment token prepared s.file with
    | error e => exact ⟨ho,hf⟩
    | ok file =>
      obtain ⟨hc,hp⟩ := preflight_ok hr
      refine ⟨ho.continues hc (fun l hl => by rw [hp]; exact hl) (by simp),?_⟩
      exact fenced_append hf (by simp) List.Pairwise.nil
  | revoke token =>
    cases h
    cases hr : revokeGeneration token s.file with
    | error e => exact ⟨ho,hf⟩
    | ok file => exact ⟨ho.revoke hr,hquiet (by simp)⟩
  | intend token launchId prepared =>
    simp only [step] at h
    split at h
    · cases h
    cases h
    cases hr : ownedWorkerCommand token launchId prepared s.file with
    | error e => exact ⟨ho,hf⟩
    | ok file =>
      obtain ⟨hc,-,hp⟩ := ownedWorkerCommand_ok hr
      refine ⟨ho.continues hc (fun l hl => by rw [hp]; exact mem_append_left _ hl) ?_,hquiet (by simp)⟩
      intro e he
      exact ⟨launchId,token,mem_singleton.mp he,by rw [hp]; simp⟩
  | join token operationId launchId command =>
    cases h
    cases joinable token s.file with
    | error e => exact ⟨ho,hf⟩
    | ok leaf => exact ⟨⟨ho.current,ho.revoked,ho.alive,ho.intents,ho.reads,ho.cleared⟩,hf⟩
  | register r identity now execs =>
    simp only [step] at h
    split at h
    · cases hr : registerWorker r identity now s.file with
      | error e =>
        rw [hr] at h
        cases h
        exact ⟨⟨ho.current,ho.revoked,ho.alive,ho.intents,ho.reads,ho.cleared⟩,hf⟩
      | ok file =>
        rw [hr] at h
        cases h
        exact ⟨ho.register execs hr,ho.fenced_register hf execs hr⟩
    · cases h
  | abandon r =>
    cases h
    exact ⟨⟨ho.current,ho.revoked,ho.alive,ho.intents,ho.reads,ho.cleared⟩,hf⟩
  | exit p =>
    cases h
    exact ⟨ho.fewer fun _ hp => List.mem_of_mem_erase hp,hf⟩
  | read =>
    cases h
    exact ⟨ho.read,hf⟩
  | kill snapshot revocationVerified report =>
    simp only [step] at h
    split at h
    · rename_i hread
      have hkill : ∀ leaf, Owned {s with alive := s.alive.filter (fun p => p.containment ≠ leaf)} :=
        fun leaf => ho.fewer fun _ hp => (List.mem_filter.mp hp).1
      cases hc : cleanupChecks snapshot revocationVerified report with
      | error e =>
        rw [hc] at h
        cases h
        split
        · exact ⟨hkill _,hf⟩
        · exact ⟨ho,hf⟩
      | ok _ =>
        rw [hc] at h
        cases h
        obtain ⟨hin,hcontainment⟩ := cleanupChecks_ok hc
        have hleaf := fun heq => ((ho.reads snapshot hread).2 hin heq).2
        cases hk : killedBy snapshot revocationVerified report with
        | some leaf =>
          have hsnap := killedBy_some hk
          refine ⟨(hkill leaf).clear hread hin ?_,hf⟩
          intro heq
          rw [List.filter_eq_nil_iff]
          intro p hp
          have hpc := hleaf heq p hp
          rw [hsnap] at hpc
          cases hpc
          simp
        | none =>
          refine ⟨ho.clear hread hin ?_,hf⟩
          intro heq
          rw [List.eq_nil_iff_forall_not_mem]
          intro p hp
          have hpc := hleaf heq p hp
          rcases hcontainment with hnone | ⟨leaf,-,hsome⟩
          · rw [hnone] at hpc
            cases hpc
          · rw [hk] at hsome
            cases hsome
    · cases h
  | finish snapshot removed =>
    simp only [step] at h
    split at h
    · rename_i hcleared
      cases h
      cases hr : finishCleanup snapshot removed s.file with
      | error e => exact ⟨ho,hf⟩
      | ok file => exact ⟨ho.finish hcleared hr,fenced_append hf (by simp) List.Pairwise.nil⟩
    · cases h

theorem run_owned {s : System} {as : List Act} (h : Run.exec step {} as = some s) : Owned s ∧ Fenced s.log :=
  Run.exec_invariant (I := fun s => Owned s ∧ Fenced s.log) (fun _ _ _ hi hs => step_owned hi hs) h
    ⟨owned_initial,List.Pairwise.nil⟩

theorem step_token {s : System} (h : s.step a = some s') (hne : s'.file.token ≠ s.file.token) :
    ∃ token deadline, a = .activate token deadline ∧ ∃ file, activateGeneration token deadline s.file = .ok file := by
  have hlocked : ∀ (result : Except OwnershipError OpState) (events : List Event),
      (∀ file, result = .ok file → file.token = s.file.token) → (s.locked result events).file.token = s.file.token := by
    intro result events hr
    cases result with
    | error e => rfl
    | ok file => exact hr file rfl
  cases a with
  | activate token deadline =>
    simp only [step] at h
    split at h
    · cases h
    cases h
    cases hr : activateGeneration token deadline s.file with
    | error e =>
      rw [hr] at hne
      exact absurd rfl hne
    | ok file => exact ⟨token,deadline,rfl,file,hr⟩
  | preflight token prepared =>
    cases h
    exact absurd (hlocked _ _ fun file hr => (preflight_ok hr).1.token) hne
  | revoke token =>
    cases h
    refine absurd (hlocked _ _ fun file hr => ?_) hne
    rw [(revokeGeneration_ok hr).2]
  | intend token launchId prepared =>
    simp only [step] at h
    split at h
    · cases h
    cases h
    exact absurd (hlocked _ _ fun file hr => (ownedWorkerCommand_ok hr).1.token) hne
  | join token operationId launchId command =>
    cases h
    exfalso
    apply hne
    split <;> rfl
  | register r identity now execs =>
    simp only [step] at h
    split at h
    · cases hr : registerWorker r identity now s.file with
      | error e =>
        rw [hr] at h
        cases h
        exact absurd rfl hne
      | ok file =>
        rw [hr] at h
        cases h
        obtain ⟨-,-,-,rfl⟩ := registerWorker_ok hr
        exact absurd rfl hne
    · cases h
  | abandon r =>
    cases h
    exact absurd rfl hne
  | exit p =>
    cases h
    exact absurd rfl hne
  | read =>
    cases h
    exact absurd rfl hne
  | kill snapshot revocationVerified report =>
    simp only [step] at h
    split at h
    · exfalso
      apply hne
      split at h
      · cases h
        split <;> rfl
      · cases h
        split <;> rfl
    · cases h
  | finish snapshot removed =>
    simp only [step] at h
    split at h
    · cases h
      exact absurd (hlocked _ _ fun file hr => (finishCleanup_ok hr).2.2.1) hne
    · cases h

/-- In every run no payload of a generation starts behind the generation's revocation, and
a new generation becomes current only when no worker is registered, no launch of an
earlier generation is on its way, and no earlier payload runs. -/
theorem generations_fenced (as : List Act) (s : System) (h : Run.exec step {} as = some s) : Fenced s.log ∧
    ∀ a s', s.step a = some s' → s'.file.token ≠ s.file.token →
    (∃ token deadline, a = .activate token deadline) ∧ s.file.workers = [] ∧ s.file.pending = [] ∧ s.alive =
    [] ∧ ∀ launchId token, .intended launchId token ∈ s.log → .registered launchId ∈ s.log := by
  obtain ⟨ho,hf⟩ := run_owned h
  refine ⟨hf,?_⟩
  intro a s' hstep hne
  obtain ⟨token,deadline,rfl,file,hok⟩ := step_token hstep hne
  obtain ⟨hworkers,hpending,-⟩ := activateGeneration_ok hok
  refine ⟨⟨token,deadline,rfl⟩,hworkers,hpending,?_,?_⟩
  · rw [List.eq_nil_iff_forall_not_mem]
    intro p hp
    exact (ho.alive p hp).2.2 hworkers
  · intro launchId t hl
    rcases ho.intents launchId t hl with hp | hr
    · rw [hpending] at hp
      cases hp
    · exact hr

/-- A worker of the first generation runs, the generation is revoked and cleaned up, and
the second generation is activated. -/
def restart : List Act :=
  let leaf : Containment := ⟨"g1",7⟩
  let r : Registration := ⟨"g1","op","l1",some ["worker"],leaf⟩
  let file : OpState := {token := some "g1", deadline := 100, workers := [⟨31,"g1","op"⟩], containment := some leaf}
  [.activate "g1" 100,.preflight "g1" (some leaf),.intend "g1" "l1" none,.join "g1" "op" "l1" (some ["worker"]),
    .register r 31 5 true,.revoke "g1",.intend "g1" "l2" none,.read,.kill file true ⟨true,true⟩,.finish file true]

theorem generations_fenced_restart : ∃ s ∈ Run.exec step {} restart, .started "l1" "g1" ∈ s.log ∧ .revoked
    "g1" ∈ s.log ∧ Fenced s.log ∧ ∃ s' ∈ s.step (.activate "g2" 200), s'.file.token = some "g2" ∧ s.alive =
    [] := by
  obtain ⟨s,hs,hstart,hrev,s',hs',htok,hold⟩ : ∃ s ∈ Run.exec step {} restart,
      .started "l1" "g1" ∈ s.log ∧ .revoked "g1" ∈ s.log ∧
        ∃ s' ∈ s.step (.activate "g2" 200), s'.file.token = some "g2" ∧ s.file.token = some "g1" := by
    decide +kernel
  obtain ⟨hf,hnext⟩ := generations_fenced restart s hs
  obtain ⟨-,-,-,hdead,-⟩ := hnext (.activate "g2" 200) s' hs' (by rw [htok,hold]; simp)
  exact ⟨s,hs,hstart,hrev,hf,s',hs',htok,hdead⟩

end System
end Verdict.Supervisor.Generations

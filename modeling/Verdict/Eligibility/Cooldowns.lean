import Verdict.Eligibility.Select

/-! # Overlapping failures on one ladder

Failures reach a ladder from concurrent workers, one call at a time under its lock, and
every call overwrites the entries of the keys it writes. A ghost list remembers each
deadline a call has set. As long as no call writes a key whose stored deadline is later
and still running, every remembered deadline keeps blocking.
-/
namespace Verdict.Eligibility
open HealthCache (Time Sections seconds)

/-- A call that records a failure, and then persists the memory. -/
inductive Report
  | recordFailure (routeId : String) (failure : Failure) (now : Time)
  | recordHealth (routeId : String) (result : HealthResult) (provider : String) (now : Time)

namespace Report
variable (cfg : LadderConfig)

def now : Report → Time
  | .recordFailure _ _ now => now
  | .recordHealth _ _ _ now => now

def writes : Report → List String
  | .recordFailure routeId failure _ => failureKeys cfg routeId failure
  | .recordHealth routeId result provider _ => healthKeys cfg routeId result provider

def deadline : Report → Time
  | .recordFailure _ failure now => (failureEntry failure now).untilAt
  | .recordHealth _ result _ now => (healthEntry cfg result now).untilAt

def apply (memory : LadderState) : Report → LadderState
  | .recordFailure routeId failure now => Eligibility.recordFailure cfg memory routeId failure now
  | .recordHealth routeId result provider now => Eligibility.recordHealth cfg memory routeId result now provider

variable {cfg}

theorem holds_apply {r : Report} {memory : LadderState} {key : String} {d : Time}
    (h : key ∉ r.writes cfg → Holds memory.cooldowns key d) (hw : key ∈ r.writes cfg → d ≤ r.deadline cfg) :
    Holds (r.apply cfg memory).cooldowns key d := by
  cases r with
  | recordFailure routeId failure now => exact Holds.setAll h hw
  | recordHealth routeId result provider now => exact Holds.setAll h hw

end Report

/-- A report, or the reload of `dispatch_blocker` with the file as it stands then. -/
inductive Call
  | report (r : Report)
  | dispatchBlocker (fresh : Dict String CooldownEntry) (now : Time)

structure Ladder where
  memory : LadderState
  clock : Time
  deadlines : List (String × Time) := []

namespace Call
variable (cfg : LadderConfig)

def now : Call → Time
  | .report r => r.now
  | .dispatchBlocker _ now => now

def Extends (s : Ladder) : Call → Prop
  | .report r => ∀ key ∈ r.writes cfg, ∀ e ∈ s.memory.cooldowns.get? key, r.now < e.untilAt → e.untilAt ≤ r.deadline cfg
  | .dispatchBlocker _ _ => True

instance (s : Ladder) : (c : Call) → Decidable (c.Extends cfg s)
  | .report r => inferInstanceAs (Decidable (∀ key ∈ r.writes cfg, ∀ e ∈ s.memory.cooldowns.get? key,
      r.now < e.untilAt → e.untilAt ≤ r.deadline cfg))
  | .dispatchBlocker _ _ => isTrue trivial

def apply (s : Ladder) : Call → Ladder
  | .report r => {
      memory := r.apply cfg s.memory
      clock := r.now
      deadlines := (r.writes cfg).map (fun key => (key,r.deadline cfg)) ++ s.deadlines }
  | .dispatchBlocker fresh now => {s with memory := mergeFresh s.memory fresh, clock := now}

def step (s : Ladder) (c : Call) : Option Ladder := if s.clock ≤ c.now then some (c.apply cfg s) else none

end Call

/-- Every deadline that was set and has not passed is stored, or a later one is. -/
def Ladder.Kept (s : Ladder) : Prop :=
  ∀ entry ∈ s.deadlines, s.clock < entry.2 → Holds s.memory.cooldowns entry.1 entry.2

theorem Ladder.Kept.report {cfg : LadderConfig} {s : Ladder} {r : Report} (h : s.Kept) (hclock : s.clock ≤ r.now)
    (hok : (Call.report r).Extends cfg s) : ((Call.report r).apply cfg s).Kept := by
  rintro ⟨key,d⟩ hentry hrunning
  simp only [Call.apply,List.mem_append,List.mem_map] at hentry
  rcases hentry with ⟨written,hwritten,heq⟩ | hold
  · cases heq
    exact Report.holds_apply (fun hn => absurd hwritten hn) fun _ => le_rfl
  · have hstored := h (key,d) hold (hclock.trans_lt hrunning)
    apply Report.holds_apply fun _ => hstored
    intro hkey
    obtain ⟨e,he,hle⟩ := hstored
    -- the stored entry still runs, so the report may not write an earlier deadline
    have hlater : r.now < e.untilAt := hrunning.trans_le hle
    exact hle.trans (hok key hkey e he hlater)

theorem Ladder.Kept.step {cfg : LadderConfig} {s t : Ladder} {c : Call} (h : s.Kept) (hok : c.Extends cfg s)
    (hstep : c.step cfg s = some t) : t.Kept := by
  unfold Call.step at hstep
  split at hstep
  · rename_i hclock
    cases hstep
    cases c with
    | report r => exact h.report hclock hok
    | dispatchBlocker fresh now =>
      intro entry hentry hrunning
      exact (h entry hentry (hclock.trans_lt hrunning)).merge_memory
  · cases hstep

/-- In every run of failure records and reloads that never overwrites a later running
deadline, a deadline set for a pool, route or provider key blocks each route with that key
at every time before it, whatever the file and the health cache hold then. -/
theorem deadline_blocks {ρ : Type} {cfg : LadderConfig} {initial : LadderState} {start : Time} {calls : List Call}
    {s : Ladder} (hrun : Run.exec (fun s c => Call.step cfg s c) ⟨initial,start,[]⟩ calls = some s)
    (hok : Run.AllSteps (fun s c => Call.step cfg s c) (fun s c => c.Extends cfg s) ⟨initial,start,[]⟩ calls)
    {key : String} {d : Time} (hset : (key,d) ∈ s.deadlines) {routeId : String} (hkey : key ∈ dispatchKeys cfg routeId)
    {t : Time} (hclock : s.clock ≤ t) (ht : t < d) (fresh : Dict String CooldownEntry) (cache : Option (Sections ρ)) :
    dispatchBlocker cfg s.memory fresh cache routeId t ≠ none := by
  have hkept : s.Kept := by
    refine Run.exec_invariant_of (fun s c u hs ho hstep => hs.step ho hstep) hok hrun ?_
    intro entry hentry
    cases hentry
  have hstored := hkept (key,d) hset (hclock.trans_lt ht)
  exact dispatchBlocker_ne_none hkey hstored.merge_memory ht cache

theorem sixHours_lower : seconds 60 ≤ seconds 21600 := by decide

theorem sixHours_upper : seconds 21600 ≤ seconds 172800 := by decide

def bareLadder : LadderConfig where
  ops := Admission.epochText
  fresh := ⟨seconds 21600,sixHours_lower,sixHours_upper⟩

def throttled (span : ℤ) : Failure := ⟨"rate_limited",span,.route⟩
def timedOutCall : Failure := ⟨"timeout",0,.route⟩

theorem deadline_blocks_throttled : ∃ s, Run.exec (fun s c => Call.step bareLadder s c) ⟨{},0,[]⟩
      [.report (.recordFailure "cc/a" (throttled (seconds 600)) 0),.report (.recordFailure "cc/b" timedOutCall (seconds 1))] = some s ∧
    dispatchBlocker bareLadder s.memory .empty (none : Option (Sections Unit)) "cc/a" (seconds 100) ≠ none := by
  obtain ⟨s,hs,h⟩ : ∃ s ∈ Run.exec (fun s c => Call.step bareLadder s c) ⟨{},0,[]⟩
      [.report (.recordFailure "cc/a" (throttled (seconds 600)) 0),.report (.recordFailure "cc/b" timedOutCall (seconds 1))],
      ("route:cc/a",seconds 600) ∈ s.deadlines ∧ s.clock ≤ seconds 100 := by decide +kernel
  exact ⟨s,hs,deadline_blocks hs (by decide +kernel) h.1 (by decide +kernel) h.2 (by decide) .empty none⟩

/-- A timeout that comes in after a throttling of the same route cuts its ten minutes short. -/
theorem timeout_shortens_throttling : ∃ s, Run.exec (fun s c => Call.step bareLadder s c) ⟨{},0,[]⟩
      [.report (.recordFailure "cc/a" (throttled (seconds 600)) 0),.report (.recordFailure "cc/a" timedOutCall (seconds 1))] = some s ∧
    ("route:cc/a",seconds 600) ∈ s.deadlines ∧ "route:cc/a" ∈ dispatchKeys bareLadder "cc/a" ∧
    s.clock ≤ seconds 100 ∧ seconds 100 < seconds 600 ∧
    dispatchBlocker bareLadder s.memory .empty (none : Option (Sections Unit)) "cc/a" (seconds 100) = none := by
  obtain ⟨s,hs,h⟩ : ∃ s ∈ Run.exec (fun s c => Call.step bareLadder s c) ⟨{},0,[]⟩
      [.report (.recordFailure "cc/a" (throttled (seconds 600)) 0),.report (.recordFailure "cc/a" timedOutCall (seconds 1))],
      ("route:cc/a",seconds 600) ∈ s.deadlines ∧ "route:cc/a" ∈ dispatchKeys bareLadder "cc/a" ∧
      s.clock ≤ seconds 100 ∧ seconds 100 < seconds 600 ∧
      dispatchBlocker bareLadder s.memory .empty (none : Option (Sections Unit)) "cc/a" (seconds 100) = none := by
    decide +kernel
  exact ⟨s,hs,h⟩

end Verdict.Eligibility

/-! ## Excluded routes and their other spellings

One backend model can be reached under several route ids. The task gate compares an excluded
route by its id and by the aliased pools, which are fewer than the credential pools of
`backend_model`: another spelling of an excluded model comes back unless one of the two
comparisons happens to meet it.
-/
namespace Verdict.Eligibility
open HealthCache (Time)
open Catalog (backendPool)

section
variable {ρ : Type} (sel : Selector) (req : TaskRequirements) (now : Time) (view : View ρ) (routeId : String)

/-- The gate lets the route through for some capacity class, or a selection returns it. -/
def Admits : Prop :=
  (∃ capacity, taskGate sel.ladder sel.details sel.capabilityTtl routeId req capacity view now = none)
    ∨ ∃ s a, (select sel s req now view).outcome = .chosen a ∧ a.routeId = routeId

def BackendExcluded : Prop :=
  ∀ e ∈ req.excludeRoutes, backendModel sel.ladder.ops.lower e ≠ backendModel sel.ladder.ops.lower routeId

/-- The exclusion names the route in this spelling, or meets it in an aliased pool. -/
def SpellingExcluded : Prop :=
  routeId ∈ req.excludeRoutes
    ∨ backendPool sel.ladder.ops.lower routeId ∈ aliasedPoolsFor sel.ladder.ops.lower req.excludeRoutes

end

section
variable {ρ : Type} {sel : Selector} {req : TaskRequirements} {now : Time} {view : View ρ} {routeId : String}

theorem notExcluded_of_not_spelling (h : ¬ SpellingExcluded sel req routeId) : NotExcluded sel.ladder routeId req :=
  ⟨fun hroute => h (.inl hroute),fun haliased => h (.inr haliased)⟩

theorem gate_of_admits (h : Admits sel req now view routeId) :
    ∃ capacity, taskGate sel.ladder sel.details sel.capabilityTtl routeId req capacity view now = none := by
  rcases h with hgate | ⟨s,a,ha,rfl⟩
  · exact hgate
  · obtain ⟨front,c,back,hplace⟩ := chosen_place ha
    exact ⟨_,hplace.vetted.passes.task⟩

/-- An admitted route differs from every excluded backend model exactly when a route that meets the
task and shares an excluded backend model is excluded in its own spelling. -/
theorem backend_excluded_iff (sel : Selector) (req : TaskRequirements) (now : Time) (view : View ρ) (routeId : String) :
    (Admits sel req now view routeId → BackendExcluded sel req routeId)
      ↔ ((∃ capacity, MeetsTask sel.ladder sel.details sel.capabilityTtl routeId req capacity view now) →
        (∃ e ∈ req.excludeRoutes, backendModel sel.ladder.ops.lower e = backendModel sel.ladder.ops.lower routeId) →
        SpellingExcluded sel req routeId) := by
  constructor
  · rintro hbackend ⟨capacity,hmeets⟩ ⟨e,he,hsame⟩
    by_contra hspelling
    have hgate := taskGate_eq_none.mpr ⟨hmeets,notExcluded_of_not_spelling hspelling⟩
    exact hbackend (.inl ⟨capacity,hgate⟩) e he hsame
  · intro hspelling hadmits e he hsame
    obtain ⟨capacity,hgate⟩ := gate_of_admits hadmits
    obtain ⟨hmeets,hexcluded⟩ := taskGate_eq_none.mp hgate
    rcases hspelling ⟨capacity,hmeets⟩ ⟨e,he,hsame⟩ with hroute | haliased
    · exact hexcluded.route hroute
    · exact hexcluded.aliased haliased

def sonnetSelector : Selector where
  ladder :=
    { bareLadder with
      rows := Dict.empty.set "claude/claude-sonnet-4" {ownedBy := "claude", contextLength := some 200000}
      connections := [{provider := "claude", isActive := true}] }
  details := fun _ => {capabilities := Dict.empty.set "tool_calling" true}
  classify := fun _ _ => (.subscription,"max","connection")
  classifyKnown := fun _ => some 0

def sonnetView : View Unit := { memory := {health := Dict.empty.set "claude/claude-sonnet-4" ⟨true,"",0⟩} }

def freshSurroundings : Surroundings Unit where
  load := fun _ => 0
  turn := fun _ => ⟨⟨true,some 0⟩,⟨true,"",none,none,""⟩,none⟩

/-- A task whose implementer has failed on Sonnet through the `cc/` prefix. -/
def afterFailure : TaskRequirements := { excludeRoutes := {"cc/claude-sonnet-4"} }

def Outcome.routeId? : Outcome → Option String
  | .chosen a => some a.routeId
  | _ => none

theorem Outcome.eq_chosen {o : Outcome} (h : o.routeId? = some routeId) : ∃ a, o = .chosen a ∧ a.routeId = routeId := by
  cases o with
  | chosen a => exact ⟨a,rfl,Option.some.inj h⟩
  | exhausted => cases h
  | raised => cases h

/-- The backend that has failed is selected again through its other prefix. -/
theorem failed_backend_selected_again : ¬ (Admits sonnetSelector afterFailure 0 sonnetView "claude/claude-sonnet-4" →
    BackendExcluded sonnetSelector afterFailure "claude/claude-sonnet-4") := by
  intro h
  have hchosen : (select sonnetSelector freshSurroundings afterFailure 0 sonnetView).outcome.routeId?
      = some "claude/claude-sonnet-4" := by decide +kernel
  obtain ⟨a,ha,hroute⟩ := Outcome.eq_chosen hchosen
  exact h (.inr ⟨freshSurroundings,a,ha,hroute⟩) "cc/claude-sonnet-4" (Finset.mem_singleton_self _) (by decide +kernel)

end
end Verdict.Eligibility

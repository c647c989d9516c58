import Mathlib.Data.Prod.Lex
import Verdict.Basics.Grouped
import Verdict.Eligibility.Assess

/-! # Free-first selection

The candidates are the routes that pass every stage and are below their worker capacity. A
refresh may drop some of them again. The rest is visited in an order whose first key is the
capacity class: a candidate that still needs proof is probed, as long as the budget lasts, and
the first one that is proven is selected.
-/
namespace Verdict.Eligibility
open HealthCache (Time Sections HealthEntry seconds)
open Admission (AdmittedSet AdmissionBypass canonicalRouteId startsWith)

structure Refresh (ρ : Type) where
  results : Option (String → Option String)
  cache : Option (Sections ρ)
  session : String → ℕ → Option SessionStats

structure Passport where
  admitted : Bool
  qualifiedAt : Option Time

/-- What a selection meets at one candidate: its passport, the answer of its probe, and the health
cache behind the probe. -/
structure Turn (ρ : Type) where
  passport : Passport
  result : HealthResult
  cache : Option (Sections ρ)

structure Surroundings (ρ : Type) where
  load : String → ℤ
  expectedTokens : String → Option ℚ := fun _ => none
  advisoryRank : String → Option ℕ := fun _ => none
  refresh : Option (Refresh ρ) := none
  turn : String → Turn ρ

/-- `PERMIT_PROOF_MAX_VALIDITY_SECONDS`. -/
def proofMaxValidity : ℤ := seconds 600

def Passport.stale (p : Passport) (now : Time) : Bool :=
  !p.admitted || p.qualifiedAt.all fun qualified => decide (proofMaxValidity ≤ now - qualified)

section
variable {ρ : Type} (sel : Selector) (s : Surroundings ρ)

/-- Coarse buckets; unmeasured quota ranks in the middle. -/
def quotaRank (percent : Option ℚ) : ℤ := percent.elim 2 fun p => 4 - min 4 (p / 20).floor

/-- `_rank_key(a)[:3]`: capacity class, then for subscriptions the expected tokens, unknown last. -/
def costKey (a : Assessment) : ℕ ×ₗ ℕ ×ₗ ℚ :=
  let tokens := s.expectedTokens a.routeId
  toLex (a.capacity.order,toLex (if a.capacity = .subscription then
    (if tokens.isNone then 1 else 0,tokens.getD 0) else (0,0)))

def ratingKeyOf (a : Assessment) : ℕ ×ₗ ℚ ×ₗ ℕ :=
  let key := a.rating.getD {}
  toLex (key.rank,toLex (key.negScore,key.declared))

def rankKey (a : Assessment) : (ℕ ×ₗ ℕ ×ₗ ℚ) ×ₗ (ℕ ×ₗ ℚ ×ₗ ℕ) ×ₗ ℤ ×ₗ ℕ ×ₗ ℤ ×ₗ ℕ ×ₗ ℤ ×ₗ ℤ ×ₗ String :=
  toLex (costKey s a,toLex (ratingKeyOf a,toLex (a.slack,toLex ((s.advisoryRank a.routeId).getD (2 ^ 63 - 1),
    toLex (if a.capacity = .subscription then 0 else quotaRank a.quotaPercent,
      toLex (sel.preferProviders.idxOf a.provider,toLex (s.load a.routeId,toLex (-(a.fit : ℤ),a.routeId))))))))

def probeKey (a : Assessment) : (ℕ ×ₗ ℕ ×ₗ ℚ) ×ₗ (ℕ ×ₗ ℚ ×ₗ ℕ) := toLex (costKey s a,ratingKeyOf a)

/-- Healthy candidates first, providers in turn, and the result sorted by cost and rating. -/
def probeOrder (candidates : List Assessment) : List Assessment :=
  (RoundRobin.ordered Assessment.provider (fun a => decide (a.health = .healthy)) candidates).insertionSort
    (fun a b => probeKey s a ≤ probeKey s b)

end

section Selecting
variable {ρ : Type} (sel : Selector) (s : Surroundings ρ) (req : TaskRequirements) (now : Time)

def opaqueRoute (routeId : String) : Bool :=
  ["auto/","combo/","router/","virtual/"].any (startsWith (lowered sel routeId))
    || decide (lowered sel ((sel.ladder.rows.get? routeId).elim "" Admission.InventoryRow.ownedBy) = "combo")

/-- The routes `_assess_all` looks at, in their order. -/
def catalog : List String :=
  (sel.ladder.rows.keys.insertionSort (· ≤ ·)).filter fun routeId => !opaqueRoute sel routeId

def Assessment.selectable (a : Assessment) : Bool := a.failedStage.isNone && decide (a.health ≠ .unhealthy)

/-- `_assess_all`: the selectable routes below worker capacity, ranked. -/
def candidates (view : View ρ) : List Assessment :=
  (((catalog sel).map fun routeId => assess sel view routeId req now).filter (fun a =>
    a.selectable && decide (s.load a.routeId < sel.maxPerRoute))).insertionSort fun a b => rankKey sel s a ≤ rankKey sel s b

def View.after (view : View ρ) (refresh : Refresh ρ) : View ρ := {view with cache := refresh.cache, session := refresh.session}

def refused (refresh : Refresh ρ) (routeId : String) : Option String :=
  (refresh.results.bind (· routeId)).bind (fun status =>
    if ["failed","unavailable"].contains (lowered sel status) then some (lowered sel status) else none)

def refreshed (view : View ρ) (refresh : Refresh ρ) (c : Assessment) : Assessment :=
  match refused sel refresh c.routeId with
  | some status => {c with failedStage := some .healthy, reason := status}
  | none =>
    let again := assess sel (view.after refresh) c.routeId req now
    let c := {c with health := again.health, healthCategory := again.healthCategory}
    match again.failedStage with
    | some stage => {c with
        failedStage := some stage
        reason := again.reason
        cooldownUntil := again.cooldownUntil
        cooldownScope := again.cooldownScope}
    | none => c

/-- The candidates that `select` probes. -/
def shortlist (view : View ρ) : List Assessment :=
  match s.refresh with
  | none => candidates sel s req now view
  | some refresh => (candidates sel s req now view).map (refreshed sel req now view refresh)

def viewAfterRefresh (view : View ρ) : View ρ := s.refresh.elim view view.after

/-- The state of the loop: the view, the probes made with their results, and the providers a failed
probe has blocked, with their deadlines. -/
structure Progress (ρ : Type) where
  view : View ρ
  probes : List (String × HealthResult) := []
  blocked : Dict String String := .empty

inductive Visit
  | skipped (a : Assessment)
  | chosen (a : Assessment)
  | raised (e : AdmissionBypass)

def confirming (p : Progress ρ) (routeId : String) : Bool :=
  p.view.admitted.any fun admitted => !admitted.launchable sel.ladder.ops routeId

def needsProbe (p : Progress ρ) (a : Assessment) : Bool :=
  decide (a.health ≠ .healthy) || confirming sel p a.routeId || (s.turn a.routeId).passport.stale now

/-- `require_launchable` and the end of the loop. -/
def launch (p : Progress ρ) (a : Assessment) : Visit :=
  match p.view.admitted with
  | none => .chosen a
  | some admitted =>
    if admitted.launchable sel.ladder.ops a.routeId then .chosen a
    else .raised ⟨"EligibilityLadder.select",[canonicalRouteId sel.ladder.ops a.routeId]⟩

/-- `_record_confirmation`, when the candidate is being confirmed. -/
def recordedConfirmation (p : Progress ρ) (a : Assessment) (result : HealthResult) :
    Except AdmissionBypass (Option AdmittedSet) :=
  match p.view.admitted with
  | none => .ok none
  | some admitted =>
    if confirming sel p a.routeId then
      (admitted.recordConfirmation sel.ladder.ops a.routeId result.healthy "ladder_probe:openai_health_probe"
        (sel.ladder.ops.iso now) result.category).map some
    else .ok (some admitted)

def blockedUntil (p : Progress ρ) (a : Assessment) : String :=
  match cooldownUntil sel p.view now (providerKey a.provider) none with
  | some deadline => sel.ladder.ops.iso deadline
  | none => a.cooldownUntil.getD "None"

def newerNegative (view : View ρ) (routeId : String) (result : HealthResult) : Bool :=
  result.healthy && (cachedEntry view routeId).any fun latest => !latest.healthy && decide (now ≤ latest.checkedAt)

def settle (p : Progress ρ) (a : Assessment) (result : HealthResult) : Progress ρ × Visit :=
  if newerNegative now p.view a.routeId result then
    (p,.skipped {a with failedStage := some .healthy, reason := "newer_negative"})
  else if result.healthy then (p,launch sel p {a with health := .healthy, reason := ""})
  else
    let cooled := (p.view.memory.cooldowns.get? (routeKey a.routeId)).map fun e => sel.ladder.ops.iso e.untilAt
    let a := {a with
      health := .unhealthy
      failedStage := some .healthy
      reason := result.category
      cooldownUntil := cooled.or a.cooldownUntil}
    if providerScopeCategories.contains result.category then
      ({p with blocked := p.blocked.set a.provider (blockedUntil sel now p a)},.skipped a)
    else (p,.skipped a)

def recorded (p : Progress ρ) (a : Assessment) : Progress ρ :=
  let result := (s.turn a.routeId).result
  {p with
    probes := p.probes ++ [(a.routeId,result)]
    view := {p.view with memory := recordHealth sel.ladder p.view.memory a.routeId result now a.provider}}

def reloaded (p : Progress ρ) (a : Assessment) (admitted : Option AdmittedSet) : Progress ρ :=
  {p with view := {p.view with
    admitted := admitted
    cache := p.view.cache.bind (fun _ => (s.turn a.routeId).cache)}}

def visit (p : Progress ρ) (a : Assessment) : Progress ρ × Visit :=
  if a.failedStage.isSome then (p,.skipped a)
  else match p.blocked.get? a.provider with
  | some deadline =>
    (p,.skipped {a with failedStage := some .available, reason := "cooldown:provider", cooldownUntil := some deadline})
  | none =>
    if needsProbe sel s now p a then
      if sel.maxProbes ≤ p.probes.length then (p,.skipped {a with reason := "probe_budget_exhausted"})
      else
        let p := recorded sel s now p a
        match recordedConfirmation sel now p a (s.turn a.routeId).result with
        | .error e => (p,.raised e)
        | .ok admitted => settle sel now (reloaded s p a admitted) a (s.turn a.routeId).result
    else (p,launch sel p a)

inductive Outcome
  | exhausted
  | chosen (a : Assessment)
  | raised (e : AdmissionBypass)

/-- The loop over the probe order: the progress at its end, the candidates passed over as it leaves
them, those not reached, and how it ends. -/
def probeLoop (p : Progress ρ) : List Assessment → Progress ρ × List Assessment × List Assessment × Outcome
  | [] => (p,[],[],.exhausted)
  | a :: rest =>
    match visit sel s now p a with
    | (q,.skipped a) =>
      let (last,passed,unreached,outcome) := probeLoop q rest
      (last,a :: passed,unreached,outcome)
    | (q,.chosen a) => (q,[],rest,.chosen a)
    | (q,.raised e) => (q,[],rest,.raised e)

def inheritBlock (p : Progress ρ) (a : Assessment) : Assessment :=
  match p.blocked.get? a.provider with
  | some deadline =>
    if a.failedStage.isNone then {a with
      failedStage := some .available
      reason := "cooldown:provider"
      cooldownUntil := some deadline}
    else a
  | none => a

structure Selection (ρ : Type) where
  progress : Progress ρ
  outcome : Outcome
  /-- The candidates that were not chosen, as the selection leaves them. -/
  others : List Assessment

def select (view : View ρ) : Selection ρ :=
  let (progress,passed,unreached,outcome) :=
    probeLoop sel s now {view := viewAfterRefresh s view} (probeOrder s (shortlist sel s req now view))
  { progress := progress
    outcome := outcome
    others := (passed ++ unreached).map (inheritBlock progress) }

def advance (p : Progress ρ) (front : List Assessment) : Progress ρ := front.foldl (fun p a => (visit sel s now p a).1) p

/-- Why a candidate that is reached with this progress is passed over: a stage or the refresh has
dropped it, a probe of this selection has failed for the account of its provider, it needs a
probe and none is left, its own probe has failed, or the cache knows a newer negative. -/
inductive PassedOver (order : List Assessment) (p : Progress ρ) (a : Assessment) : Prop
  | gated (hdropped : a.failedStage ≠ none)
  | blocked {r : Assessment} {result : HealthResult} (hr : r ∈ order) (hprovider : r.provider = a.provider)
      (hprobed : (r.routeId,result) ∈ p.probes) (hfailed : result.healthy = false)
      (hscope : providerScopeCategories.contains result.category = true)
  | spent (hneeds : needsProbe sel s now p a = true) (hspent : sel.maxProbes ≤ p.probes.length)
  | failed (hneeds : needsProbe sel s now p a = true) (hfailed : (s.turn a.routeId).result.healthy = false)
  | superseded {cache : Sections ρ} {latest : HealthEntry} (hneeds : needsProbe sel s now p a = true)
      (hcache : (s.turn a.routeId).cache = some cache) (hlatest : cache.routes.get? a.routeId = some latest)
      (hnegative : latest.healthy = false) (hnewer : now ≤ latest.checkedAt)

/-- How the probe of a candidate can end. -/
inductive Answered (p : Progress ρ) (a : Assessment) (q : Progress ρ) : Visit → Prop
  | raised (e : AdmissionBypass) (hblocked : q.blocked = p.blocked) : Answered p a q (.raised e)
  | superseded {cache : Sections ρ} {latest : HealthEntry} (b : Assessment) (hblocked : q.blocked = p.blocked)
      (hcache : (s.turn a.routeId).cache = some cache) (hlatest : cache.routes.get? a.routeId = some latest)
      (hnegative : latest.healthy = false) (hnewer : now ≤ latest.checkedAt) : Answered p a q (.skipped b)
  | failed (b : Assessment) (hfailed : (s.turn a.routeId).result.healthy = false) (hblocked : q.blocked = p.blocked) :
      Answered p a q (.skipped b)
  | refused (b : Assessment) (deadline : String) (hfailed : (s.turn a.routeId).result.healthy = false)
      (hscope : providerScopeCategories.contains (s.turn a.routeId).result.category = true)
      (hblocked : q.blocked = p.blocked.set a.provider deadline) : Answered p a q (.skipped b)
  | confirmed (hhealthy : (s.turn a.routeId).result.healthy = true) (hblocked : q.blocked = p.blocked) :
      Answered p a q (launch sel q {a with health := .healthy, reason := ""})

/-- Everything one turn of the loop can do. -/
inductive Visited (p : Progress ρ) (a : Assessment) : Progress ρ → Visit → Prop
  | gated (hdropped : a.failedStage ≠ none) : Visited p a p (.skipped a)
  | blocked (b : Assessment) (hkept : a.failedStage = none) (hblocked : p.blocked.contains a.provider = true) :
      Visited p a p (.skipped b)
  | spent (b : Assessment) (hkept : a.failedStage = none) (hneeds : needsProbe sel s now p a = true)
      (hspent : sel.maxProbes ≤ p.probes.length) : Visited p a p (.skipped b)
  | ready (hkept : a.failedStage = none) (hready : needsProbe sel s now p a = false) : Visited p a p (launch sel p a)
  | probed {q : Progress ρ} {v : Visit} (hkept : a.failedStage = none) (hneeds : needsProbe sel s now p a = true)
      (hleft : p.probes.length < sel.maxProbes) (hprobes : q.probes = p.probes ++ [(a.routeId,(s.turn a.routeId).result)])
      (hanswered : Answered sel s now p a q v) : Visited p a q v

end Selecting

section Loop
variable {ρ : Type} {sel : Selector} {s : Surroundings ρ} {req : TaskRequirements} {now : Time} {p q : Progress ρ}
  {a : Assessment}

theorem settle_answered (p : Progress ρ) (a : Assessment) (admitted : Option AdmittedSet) :
    (settle sel now (reloaded s (recorded sel s now p a) a admitted) a (s.turn a.routeId).result).1.probes =
    p.probes ++ [(a.routeId,(s.turn a.routeId).result)] ∧ Answered sel s now p a
    (settle sel now (reloaded s (recorded sel s now p a) a admitted) a (s.turn a.routeId).result).1
    (settle sel now (reloaded s (recorded sel s now p a) a admitted) a (s.turn a.routeId).result).2 := by
  unfold settle
  split
  · rename_i hnewer
    refine ⟨rfl,?_⟩
    obtain ⟨-,hany⟩ := Bool.and_eq_true_iff.mp hnewer
    obtain ⟨latest,hlatest,hold⟩ := (Option.any_eq_true _ _).mp hany
    obtain ⟨hnegative,hnew⟩ := Bool.and_eq_true_iff.mp hold
    obtain ⟨cache,hc,hentry⟩ := Option.bind_eq_some_iff.mp hlatest
    obtain ⟨-,-,hturn⟩ := Option.bind_eq_some_iff.mp hc
    exact .superseded _ rfl hturn hentry (by simpa using hnegative) (of_decide_eq_true hnew)
  split
  · rename_i hhealthy
    exact ⟨rfl,.confirmed hhealthy rfl⟩
  · rename_i hfailed
    have hsick : (s.turn a.routeId).result.healthy = false := by simpa using hfailed
    dsimp only
    split
    · rename_i hscope
      exact ⟨rfl,.refused _ _ hsick hscope rfl⟩
    · exact ⟨rfl,.failed _ hsick rfl⟩

theorem visit_visited (sel : Selector) (s : Surroundings ρ) (now : Time) (p : Progress ρ) (a : Assessment) :
    Visited sel s now p a (visit sel s now p a).1 (visit sel s now p a).2 := by
  unfold visit
  split
  · rename_i hdropped
    exact .gated (Option.isSome_iff_ne_none.mp hdropped)
  rename_i hkept
  have hnone : a.failedStage = none := by simpa using hkept
  split
  · rename_i deadline hblocked
    exact .blocked _ hnone ((Dict.contains_iff _ _).mpr ⟨deadline,hblocked⟩)
  split
  · rename_i hneeds
    split
    · rename_i hspent
      exact .spent _ hnone hneeds hspent
    · rename_i hleft
      dsimp only
      split
      · exact .probed hnone hneeds (not_le.mp hleft) rfl (.raised _ rfl)
      · rename_i admitted _
        obtain ⟨hprobes,hanswered⟩ := @settle_answered ρ sel s now p a admitted
        exact .probed hnone hneeds (not_le.mp hleft) hprobes hanswered
  · rename_i hready
    exact .ready hnone (Bool.eq_false_iff.mpr hready)

theorem launch_cases (sel : Selector) (p : Progress ρ) (a : Assessment) :
    (launch sel p a = .chosen a ∧ ∀ admitted, p.view.admitted = some admitted → admitted.launchable sel.ladder.ops a.routeId = true)
      ∨ ∃ e, launch sel p a = .raised e := by
  unfold launch
  split
  · rename_i hnone
    exact .inl ⟨rfl,fun admitted h => nomatch hnone.symm.trans h⟩
  · rename_i admitted hs
    split
    · rename_i hlaunchable
      exact .inl ⟨rfl,fun other h => Option.some.inj (hs.symm.trans h) ▸ hlaunchable⟩
    · exact .inr ⟨_,rfl⟩

theorem launch_ne_skipped (b : Assessment) : launch sel p a ≠ .skipped b := by
  rcases launch_cases sel p a with ⟨h,-⟩ | ⟨e,h⟩
  · exact fun hs => nomatch h.symm.trans hs
  · exact fun hs => nomatch h.symm.trans hs

structure Probing (sel : Selector) (order : List Assessment) (p : Progress ρ) : Prop where
  bounded : (p.probes.length : ℤ) ≤ max 0 sel.maxProbes
  blocked : ∀ provider, p.blocked.contains provider = true → ∃ r ∈ order, ∃ result : HealthResult, r.provider = provider
    ∧ (r.routeId,result) ∈ p.probes ∧ result.healthy = false ∧ providerScopeCategories.contains result.category = true

theorem Probing.started (order : List Assessment) (view : View ρ) : Probing sel order {view := view} where
  bounded := le_max_left _ _
  blocked := fun _ h => nomatch h

variable {order : List Assessment}

theorem Probing.visited {v : Visit} (hp : Probing sel order p) (ha : a ∈ order)
    (h : Visited sel s now p a q v) : Probing sel order q := by
  cases h with
  | gated => exact hp
  | blocked => exact hp
  | spent => exact hp
  | ready => exact hp
  | probed hkept hneeds hleft hprobes hanswered =>
    have hgrown : ∀ provider, p.blocked.contains provider = true → ∃ r ∈ order, ∃ result : HealthResult, r.provider = provider
        ∧ (r.routeId,result) ∈ q.probes ∧ result.healthy = false
        ∧ providerScopeCategories.contains result.category = true := by
      intro provider hb
      obtain ⟨r,hr,result,hprovider,hprobed,hfailed,hscope⟩ := hp.blocked provider hb
      exact ⟨r,hr,result,hprovider,hprobes ▸ List.mem_append_left _ hprobed,hfailed,hscope⟩
    refine ⟨?_,?_⟩
    · rw [hprobes,List.length_append,List.length_singleton]
      push_cast
      exact (Int.add_one_le_of_lt hleft).trans (le_max_right _ _)
    · intro provider hb
      cases hanswered with
      | raised e hblocked => exact hgrown provider (hblocked ▸ hb)
      | superseded b hblocked => exact hgrown provider (hblocked ▸ hb)
      | failed b hfailed hblocked => exact hgrown provider (hblocked ▸ hb)
      | confirmed hhealthy hblocked => exact hgrown provider (hblocked ▸ hb)
      | refused b deadline hfailed hscope hblocked =>
        rw [hblocked,Dict.contains,Dict.get?_set] at hb
        split at hb
        · rename_i hsame
          exact ⟨a,ha,_,hsame.symm,hprobes ▸ List.mem_append_right _ (List.mem_singleton.mpr rfl),hfailed,hscope⟩
        · exact hgrown provider hb

variable {b : Assessment}

theorem Probing.passedOver (hp : Probing sel order p)
    (h : Visited sel s now p a q (.skipped b)) : PassedOver sel s now order p a := by
  generalize hv : Visit.skipped b = v at h
  cases h with
  | gated hdropped => exact .gated hdropped
  | blocked c hkept hblocked =>
    obtain ⟨r,hr,result,hprovider,hprobed,hfailed,hscope⟩ := hp.blocked _ hblocked
    exact .blocked hr hprovider hprobed hfailed hscope
  | spent c hkept hneeds hspent => exact .spent hneeds hspent
  | ready => exact absurd hv.symm (launch_ne_skipped b)
  | probed hkept hneeds hleft hprobes hanswered =>
    cases hanswered with
    | raised => cases hv
    | superseded c hblocked hcache hlatest hnegative hnewer => exact .superseded hneeds hcache hlatest hnegative hnewer
    | failed c hfailed => exact .failed hneeds hfailed
    | refused c deadline hfailed => exact .failed hneeds hfailed
    | confirmed => exact absurd hv.symm (launch_ne_skipped b)

structure Proven (sel : Selector) (s : Surroundings ρ) (now : Time) (p : Progress ρ) (a : Assessment) (q : Progress ρ)
    (b : Assessment) : Prop where
  kept : a.failedStage = none
  routeId : b.routeId = a.routeId
  capacity : b.capacity = a.capacity
  launchable : ∀ admitted, q.view.admitted = some admitted → admitted.launchable sel.ladder.ops a.routeId = true
  proven : needsProbe sel s now p a = false
    ∨ ∃ result : HealthResult, (a.routeId,result) ∈ q.probes ∧ result.healthy = true

theorem Visited.proven (h : Visited sel s now p a q (.chosen b)) : Proven sel s now p a q b := by
  generalize hv : Visit.chosen b = v at h
  cases h with
  | gated => cases hv
  | blocked => cases hv
  | spent => cases hv
  | ready hkept hready =>
    rcases launch_cases sel p a with ⟨hchosen,hlaunchable⟩ | ⟨e,he⟩
    · cases hv.trans hchosen
      exact ⟨hkept,rfl,rfl,hlaunchable,.inl hready⟩
    · cases hv.trans he
  | probed hkept hneeds hleft hprobes hanswered =>
    cases hanswered with
    | raised => cases hv
    | superseded => cases hv
    | failed => cases hv
    | refused => cases hv
    | confirmed hhealthy =>
      rcases launch_cases sel q {a with health := .healthy, reason := ""} with ⟨hchosen,hlaunchable⟩ | ⟨e,he⟩
      · cases hv.trans hchosen
        exact ⟨hkept,rfl,rfl,hlaunchable,.inr ⟨_,hprobes ▸ List.mem_append_right _ (List.mem_singleton.mpr rfl),hhealthy⟩⟩
      · cases hv.trans he

theorem advance_cons (p : Progress ρ) (a : Assessment) (front : List Assessment) :
    advance sel s now p (a :: front) = advance sel s now (visit sel s now p a).1 front := rfl

theorem Probing.advance {order front : List Assessment} (hp : Probing sel order p) (hsub : front ⊆ order) :
    Probing sel order (advance sel s now p front) := by
  induction front generalizing p with
  | nil => exact hp
  | cons a front ih =>
    obtain ⟨ha,hrest⟩ := List.cons_subset.mp hsub
    exact ih (hp.visited ha (visit_visited sel s now p a)) hrest

variable {rest : List Assessment}

theorem Probing.loop (hp : Probing sel order p) (hsub : rest ⊆ order) :
    Probing sel order (probeLoop sel s now p rest).1 := by
  induction rest generalizing p with
  | nil => exact hp
  | cons a rest ih =>
    obtain ⟨ha,hrest⟩ := List.cons_subset.mp hsub
    have hq : Probing sel order (visit sel s now p a).1 := hp.visited ha (visit_visited sel s now p a)
    rw [probeLoop]
    split
    · rename_i q b heq
      rw [heq] at hq
      exact ih hq hrest
    · rename_i q b heq
      rw [heq] at hq
      exact hq
    · rename_i q e heq
      rw [heq] at hq
      exact hq

theorem probeLoop_chosen (h : (probeLoop sel s now p rest).2.2.2 = .chosen b) : ∃ front c back, rest = front ++ c :: back ∧ visit
    sel s now (advance sel s now p front) c = ((probeLoop sel s now p rest).1,.chosen b) ∧ ∀ early d late,
    front = early ++ d :: late → ∃ d', (visit sel s now (advance sel s now p early) d).2 = .skipped d' := by
  induction rest generalizing p with
  | nil => cases h
  | cons a rest ih =>
    rw [probeLoop] at h ⊢
    split at h
    · rename_i q a' heq
      obtain ⟨front,c,back,rfl,hvisit,hskipped⟩ := ih h
      have hq : (visit sel s now p a).1 = q := by rw [heq]
      refine ⟨a :: front,c,back,rfl,?_,?_⟩
      · rw [advance_cons,hq,hvisit]
      · intro early d late hsplit
        cases early with
        | nil =>
          obtain ⟨rfl,-⟩ := List.cons_eq_cons.mp hsplit
          exact ⟨a',congrArg Prod.snd heq⟩
        | cons e early =>
          obtain ⟨rfl,hrest⟩ := List.cons_eq_cons.mp hsplit
          obtain ⟨d',hd⟩ := hskipped early d late hrest
          refine ⟨d',?_⟩
          rw [advance_cons,hq]
          exact hd
    · rename_i q a' heq
      cases h
      refine ⟨[],a,rest,rfl,?_,fun early d late hsplit => ?_⟩
      · exact heq
      · cases early <;> cases hsplit
    · cases h

end Loop

section Soundness
variable {ρ : Type} {sel : Selector} {s : Surroundings ρ} {req : TaskRequirements} {now : Time} {view : View ρ} {a c : Assessment}

theorem mem_candidates : c ∈ candidates sel s req now view
    ↔ ∃ routeId ∈ catalog sel, c = assess sel view routeId req now ∧ c.selectable = true ∧ s.load c.routeId < sel.maxPerRoute := by
  rw [candidates,List.mem_insertionSort,List.mem_filter,List.mem_map,Bool.and_eq_true_iff,decide_eq_true_iff]
  constructor
  · rintro ⟨⟨routeId,hmem,rfl⟩,hc⟩
    exact ⟨routeId,hmem,rfl,hc⟩
  · rintro ⟨routeId,hmem,rfl,hc⟩
    exact ⟨⟨routeId,hmem,rfl⟩,hc⟩

theorem refreshed_names (sel : Selector) (req : TaskRequirements) (now : Time) (view : View ρ)
    (refresh : Refresh ρ) (c : Assessment) : (refreshed sel req now view refresh c).routeId = c.routeId ∧
    (refreshed sel req now view refresh c).provider = c.provider ∧
    (refreshed sel req now view refresh c).capacity = c.capacity := by
  simp only [refreshed]
  split
  · exact ⟨rfl,rfl,rfl⟩
  split <;> exact ⟨rfl,rfl,rfl⟩

theorem refreshed_kept {refresh : Refresh ρ} (h : (refreshed sel req now view refresh c).failedStage = none) :
    refused sel refresh c.routeId = none ∧ (assess sel (view.after refresh) c.routeId req now).failedStage = none
      ∧ (refreshed sel req now view refresh c).health = (assess sel (view.after refresh) c.routeId req now).health := by
  cases hrefused : refused sel refresh c.routeId with
  | some status => simp only [refreshed,hrefused] at h; cases h
  | none =>
    cases hagain : (assess sel (view.after refresh) c.routeId req now).failedStage with
    | some stage => simp only [refreshed,hrefused,hagain] at h; cases h
    | none =>
      refine ⟨rfl,rfl,?_⟩
      simp only [refreshed,hrefused,hagain]

theorem mem_shortlist (hc : c ∈ shortlist sel s req now view) : ∃ routeId ∈ catalog sel,
    (assess sel view routeId req now).selectable = true ∧ s.load routeId < sel.maxPerRoute ∧ c.routeId = routeId
      ∧ (s.refresh = none ∧ c = assess sel view routeId req now
        ∨ ∃ refresh, s.refresh = some refresh ∧ c = refreshed sel req now view refresh (assess sel view routeId req now)) := by
  rw [shortlist] at hc
  split at hc
  · rename_i hnone
    obtain ⟨routeId,hmem,rfl,hselectable,hload⟩ := mem_candidates.mp hc
    rw [assess_names.1] at hload
    exact ⟨routeId,hmem,hselectable,hload,assess_names.1,.inl ⟨hnone,rfl⟩⟩
  · rename_i refresh hs
    obtain ⟨b,hb,rfl⟩ := List.mem_map.mp hc
    obtain ⟨routeId,hmem,rfl,hselectable,hload⟩ := mem_candidates.mp hb
    rw [assess_names.1] at hload
    exact ⟨routeId,hmem,hselectable,hload,(refreshed_names sel req now view refresh _).1.trans assess_names.1,.inr ⟨refresh,hs,rfl⟩⟩

theorem shortlisted {routeId : String} (hmem : routeId ∈ catalog sel)
    (hselectable : (assess sel view routeId req now).selectable = true) (hload : s.load routeId < sel.maxPerRoute) :
    ∃ c ∈ shortlist sel s req now view, c.routeId = routeId ∧ c.capacity = (assess sel view routeId req now).capacity := by
  have hcandidate : assess sel view routeId req now ∈ candidates sel s req now view :=
    mem_candidates.mpr ⟨routeId,hmem,rfl,hselectable,by rw [assess_names.1]; exact hload⟩
  rw [shortlist]
  split
  · exact ⟨_,hcandidate,assess_names.1,rfl⟩
  · rename_i refresh _
    obtain ⟨hroute,-,hcapacity⟩ := refreshed_names sel req now view refresh (assess sel view routeId req now)
    exact ⟨_,List.mem_map_of_mem hcandidate,hroute.trans assess_names.1,hcapacity⟩

variable {cs : List Assessment}

theorem mem_probeOrder : c ∈ probeOrder s cs ↔ c ∈ cs := by
  rw [probeOrder,List.mem_insertionSort,RoundRobin.mem_ordered]

theorem capacity_le_of_probeKey_le (a b : Assessment) (h : probeKey s a ≤ probeKey s b) : a.capacity.order ≤ b.capacity.order :=
  Prod.Lex.monotone_fst _ _ (Prod.Lex.monotone_fst _ _ h)

theorem probeOrder_sorted (cs : List Assessment) : (probeOrder s cs).Pairwise fun a b => probeKey s a ≤ probeKey s b :=
  List.pairwise_insertionSort _ _

structure Vetted (sel : Selector) (s : Surroundings ρ) (req : TaskRequirements) (now : Time) (view : View ρ)
    (routeId : String) : Prop where
  discovered : routeId ∈ catalog sel
  passes : Passes sel view routeId req now
  below : s.load routeId < sel.maxPerRoute
  refreshed : ∀ refresh, s.refresh = some refresh →
    refused sel refresh routeId = none ∧ Passes sel (view.after refresh) routeId req now

theorem vetted_of_kept (hc : c ∈ shortlist sel s req now view) (hkept : c.failedStage = none) :
    Vetted sel s req now view c.routeId ∧ c.health = (healthStatus sel (viewAfterRefresh s view) c.routeId now).1 := by
  obtain ⟨routeId,hmem,hselectable,hload,hroute,hc⟩ := mem_shortlist hc
  rw [hroute]
  have hpassed : (assess sel view routeId req now).failedStage = none :=
    Option.isNone_iff_eq_none.mp (Bool.and_eq_true_iff.mp hselectable).1
  have hassessed := assess_passes hpassed
  rcases hc with ⟨hnone,rfl⟩ | ⟨refresh,hs,rfl⟩
  · refine ⟨⟨hmem,hassessed.passes,hload,fun refresh hs => (nomatch hnone.symm.trans hs)⟩,?_⟩
    rw [viewAfterRefresh,hnone]
    exact hassessed.health
  · obtain ⟨hrefused,hagain,hhealth⟩ := refreshed_kept hkept
    rw [assess_names.1] at hrefused hagain hhealth
    have hrechecked := assess_passes hagain
    refine ⟨⟨hmem,hassessed.passes,hload,?_⟩,?_⟩
    · intro other hother
      cases hs.symm.trans hother
      exact ⟨hrefused,hrechecked.passes⟩
    · rw [hhealth,hrechecked.health,viewAfterRefresh,hs]
      rfl

def beginning (s : Surroundings ρ) (view : View ρ) : Progress ρ := {view := viewAfterRefresh s view}

structure SoundChoice (sel : Selector) (s : Surroundings ρ) (req : TaskRequirements) (now : Time) (view : View ρ)
    (a : Assessment) : Prop where
  vetted : Vetted sel s req now view a.routeId
  launchable : ∀ admitted, (select sel s req now view).progress.view.admitted = some admitted →
    admitted.launchable sel.ladder.ops a.routeId = true
  proven : (healthStatus sel (viewAfterRefresh s view) a.routeId now).1 = .healthy ∧ (s.turn a.routeId).passport.stale now = false
    ∨ ∃ result : HealthResult, (a.routeId,result) ∈ (select sel s req now view).progress.probes ∧ result.healthy = true
  cheapest : ∀ routeId ∈ catalog sel, (assess sel view routeId req now).capacity.order < a.capacity.order →
    (assess sel view routeId req now).selectable = false ∨ sel.maxPerRoute ≤ s.load routeId
      ∨ ∃ front c back, c.routeId = routeId ∧ probeOrder s (shortlist sel s req now view) = front ++ c :: back
        ∧ PassedOver sel s now (shortlist sel s req now view) (advance sel s now (beginning s view) front) c

theorem passedOver_of_front {early late front : List Assessment} {d : Assessment}
    (hsub : ∀ x, x ∈ front → x ∈ cs) (hsplit : front = early ++ d :: late)
    (hskipped : ∃ d', (visit sel s now (advance sel s now (beginning s view) early) d).2 = .skipped d') :
    PassedOver sel s now cs (advance sel s now (beginning s view) early) d := by
  subst hsplit
  have hearly : early ⊆ cs := fun x hx => hsub x (List.mem_append_left _ hx)
  obtain ⟨d',hd⟩ := hskipped
  have hvisited := visit_visited sel s now (advance sel s now (beginning s view) early) d
  rw [hd] at hvisited
  exact ((Probing.started cs (viewAfterRefresh s view)).advance hearly).passedOver hvisited

/-- Where the chosen candidate stands in the probe order, and what it has passed on its way. -/
structure Place (sel : Selector) (s : Surroundings ρ) (req : TaskRequirements) (now : Time) (view : View ρ) (a : Assessment)
    (front : List Assessment) (c : Assessment) (back : List Assessment) : Prop where
  split : probeOrder s (shortlist sel s req now view) = front ++ c :: back
  proven : Proven sel s now (advance sel s now (beginning s view) front) c (select sel s req now view).progress a
  vetted : Vetted sel s req now view a.routeId
  health : c.health = (healthStatus sel (viewAfterRefresh s view) a.routeId now).1
  skipped : ∀ early d late, front = early ++ d :: late →
    ∃ d', (visit sel s now (advance sel s now (beginning s view) early) d).2 = .skipped d'

theorem chosen_place (h : (select sel s req now view).outcome = .chosen a) :
    ∃ front c back, Place sel s req now view a front c back := by
  obtain ⟨front,c,back,hsplit,hvisit,hskipped⟩ := probeLoop_chosen h
  have hvisited := visit_visited sel s now (advance sel s now (beginning s view) front) c
  rw [beginning,hvisit] at hvisited
  have hproven := hvisited.proven
  have hmem : c ∈ shortlist sel s req now view :=
    mem_probeOrder.mp (hsplit ▸ List.mem_append_right _ List.mem_cons_self)
  obtain ⟨hvetted,hhealth⟩ := vetted_of_kept hmem hproven.kept
  rw [← hproven.routeId] at hvetted hhealth
  exact ⟨front,c,back,hsplit,hproven,hvetted,hhealth,hskipped⟩

/-- A selection is sound: the route it returns has passed every stage twice and is proven, every
cheaper candidate is passed over for a reason, and the probes stay within the budget. -/
theorem select_sound (sel : Selector) (s : Surroundings ρ) (req : TaskRequirements) (now : Time) (view : View ρ) :
    (∀ a, (select sel s req now view).outcome = .chosen a → SoundChoice sel s req now view a)
      ∧ ((select sel s req now view).progress.probes.length : ℤ) ≤ max 0 sel.maxProbes := by
  have hprobing : Probing sel (probeOrder s (shortlist sel s req now view)) (select sel s req now view).progress :=
    (Probing.started _ (viewAfterRefresh s view)).loop (List.Subset.refl _)
  refine ⟨fun a ha => ?_,hprobing.bounded⟩
  obtain ⟨front,c,back,hplace⟩ := chosen_place ha
  have hproven := hplace.proven
  refine ⟨hplace.vetted,?_,?_,?_⟩
  · rw [hproven.routeId]
    exact hproven.launchable
  · have hhealth := hplace.health
    rw [hproven.routeId] at hhealth ⊢
    refine hproven.proven.imp (fun hready => ?_) id
    simp only [needsProbe,Bool.or_eq_false_iff,decide_eq_false_iff_not,not_not] at hready
    exact ⟨hhealth ▸ hready.1.1,hready.2⟩
  · intro routeId hmem hlt
    cases hselectable : (assess sel view routeId req now).selectable with
    | false => exact .inl rfl
    | true =>
      by_cases hload : s.load routeId < sel.maxPerRoute
      · obtain ⟨d,hd,hroute,hcapacity⟩ := shortlisted hmem hselectable hload
        have hcheaper : d.capacity.order < c.capacity.order := by rw [hcapacity,← hproven.capacity]; exact hlt
        have hfront : d ∈ front := RoundRobin.mem_front_of_sorted capacity_le_of_probeKey_le (probeOrder_sorted _) hplace.split
          (mem_probeOrder.mpr hd) hcheaper
        obtain ⟨early,late,hsides⟩ := List.append_of_mem hfront
        refine .inr (.inr ⟨early,d,late ++ c :: back,hroute,?_,?_⟩)
        · rw [hplace.split,hsides,List.append_assoc,List.cons_append]
        · have hsub : ∀ x, x ∈ front → x ∈ shortlist sel s req now view :=
            fun x hx => mem_probeOrder.mp (hplace.split ▸ List.mem_append_left _ hx)
          exact passedOver_of_front hsub hsides (hplace.skipped early d late hsides)
      · exact .inr (.inl (not_lt.mp hload))

end Soundness
end Verdict.Eligibility

import Mathlib.Algebra.Group.Int.Defs
import Mathlib.Data.Int.Order.Basic
import Verdict.Basics.Dict
import Verdict.Contracts.Path

/-! # Health entries and the probe recorders

Timestamps are microseconds since the epoch (the resolution of `datetime`), and so are durations.
The recorders are stated on the entry a route had before; what the later results need of all of
them is that the time of the last known failure never moves back (`recordEntry_lastFailure` and
its companions).
-/
namespace Verdict.HealthCache

abbrev Time := ℤ

def seconds (n : ℤ) : ℤ := n * 1000000

inductive Category
  | ok | rateLimited | timeout | upstream | authentication | paymentRequired | permission
  | notFound | gone | catalogStale | modelMismatch
  | other (text : String)
  deriving DecidableEq

def Category.text : Category → String
  | .ok => "ok" | .rateLimited => "rate_limited" | .timeout => "timeout" | .upstream => "upstream"
  | .authentication => "authentication" | .paymentRequired => "payment_required" | .permission => "permission"
  | .notFound => "not_found" | .gone => "gone" | .catalogStale => "catalog_stale"
  | .modelMismatch => "model_mismatch" | .other text => text

inductive ProbeClass
  | agentic | singleCall
  deriving DecidableEq

inductive RouteState
  | fresh | stale | negative | unprobed
  deriving DecidableEq

inductive HealthCacheError
  | emptyRoute
  | negativeTtl
  | backoffOverflow

def usableStaleGrace : ℤ := seconds 1200
def permitProofMaxValidity : ℤ := seconds 600
def rateLimitBackoff : ℤ := seconds 60
def transientBase : ℤ := seconds 60
def transientCap : ℤ := seconds 900
def longBase : ℤ := seconds 21600
def longCap : ℤ := seconds 86400
def passiveClockSkew : ℤ := seconds 60

/-- `EVIDENCE_FRESH_SECONDS`, read from the environment and clamped to one minute
up to two days. -/
structure EvidenceFresh where
  span : ℤ := seconds 21600
  lower : seconds 60 ≤ span := by decide
  upper : span ≤ seconds 172800 := by decide

def EvidenceFresh.usable (fresh : EvidenceFresh) : ℤ := fresh.span + usableStaleGrace

def isLongNegative (category : Category) (httpStatus : Option ℕ) : Bool :=
  httpStatus ∈ [some 401,some 402,some 403,some 404,some 410] ∨
    category ∈ [.authentication,.paymentRequired,.permission,.notFound,.gone,.catalogStale]

/-- The power of two is converted to a float, which holds at most 2^1023. -/
def capped (base : ℤ) (failures : ℕ) (cap : ℤ) : Except HealthCacheError ℤ :=
  if 1024 ≤ failures - 1 then .error .backoffOverflow else .ok (min cap (base * 2 ^ (failures - 1)))

def negativeSeconds (category : Category) (httpStatus : Option ℕ) (retryAfter : Option ℤ)
    (consecutiveFailures : ℕ) : Except HealthCacheError ℤ :=
  let failures := max 1 consecutiveFailures
  if category = .rateLimited ∨ httpStatus = some 429 then
    match retryAfter with
    | some r => if 0 < r then .ok r else .ok rateLimitBackoff
    | none => .ok rateLimitBackoff
  else if isLongNegative category httpStatus then capped longBase failures longCap
  else capped transientBase failures transientCap

structure Feedback where
  source : Option String := none
  category : Option String := none
  turnCount : Option ℕ := none
  turnsSource : Option String := none
  provenance : Option String := none
  deriving DecidableEq

structure HealthEntry where
  routeId : String
  category : Category
  (checkedAt untilAt : Time)
  consecutiveFailures : ℕ
  (chatOk toolOk : Bool)
  latencyMs : Option ℕ := none
  pool : Option String := none
  capacityEvidence : Option String := none
  httpStatus : Option ℕ := none
  healthy : Bool := false
  identity : String := ""
  probeClass : ProbeClass := .singleCall
  agenticOk : Bool := false
  agenticCheckedAt : Option Time := none
  lastSuccessAt : Option Time := none
  lastFailureAt : Option Time := none
  failureScope : Option String := none
  sessionAgenticOk : Option Bool := none
  sessionAgenticAt : Option Time := none
  agenticSource : Option String := none
  agenticChildId : Option String := none
  writeRevision : ℕ := 0
  feedback : Feedback := {}
  evidenceSource : Option String := none
  deriving DecidableEq

structure ProbeResult where
  category : Category
  (chatOk toolOk : Bool)
  latencyMs : Option ℕ := none
  httpStatus : Option ℕ := none
  retryAfter : Option ℤ := none
  pool : Option String := none
  capacityEvidence : Option String := none
  identity : String := ""
  probeClass : ProbeClass := .singleCall
  agenticOk : Bool := false
  lastSuccessAt : Option Time := none
  failureScope : Option String := none
  negativeTtl : Option ℤ := none
  feedback : Feedback := {}

def ProbeResult.healthy (r : ProbeResult) : Bool := r.chatOk && r.toolOk && r.category = .ok

def classifyState (fresh : EvidenceFresh) (healthy : Bool) (checkedAt untilAt now : Time) : RouteState :=
  if healthy then
    if now < checkedAt + fresh.span then .fresh
    else if now < checkedAt + fresh.usable then .stale
    else .unprobed
  else if now < untilAt then .negative
  else .unprobed

def HealthEntry.stateAt (fresh : EvidenceFresh) (e : HealthEntry) (now : Time) : RouteState :=
  classifyState fresh e.healthy e.checkedAt e.untilAt now

/-- `last_failure_at or (checked_at if not healthy else None)`. -/
def HealthEntry.lastFailure (e : HealthEntry) : Option Time :=
  match e.lastFailureAt with
  | some t => some t
  | none => if e.healthy then none else some e.checkedAt

def previousFailure (previous : Option HealthEntry) : Option Time := previous.bind HealthEntry.lastFailure

def failureSpan (result : ProbeResult) (failures : ℕ) : Except HealthCacheError ℤ :=
  match result.negativeTtl with
  | some ttl => if ttl ≤ 0 then .error .negativeTtl else .ok (min ttl longCap)
  | none => negativeSeconds result.category result.httpStatus result.retryAfter failures

def preserveAgentic (previous : Option HealthEntry) (result : ProbeResult) (current : Time) : Bool :=
  match previous with
  | none => false
  | some p => match p.agenticCheckedAt with
    | none => false
    | some at_ => p.agenticOk && decide (at_ < current) && !result.chatOk && !result.toolOk &&
        result.category ∈ [Category.timeout,.upstream,.rateLimited,.authentication,.paymentRequired,.permission]

/-- `probe_class`, `agentic_ok` and `agentic_checked_at` of the new entry. -/
def agenticFields (previous : Option HealthEntry) (result : ProbeResult) (current : Time) :
    ProbeClass × Bool × Option Time :=
  let own := (result.probeClass,result.agenticOk,if result.probeClass = .agentic then some current else none)
  match previous with
  | none => own
  | some p =>
    let carried := if p.agenticOk ∧ result.probeClass = .singleCall then
      (.agentic,true,p.agenticCheckedAt) else own
    if preserveAgentic previous result current then (p.probeClass,p.agenticOk,p.agenticCheckedAt) else carried

def revokeSession (result : ProbeResult) (current : Time) (entry : HealthEntry) : HealthEntry :=
  match entry.sessionAgenticAt with
  | none => entry
  | some at_ =>
    if result.probeClass = .agentic ∧ result.chatOk ∧ ¬ result.agenticOk ∧ at_ ≤ current then
      { entry with
        sessionAgenticOk := some false
        sessionAgenticAt := some current
        agenticSource := some "agentic_probe"
        agenticChildId := none }
    else entry

def successEntry (route : String) (result : ProbeResult) (usable : ℤ) (agentic : ProbeClass × Bool × Option Time)
    (current : Time) : HealthEntry where
  routeId := route
  category := .ok
  checkedAt := current
  untilAt := current + usable
  consecutiveFailures := 0
  chatOk := true
  toolOk := true
  latencyMs := result.latencyMs
  pool := result.pool
  capacityEvidence := result.capacityEvidence
  httpStatus := result.httpStatus
  healthy := true
  identity := result.identity
  probeClass := agentic.1
  agenticOk := agentic.2.1
  agenticCheckedAt := agentic.2.2
  lastSuccessAt := some current

def failureEntry (route : String) (previous : Option HealthEntry) (result : ProbeResult) (span : ℤ)
    (agentic : ProbeClass × Bool × Option Time) (current : Time) : HealthEntry where
  routeId := route
  category := result.category
  checkedAt := current
  untilAt := current + span
  consecutiveFailures := (previous.elim 0 HealthEntry.consecutiveFailures) + 1
  chatOk := result.chatOk
  toolOk := result.toolOk
  latencyMs := result.latencyMs
  pool := result.pool.orElse fun _ => previous.bind HealthEntry.pool
  capacityEvidence := result.capacityEvidence
  httpStatus := result.httpStatus
  healthy := false
  identity := result.identity
  probeClass := agentic.1
  agenticOk := if preserveAgentic previous result current then agentic.2.1 else false
  agenticCheckedAt := agentic.2.2.orElse fun _ => previous.bind HealthEntry.agenticCheckedAt
  lastSuccessAt := result.lastSuccessAt.orElse fun _ => previous.bind HealthEntry.lastSuccessAt
  failureScope := result.failureScope
  feedback := result.feedback

def carryOver (previous : Option HealthEntry) (lastFailureAt : Option Time) (entry : HealthEntry) : HealthEntry :=
  { entry with
    lastFailureAt := lastFailureAt
    writeRevision := previous.elim 0 HealthEntry.writeRevision
    agenticSource := previous.bind HealthEntry.agenticSource
    agenticChildId := previous.bind HealthEntry.agenticChildId
    sessionAgenticOk := previous.bind HealthEntry.sessionAgenticOk
    sessionAgenticAt := previous.bind HealthEntry.sessionAgenticAt }

/-- `HealthCache.record`, on the entry the route had before. -/
def recordEntry (fresh : EvidenceFresh) (route : String) (previous : Option HealthEntry) (result : ProbeResult)
    (current : Time) : Except HealthCacheError HealthEntry :=
  let agentic := agenticFields previous result current
  if Path.strip route.toList = [] then .error .emptyRoute
  else if result.healthy then
    .ok (revokeSession result current
      (carryOver previous (previousFailure previous) (successEntry route result fresh.usable agentic current)))
  else match failureSpan result (previous.elim 0 HealthEntry.consecutiveFailures + 1) with
    | .error e => .error e
    | .ok span =>
      let failedAt := match previousFailure previous with
        | some t => max current t
        | none => current
      .ok (revokeSession result current
        (carryOver previous (some failedAt) (failureEntry route previous result span agentic current)))

/-- `HealthCache.record_liveness`: chat-only success. -/
def livenessEntry (fresh : EvidenceFresh) (route : String) (previous : Option HealthEntry) (latencyMs : Option ℕ)
    (pool capacityEvidence : Option String) (identity : String) (current : Time) :
    Except HealthCacheError HealthEntry :=
  if Path.strip route.toList = [] then .error .emptyRoute
  else .ok {
    routeId := route
    category := .ok
    lastFailureAt := previousFailure previous
    checkedAt := current
    untilAt := current + fresh.usable
    consecutiveFailures := 0
    chatOk := true
    toolOk := false
    latencyMs := latencyMs
    pool := pool
    capacityEvidence := capacityEvidence
    httpStatus := some 200
    healthy := true
    identity := identity
    lastSuccessAt := some current
    sessionAgenticOk := previous.bind HealthEntry.sessionAgenticOk
    sessionAgenticAt := previous.bind HealthEntry.sessionAgenticAt
    probeClass := previous.elim .singleCall HealthEntry.probeClass
    agenticOk := previous.elim false HealthEntry.agenticOk
    agenticCheckedAt := previous.bind HealthEntry.agenticCheckedAt
    agenticSource := previous.bind HealthEntry.agenticSource
    agenticChildId := previous.bind HealthEntry.agenticChildId
    writeRevision := previous.elim 0 HealthEntry.writeRevision }

def skipTraffic (fresh : EvidenceFresh) (previous : Option HealthEntry) (observed current : Time) : Bool :=
  match previous with
  | none => false
  | some p => decide (observed ≤ p.checkedAt) || p.stateAt fresh current = .negative ||
      (p.healthy && p.toolOk && p.stateAt fresh current ∈ [RouteState.fresh,.stale])

/-- `record_passive_traffic` either skips the observation or stores a liveness entry. -/
def passiveTrafficEntry (fresh : EvidenceFresh) (route : String) (previous : Option HealthEntry)
    (observed current : Time) (source : String) (latencyMs : Option ℕ) (pool capacityEvidence : Option String) :
    Except HealthCacheError (Option HealthEntry) :=
  if current + passiveClockSkew < observed ∨ fresh.usable ≤ current - observed then .ok none
  else if skipTraffic fresh previous observed current then .ok none
  else match livenessEntry fresh route previous latencyMs (pool.orElse fun _ => previous.bind HealthEntry.pool)
      capacityEvidence "" observed with
    | .error e => .error e
    | .ok entry => .ok (some {entry with evidenceSource := some source})

def skipFailure (previous : Option HealthEntry) (observed : Time) : Bool :=
  match previous with
  | none => false
  | some p => decide (observed ≤ p.checkedAt)

/-- `record_passive_failure` skips an observation that is not newer or already over. -/
def passiveFailureEntry (fresh : EvidenceFresh) (route : String) (previous : Option HealthEntry)
    (observed current : Time) (httpStatus : Option ℕ) (category : Category) (source : String) :
    Except HealthCacheError (Option HealthEntry) :=
  if current + passiveClockSkew < observed then .ok none
  else if skipFailure previous observed then .ok none
  else match recordEntry fresh route previous
      { category := category, chatOk := false, toolOk := false, httpStatus := httpStatus,
        failureScope := some "route" } observed with
    | .error e => .error e
    | .ok entry =>
      if entry.stateAt fresh current ≠ .negative then .ok none
      else .ok (some {entry with evidenceSource := some source})

def agenticStale (p : HealthEntry) (passed : Bool) (current : Time) : Bool :=
  let priorOk := if p.sessionAgenticAt.isSome then p.sessionAgenticOk else some p.agenticOk
  match p.sessionAgenticAt.orElse (fun _ => p.agenticCheckedAt) with
  | none => false
  | some priorAt => decide (current < priorAt) || (decide (current = priorAt) && (passed || priorOk != some true))

/-- `record_agentic_evidence`: exact-route qualification, never liveness. -/
def agenticEvidenceEntry (route : String) (previous : Option HealthEntry) (passed : Bool) (current : Time)
    (source : String) (childId : Option String) : Option HealthEntry :=
  let stored := fun base : HealthEntry => { base with
    probeClass := .agentic
    agenticOk := passed
    agenticCheckedAt := some current
    agenticSource := some source
    agenticChildId := childId
    sessionAgenticOk := some passed
    sessionAgenticAt := some current }
  match previous with
  | none => some (stored {
      routeId := route, category := .other "session_evidence", checkedAt := current, untilAt := current
      consecutiveFailures := 0, chatOk := false, toolOk := false })
  | some p => if agenticStale p passed current then none else some (stored p)

/-- A failure at or after `t` is known for the route. -/
def HealthEntry.FailedSince (t : Time) (e : HealthEntry) : Prop := ∃ x, e.lastFailure = some x ∧ t ≤ x

structure Follows (previous : Option HealthEntry) (e : HealthEntry) : Prop where
  failures : ∀ p, previous = some p → ∀ t, p.FailedSince t → e.FailedSince t
  revision : e.writeRevision = previous.elim 0 HealthEntry.writeRevision

theorem revokeSession_lastFailure (result : ProbeResult) (current : Time) (e : HealthEntry) :
    (revokeSession result current e).lastFailure = e.lastFailure := by
  unfold revokeSession
  split
  · rfl
  · split <;> rfl

theorem revokeSession_writeRevision (result : ProbeResult) (current : Time) (e : HealthEntry) :
    (revokeSession result current e).writeRevision = e.writeRevision := by
  unfold revokeSession
  split
  · rfl
  · split <;> rfl

variable {e : HealthEntry}

theorem lastFailure_of_lastFailureAt {x : Time} (h : e.lastFailureAt = some x) :
    e.lastFailure = some x := by
  simp only [HealthEntry.lastFailure,h]

variable {fresh : EvidenceFresh} {route : String} {previous : Option HealthEntry} {result : ProbeResult} {current : Time}

theorem recordEntry_failed (h : recordEntry fresh route previous result current = .ok e) (hf : result.healthy = false) :
    e.FailedSince current := by
  simp only [recordEntry,hf,Bool.false_eq_true,if_false] at h
  split at h
  · cases h
  · split at h
    · cases h
    · cases h
      simp only [HealthEntry.FailedSince,revokeSession_lastFailure]
      refine ⟨_,lastFailure_of_lastFailureAt rfl,?_⟩
      cases previousFailure previous with
      | none => exact le_rfl
      | some t => exact le_max_left _ _

theorem recordEntry_follows (h : recordEntry fresh route previous result current = .ok e) : Follows previous e := by
  simp only [recordEntry] at h
  split at h
  · cases h
  · split at h
    · cases h
      refine ⟨fun p hp t ht => ?_,revokeSession_writeRevision _ _ _⟩
      obtain ⟨x,hx,htx⟩ := ht
      refine ⟨x,?_,htx⟩
      rw [revokeSession_lastFailure]
      exact lastFailure_of_lastFailureAt (by simp [carryOver,previousFailure,hp,hx])
    · split at h
      · cases h
      · cases h
        refine ⟨fun p hp t ht => ?_,revokeSession_writeRevision _ _ _⟩
        obtain ⟨x,hx,htx⟩ := ht
        refine ⟨max current x,?_,le_trans htx (le_max_right _ _)⟩
        rw [revokeSession_lastFailure]
        exact lastFailure_of_lastFailureAt (by simp [carryOver,previousFailure,hp,hx])

variable {latencyMs : Option ℕ} {pool capacityEvidence : Option String}

theorem livenessEntry_follows {identity : String}

    (h : livenessEntry fresh route previous latencyMs pool capacityEvidence identity current = .ok e) :
    Follows previous e := by
  simp only [livenessEntry] at h
  split at h
  · cases h
  · cases h
    refine ⟨fun p hp t ht => ?_,rfl⟩
    obtain ⟨x,hx,htx⟩ := ht
    exact ⟨x,lastFailure_of_lastFailureAt (by simp [previousFailure,hp,hx]),htx⟩

theorem Follows.withSource (h : Follows previous e)
    (source : Option String) : Follows previous {e with evidenceSource := source} :=
  ⟨h.failures,h.revision⟩

variable {observed : Time} {source : String}

theorem passiveTrafficEntry_follows (h : passiveTrafficEntry fresh route previous observed current source latencyMs pool capacityEvidence
      = .ok (some e)) : Follows previous e := by
  unfold passiveTrafficEntry at h
  split at h
  · cases h
  · split at h
    · cases h
    · split at h
      · cases h
      · rename_i hlive
        cases h
        exact (livenessEntry_follows hlive).withSource _

theorem passiveFailureEntry_follows {httpStatus : Option ℕ} {category : Category}
    (h : passiveFailureEntry fresh route previous observed current httpStatus category source = .ok (some e)) :
    Follows previous e := by
  unfold passiveFailureEntry at h
  split at h
  · cases h
  · split at h
    · cases h
    · split at h
      · cases h
      · rename_i hrec
        split at h
        · cases h
        · cases h
          exact (recordEntry_follows hrec).withSource _

theorem agenticEvidenceEntry_follows {passed : Bool}
    {childId : Option String}
    (h : agenticEvidenceEntry route previous passed current source childId = some e) : Follows previous e := by
  cases previous with
  | none =>
    cases h
    exact ⟨by simp,rfl⟩
  | some p =>
    have hstored : e.lastFailure = p.lastFailure ∧ e.writeRevision = p.writeRevision := by
      simp only [agenticEvidenceEntry] at h
      split at h
      · cases h
      · cases h
        exact ⟨rfl,rfl⟩
    refine ⟨fun q hq t ht => ?_,hstored.2⟩
    cases hq
    simpa only [HealthEntry.FailedSince,hstored.1] using ht

end Verdict.HealthCache

import Verdict.Eligibility.TaskGate

/-! # The assessment of one route

`_assess` walks the stages of the ladder in their order and stops at the first that drops the
route: admission, an active account, the worker harness, health, cooldowns and windows, quota,
the task gate, capability. A route that passes all of them may still be unprobed or stale.
-/
namespace Verdict.Eligibility
open HealthCache (Time Sections HealthEntry AgenticCapability agenticCapability seconds)
open Admission (Connection AdmittedSet AdmissionStage quotaRemaining)
open Catalog (segments poolOf resolveProvider)

inductive EligibilityStage
  | discovered | entitled | healthy | available | taskEligible | selected

inductive Health
  | healthy | unhealthy | unprobed | stale
  deriving DecidableEq

/-- What `rating_key` makes of a rating: kind, negated score, declared tier. -/
structure RatingKey where
  rank : ℕ := 3
  negScore : ℚ := 0
  declared : ℕ := 0

structure Assessment where
  (routeId provider : String)
  capacity : CapacityClass
  planLabel : String
  failedStage : Option EligibilityStage := none
  reason : String := ""
  cooldownUntil : Option String := none
  health : Health := .unprobed
  healthCategory : String := ""
  fit : ℕ := 0
  tier : ℤ := 2
  tierKnown : Bool := false
  slack : ℤ := 0
  price : ℚ := 0
  priceKnown : Bool := false
  contextWindow : Option ℤ := none
  supportsTools : Option Bool := none
  supportsStructuredOutput : Option Bool := none
  (pool capacityEvidence : String)
  cooldownScope : String := ""
  agentic : AgenticCapability
  quotaPercent : Option ℚ := none
  rating : Option RatingKey := none
  evidenceLevel : Option String := none

/-- What a ladder is built with beside its rows and connections. `classify` and `classifyKnown`
read account evidence and model names, `rating` the metadata store, `quotaResetAt` a field of a
connection that admission does not read. -/
structure Selector where
  ladder : LadderConfig
  details : String → RowDetails := fun _ => {}
  capabilityTtl : ℤ := seconds 604800
  healthyTtl : ℤ := seconds 300
  classify : Option Connection → String → CapacityClass × String × String
  classifyKnown : String → Option ℤ := fun _ => none
  /-- Which routes the harness can spawn, and whether its inventory could be read. -/
  harnessVisible : Option (Bool × (String → Bool)) := none
  quotaResetAt : Connection → Option Time := fun _ => none
  minQuotaPercent : ℚ := 5
  rating : TaskRequirements → String → Time → RatingKey := fun _ _ _ => {}
  preferProviders : List String := ["claude"]
  maxPerRoute : ℤ := 2
  maxProbes : ℤ := 8

structure Drop where
  stage : EligibilityStage
  reason : String
  until_ : Option String := none
  scope : String := ""

def Assessment.drop (a : Assessment) (d : Drop) : Assessment :=
  {a with failedStage := some d.stage, reason := d.reason, cooldownUntil := d.until_, cooldownScope := d.scope}

def codingMarkers : List String := ["code","codex","sonnet","fable","opus"]

/-- `_ADMISSION_TO_LADDER`. -/
def ladderStage : Option AdmissionStage → EligibilityStage
  | some .discovered => .discovered | some .entitled => .entitled | some .healthy => .healthy
  | some .available => .available | _ => .taskEligible

section Assess
variable {ρ : Type} (sel : Selector) (view : View ρ) (routeId : String) (req : TaskRequirements) (now : Time)

def lowered (text : String) : String := sel.ladder.ops.lower text

variable (provider : String)

def connectionsOf : List Connection :=
  sel.ladder.connections.filter fun c => lowered sel c.provider = lowered sel provider

/-- The first active connection of a provider, else its first one. -/
def connectionFor : Option Connection :=
  ((connectionsOf sel provider).find? Connection.isActive).or (connectionsOf sel provider).head?

/-- The provider and the connection that back a route; `owned_by` itself stands in when its alias
has no connection. -/
def accountOf : String × Option Connection :=
  let provider := providerOf sel.ladder routeId
  let raw := lowered sel ((sel.ladder.rows.get? routeId).elim "" Admission.InventoryRow.ownedBy)
  match connectionFor sel provider with
  | some conn => (provider,some conn)
  | none =>
    if raw ≠ "" ∧ raw ≠ provider then
      match connectionFor sel raw with
      | some conn => (raw,some conn)
      | none => (provider,none)
    else (provider,none)

def cachedEntry : Option HealthEntry := view.cache.bind fun cache => cache.routes.get? routeId

/-- `billing_capacity_override`. -/
def billed : Bool :=
  (cachedEntry view routeId).any (fun e =>
    !e.healthy && e.capacityEvidence = some "billing_402_metered" && decide (now < e.untilAt))

variable (conn : Option Connection)

def capacityClass : CapacityClass × String × String :=
  if billed view routeId now then (.metered,"","billing_402_metered") else sel.classify conn routeId

/-- `proven_healthy` of the attached admitted set, if any. -/
def provenHealthy : Bool :=
  view.admitted.any fun s => (s.recordFor sel.ladder.ops routeId).any fun r => r.admitted && decide (r.health = .healthy)

def remembered (expired : Option HealthEntry) : Health × String :=
  match view.memory.health.get? routeId with
  | none => (.unprobed,expired.elim "" (fun e => e.category.text))
  | some row =>
    if expired.any (fun e => !row.healthy || decide (row.checkedAt ≤ e.checkedAt)) then
      (.unprobed,expired.elim "" (fun e => e.category.text))
    else if sel.healthyTtl < now - row.checkedAt then (.stale,row.category)
    else if row.healthy then (.healthy,"")
    else (.unhealthy,row.category)

def healthStatus : Health × String :=
  match cachedEntry view routeId with
  | some entry =>
    if entry.healthy then
      if entry.stateAt sel.ladder.fresh now = .fresh ∨ provenHealthy sel view routeId then (.healthy,"")
      else remembered sel view routeId now none
    else if entry.stateAt sel.ladder.fresh now = .negative then (.unhealthy,entry.category.text)
    else if provenHealthy sel view routeId then (.healthy,"")
    else remembered sel view routeId now (some entry)
  | none => if provenHealthy sel view routeId then (.healthy,"") else remembered sel view routeId now none

/-- `_active_cooldown`, in this view. -/
def cooldownUntil (key : String) (route : Option String) : Option Time :=
  activeCooldown sel.ladder view.memory.cooldowns view.cache key now route

/-- The last window of the connection that is open for the route. -/
def rateLimitedUntil (conn : Connection) : Option Time :=
  ((conn.rateLimitedUntil.entries.filter fun e => !e.1.toList.contains '/' || e.1 = routeId).filterMap
    (fun e => (sel.ladder.ops.parseIso e.2).filter (now < ·))).max?

def measured : List ℚ :=
  ((connectionsOf sel provider).filter Connection.isActive).filterMap fun c => quotaRemaining c routeId

def admissionDrop : Option Drop :=
  match view.admitted with
  | none => none
  | some admitted =>
    if admitted.contains sel.ladder.ops routeId then none
    else match admitted.recordFor sel.ladder.ops routeId with
      | some record => some ⟨ladderStage record.firstFailedStage,"admission:" ++ record.reason,record.untilAt,""⟩
      | none => some ⟨.discovered,"admission:absent_from_live_inventory",none,""⟩

def accountDrop : Option Drop :=
  if conn.any Connection.isActive then none else some ⟨.entitled,"no_active_account",none,""⟩

def harnessDrop : Option Drop :=
  match sel.harnessVisible with
  | none => none
  | some (available,visible) =>
    if visible routeId then none
    else some ⟨.entitled,if available then "not_harness_visible" else "harness_inventory_unavailable",none,""⟩

def healthDrop (health : Health × String) : Option Drop :=
  if health.1 = .unhealthy then
    match cooldownUntil sel view now (routeKey routeId) none with
    | some deadline => some ⟨.healthy,health.2,some (sel.ladder.ops.iso deadline),routeKey routeId⟩
    | none => some ⟨.healthy,health.2,none,""⟩
  else none

def cooldownKeys : List (String × String) :=
  [(poolKey sel.ladder routeId,"cooldown:pool"),(routeKey routeId,"cooldown:route"),
   (providerKey provider,"cooldown:provider")]

def cooldownDrop : Option Drop :=
  (cooldownKeys sel routeId provider).findSome? (fun (key,label) =>
    (cooldownUntil sel view now key (some routeId)).map (fun deadline =>
      ⟨.available,label,some (sel.ladder.ops.iso deadline),key⟩))

def windowDrop : Option Drop :=
  (conn.bind (rateLimitedUntil sel routeId now)).map (fun deadline =>
    ⟨.available,"provider_rate_limited",some (sel.ladder.ops.iso deadline),""⟩)

def quotaDrop : Option Drop :=
  match (measured sel routeId provider).max? with
  | none => none
  | some most =>
    if most < sel.minQuotaPercent then
      let resets := ((connectionsOf sel provider).filter Connection.isActive).filterMap sel.quotaResetAt
      some ⟨.available,"quota_low",(resets.min?.filter (now < ·)).map sel.ladder.ops.iso,""⟩
    else none

def capabilityTier : Option ℤ :=
  (((sel.details routeId).capabilityTier).filter fun tier => decide (0 ≤ tier ∧ tier ≤ 3)).or (sel.classifyKnown routeId)

def tierDrop : Option Drop :=
  match capabilityTier sel routeId with
  | none => if req.maxCapabilityTier < 3 then some ⟨.taskEligible,"unknown_capability",none,""⟩ else none
  | some tier => if req.maxCapabilityTier < tier then some ⟨.taskEligible,"insufficient_capability",none,""⟩ else none

/-- `_capability_facts`. -/
def withFacts (a : Assessment) : Assessment :=
  let row := (sel.ladder.rows.get? routeId).getD {}
  let capabilities := (sel.details routeId).capabilities
  {a with
    contextWindow := (row.maxInputTokens.or row.contextLength).filter (0 < ·)
    supportsTools := capabilities.get? "tool_calling"
    supportsStructuredOutput := capabilities.get? "structured_output"}

def marginalPrice : ℚ × Bool :=
  match (sel.details routeId).pricing with
  | none => (0,false)
  | some pricing =>
    let listed := (["input","output","prompt","completion"].filterMap pricing.get?).filter (0 ≤ ·)
    (listed.sum,!listed.isEmpty)

def fitOf : ℕ :=
  (if req.coding ∧ codingMarkers.any (fun m => decide (m.toList <:+: (lowered sel routeId).toList)) then 2 else 0)
    + (if req.reasoning ∧ ((sel.details routeId).capabilities.get? "reasoning").getD false then 1 else 0)

def ranked (a : Assessment) : Assessment :=
  let tier := capabilityTier sel routeId
  let price := marginalPrice sel routeId
  {a with
    tier := tier.getD 3
    tierKnown := tier.isSome
    slack := tier.elim 4 (req.maxCapabilityTier - ·)
    evidenceLevel := if a.capacity = .free ∧ req.frontierWorthy = false ∧ req.maxCapabilityTier = 3 then some "probation" else none
    price := price.1
    priceKnown := price.2
    fit := fitOf sel routeId req
    rating := some (sel.rating req routeId now)}

def discovered : Assessment :=
  let account := accountOf sel routeId
  let capacity := capacityClass sel view routeId now account.2
  { routeId := routeId
    provider := account.1
    capacity := capacity.1
    planLabel := capacity.2.1
    pool := poolOf sel.ladder.ops.lower routeId
    capacityEvidence := capacity.2.2
    agentic := agenticCapability sel.capabilityTtl (cachedEntry view routeId) now }

def assess : Assessment :=
  let account := accountOf sel routeId
  let a := discovered sel view routeId now
  match admissionDrop sel view routeId <|> accountDrop account.2 <|> harnessDrop sel routeId with
  | some d => a.drop d
  | none =>
    let health := healthStatus sel view routeId now
    let a := {a with health := health.1, healthCategory := health.2}
    match healthDrop sel view routeId now health <|> cooldownDrop sel view routeId now account.1
      <|> windowDrop sel routeId now account.2 with
    | some d => a.drop d
    | none =>
      let a := {a with quotaPercent := (measured sel routeId account.1).min?}
      match quotaDrop sel routeId now account.1 with
      | some d => a.drop d
      | none =>
        let a := withFacts sel routeId a
        match taskGate sel.ladder sel.details sel.capabilityTtl routeId req a.capacity view now with
        | some reason => a.drop ⟨.taskEligible,reason,none,""⟩
        | none =>
          match tierDrop sel routeId req with
          | some d => a.drop d
          | none => ranked sel routeId req now a

structure Passes : Prop where
  admitted : ∀ s, view.admitted = some s → s.contains sel.ladder.ops routeId = true
  entitled : ∃ conn, (accountOf sel routeId).2 = some conn ∧ conn.isActive = true
  visible : ∀ inventory, sel.harnessVisible = some inventory → inventory.2 routeId = true
  sound : (healthStatus sel view routeId now).1 ≠ .unhealthy
  uncooled : ∀ e ∈ cooldownKeys sel routeId (accountOf sel routeId).1, cooldownUntil sel view now e.1 (some routeId) = none
  unthrottled : ∀ conn, (accountOf sel routeId).2 = some conn → rateLimitedUntil sel routeId now conn = none
  quota : ∀ most, (measured sel routeId (accountOf sel routeId).1).max? = some most → sel.minQuotaPercent ≤ most
  task : taskGate sel.ladder sel.details sel.capabilityTtl routeId req (discovered sel view routeId now).capacity view now = none
  capable : ∀ tier, capabilityTier sel routeId = some tier → tier ≤ req.maxCapabilityTier
  known : capabilityTier sel routeId = none → 3 ≤ req.maxCapabilityTier

end Assess

section Stages
variable {ρ : Type} {sel : Selector} {view : View ρ} {routeId : String} {req : TaskRequirements} {now : Time}

theorem admissionDrop_eq_none (h : admissionDrop sel view routeId = none) :
    ∀ s, view.admitted = some s → s.contains sel.ladder.ops routeId = true := by
  intro s hs
  simp only [admissionDrop,hs] at h
  split at h
  · assumption
  · split at h <;> cases h

theorem accountDrop_eq_none {conn : Option Connection} (h : accountDrop conn = none) :
    ∃ c, conn = some c ∧ c.isActive = true := by
  rw [accountDrop] at h
  split at h
  · rename_i hactive
    exact (Option.any_eq_true _ _).mp hactive
  · cases h

theorem harnessDrop_eq_none (h : harnessDrop sel routeId = none) :
    ∀ inventory, sel.harnessVisible = some inventory → inventory.2 routeId = true := by
  rintro ⟨available,visible⟩ hs
  simp only [harnessDrop,hs] at h
  split at h
  · assumption
  · cases h

theorem healthDrop_eq_none {health : Health × String} (h : healthDrop sel view routeId now health = none) :
    health.1 ≠ .unhealthy := by
  intro hsick
  rw [healthDrop,if_pos hsick] at h
  split at h <;> cases h

theorem cooldownDrop_eq_none {provider : String} (h : cooldownDrop sel view routeId now provider = none) :
    ∀ e ∈ cooldownKeys sel routeId provider, cooldownUntil sel view now e.1 (some routeId) = none := by
  intro e he
  exact Option.map_eq_none_iff.mp (List.findSome?_eq_none_iff.mp h e he)

theorem windowDrop_eq_none {conn : Option Connection} (h : windowDrop sel routeId now conn = none) :
    ∀ c, conn = some c → rateLimitedUntil sel routeId now c = none := by
  rintro c rfl
  exact Option.map_eq_none_iff.mp h

theorem quotaDrop_eq_none {provider : String} (h : quotaDrop sel routeId now provider = none) :
    ∀ most, (measured sel routeId provider).max? = some most → sel.minQuotaPercent ≤ most := by
  intro most hmost
  simp only [quotaDrop,hmost] at h
  split at h
  · cases h
  · rename_i hlow
    exact not_lt.mp hlow

theorem tierDrop_eq_none (h : tierDrop sel routeId req = none) :
    (∀ tier, capabilityTier sel routeId = some tier → tier ≤ req.maxCapabilityTier) ∧
    (capabilityTier sel routeId = none → 3 ≤ req.maxCapabilityTier) := by
  rw [tierDrop] at h
  cases htier : capabilityTier sel routeId with
  | none =>
    simp only [htier] at h
    split at h
    · cases h
    · rename_i hlow
      exact ⟨fun _ ht => (nomatch ht),fun _ => not_lt.mp hlow⟩
  | some tier =>
    simp only [htier] at h
    split at h
    · cases h
    · rename_i hlow
      exact ⟨fun _ ht => Option.some.inj ht ▸ not_lt.mp hlow,fun hn => (nomatch hn)⟩

theorem drop_failed (a : Assessment) (d : Drop) : (a.drop d).failedStage ≠ none := nofun

structure Assessed (sel : Selector) (view : View ρ) (routeId : String) (req : TaskRequirements) (now : Time) : Prop where
  passes : Passes sel view routeId req now
  health : (assess sel view routeId req now).health = (healthStatus sel view routeId now).1

theorem assess_passes (h : (assess sel view routeId req now).failedStage = none) : Assessed sel view routeId req now := by
  have hall := h
  simp only [assess] at h
  split at h
  · exact absurd h (drop_failed _ _)
  rename_i hentry
  split at h
  · exact absurd h (drop_failed _ _)
  rename_i havailable
  split at h
  · exact absurd h (drop_failed _ _)
  rename_i hquota
  split at h
  · exact absurd h (drop_failed _ _)
  rename_i hgate
  split at h
  · exact absurd h (drop_failed _ _)
  rename_i htier
  have hhealth : (assess sel view routeId req now).health = (healthStatus sel view routeId now).1 := by
    simp only [assess,hentry,havailable,hquota,hgate,htier]
    rfl
  simp only [Option.orElse_eq_orElse,Option.orElse_eq_or,Option.or_eq_none_iff] at hentry havailable
  obtain ⟨hadmitted,haccount,hharness⟩ := hentry
  obtain ⟨hsound,hcooled,hwindow⟩ := havailable
  obtain ⟨hcapable,hknown⟩ := tierDrop_eq_none htier
  exact ⟨⟨admissionDrop_eq_none hadmitted,accountDrop_eq_none haccount,harnessDrop_eq_none hharness,
    healthDrop_eq_none hsound,cooldownDrop_eq_none hcooled,windowDrop_eq_none hwindow,quotaDrop_eq_none hquota,
    hgate,hcapable,hknown⟩,hhealth⟩

theorem assess_names : (assess sel view routeId req now).routeId = routeId
    ∧ (assess sel view routeId req now).provider = (accountOf sel routeId).1
    ∧ (assess sel view routeId req now).capacity = (discovered sel view routeId now).capacity := by
  simp only [assess]
  split
  · exact ⟨rfl,rfl,rfl⟩
  split
  · exact ⟨rfl,rfl,rfl⟩
  split
  · exact ⟨rfl,rfl,rfl⟩
  split
  · exact ⟨rfl,rfl,rfl⟩
  split <;> exact ⟨rfl,rfl,rfl⟩

end Stages
end Verdict.Eligibility

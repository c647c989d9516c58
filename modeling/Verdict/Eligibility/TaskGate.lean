import Verdict.Admission.AdmittedSet
import Verdict.Eligibility.Ladder
import Verdict.HealthCache.Capability

/-! # The task gate of the ladder

What a task requires is checked route by route: capabilities, context, and the routes, families
and pools that it excludes. An excluded route is dropped by its id, and by its backend pool when
that pool is one of those that several prefixes share. The other spellings of its backend model
are not compared.
-/
namespace Verdict.Eligibility
open HealthCache (Time Sections HealthEntry seconds agenticCapability)
open Admission (InventoryRow Connection startsWith AdmittedSet)
open Catalog (segments poolOf backendPool)

inductive CapacityClass
  | subscription | free | metered | unknown
  deriving DecidableEq

/-- `CAPACITY_ORDER`: the cheapest class first. -/
def CapacityClass.order : CapacityClass → ℕ
  | .free => 0 | .subscription => 1 | .metered => 2 | .unknown => 3

structure TaskRequirements where
  requiredCapabilities : Finset String := {"tools"}
  minContextTokens : ℤ := 32000
  coding : Bool := true
  reasoning : Bool := false
  frontierWorthy : Bool := false
  excludeRoutes : Finset String := ∅
  excludeFamilies : Finset String := ∅
  excludePools : Finset String := ∅
  maxCapabilityTier : ℤ := 3

structure RowDetails where
  /-- The truth of each listed capability. -/
  capabilities : Dict String Bool := .empty
  capabilityTier : Option ℤ := none
  /-- The numeric members of `pricing`, when there is one. -/
  pricing : Option (Dict String ℚ) := none

structure SessionStats where
  (passes fails falseClaims : ℕ)
  score : ℚ

/-- What the ladder sees when it looks at the routes: its own memory, the health cache beside it,
the admitted set and the session evidence by route and window. -/
structure View (ρ : Type) where
  memory : LadderState := {}
  cache : Option (Sections ρ) := none
  admitted : Option AdmittedSet := none
  session : String → ℕ → Option SessionStats := fun _ _ => none

section
variable (lower : String → String)

def familyNames : List String :=
  ["claude","gpt","gemini","grok","qwen","deepseek","glm","kimi","llama","mistral","nemotron","minimax"]

def routeFamily (routeId : String) : String :=
  let tail := (segments (lower routeId)).getLastD ""
  match familyNames.find? (fun family => decide (family.toList <:+: tail.toList)) with
  | some family => family
  | none => String.ofList (tail.toList.takeWhile (· ≠ '-'))

def afterSlash (text : String) : String :=
  if '/' ∈ text.toList then String.ofList ((text.toList.dropWhile (· ≠ '/')).drop 1) else text

/-- Credential pool and model id that a route reaches. -/
def backendModel (routeId : String) : String × String :=
  let inner := if startsWith (lower routeId) "no-think/" then afterSlash routeId else routeId
  (poolOf lower inner,lower (afterSlash inner))

def aliasedPools : List String := (Catalog.poolByPrefix ++ Catalog.freeSuffixPool).map Prod.snd

def aliasedPoolsFor (routeIds : Finset String) : Finset String :=
  (routeIds.image (backendPool lower)).filter (· ∈ aliasedPools)

end

def effortSuffixes : List String := ["-low","-medium","-high","-xhigh","-max","-ultra"]

section
variable {ρ : Type} (cfg : LadderConfig) (details : String → RowDetails) (capabilityTtl : ℤ) (routeId : String)
  (req : TaskRequirements)

/-- `int(row.get("max_input_tokens") or row.get("context_length") or 0)`. -/
def contextOf : ℤ :=
  let row := (cfg.rows.get? routeId).getD {}
  ((row.maxInputTokens.filter (· ≠ 0)).or row.contextLength).getD 0

def lacks (needed : String) : Bool :=
  ((details routeId).capabilities.get? (Admission.Candidate.capabilityKey needed)).getD false = false

local instance sortedTrans : IsTrans String (· ≤ ·) := inferInstance
local instance sortedAntisymm : @Std.Antisymm String (· ≤ ·) := inferInstance
local instance sortedTotal : @Std.Total String (· ≤ ·) := inferInstance

def capabilityGate : Option String :=
  ((req.requiredCapabilities.sort (· ≤ ·)).find? (lacks details routeId)).map ("missing_capability:" ++ ·)

def contextGate : Option String :=
  if contextOf cfg routeId < req.minContextTokens then some "insufficient_context" else none

def exclusionGate : Option String :=
  if poolOf cfg.ops.lower routeId ∈ req.excludePools then some "excluded_pool"
  else if routeId ∈ req.excludeRoutes then some "excluded_route"
  else if routeFamily cfg.ops.lower routeId ∈ req.excludeFamilies then some "excluded_family"
  else if backendPool cfg.ops.lower routeId ∈ req.excludeFamilies then some "excluded_family"
  else if backendPool cfg.ops.lower routeId ∈ aliasedPoolsFor cfg.ops.lower req.excludeRoutes then some "excluded_family"
  else none

def duplicateGate : Option String :=
  if effortSuffixes.any (fun suffix => suffix.toList.isSuffixOf (cfg.ops.lower routeId).toList
      && cfg.rows.contains (String.ofList (routeId.toList.take (routeId.toList.length - suffix.toList.length)))) then
    some "effort_duplicate"
  else none

def sessionGate (session : String → ℕ → Option SessionStats) : Option String :=
  match session routeId 14 with
  | none => none
  | some stats =>
    if stats.passes + stats.fails = 0 then none
    else match session routeId 7 with
      | none => none
      | some recent =>
        if recent.falseClaims ≠ 0 then some "recent_false_claim"
        else if stats.score < 1 / 2 then some "session_evidence_insufficient"
        else none

def agenticGate (capacity : CapacityClass) (view : View ρ) (now : Time) : Option String :=
  if capacity = .free ∧ req.frontierWorthy = false then
    match view.cache with
    | none => some "no_health_cache"
    | some cache =>
      let entry := cache.routes.get? routeId
      let proof := agenticCapability capabilityTtl entry now
      if proof.qualified then sessionGate routeId view.session
      else if entry.isNone ∨ (proof.source = .agenticProbe ∧ entry.all fun e => !e.agenticOk) then some "no_agentic_probe"
      else if proof.source = .sessionEvidence then some "session_capability_expired_or_revoked"
      else some "agentic_probe_stale"
  else none

/-- The reason to drop a route, `none` where the source answers with the empty text. -/
def taskGate (capacity : CapacityClass) (view : View ρ) (now : Time) : Option String :=
  capabilityGate details routeId req <|> contextGate cfg routeId req <|> exclusionGate cfg routeId req
    <|> duplicateGate cfg routeId <|> agenticGate capabilityTtl routeId req capacity view now

end

section
variable {ρ : Type} {cfg : LadderConfig} {details : String → RowDetails} {capabilityTtl : ℤ} {routeId : String}
  {req : TaskRequirements} {capacity : CapacityClass} {view : View ρ} {now : Time}

/-- The route is not named among the excluded ones, and shares no aliased pool with one of them. -/
structure NotExcluded (cfg : LadderConfig) (routeId : String) (req : TaskRequirements) : Prop where
  route : routeId ∉ req.excludeRoutes
  aliased : backendPool cfg.ops.lower routeId ∉ aliasedPoolsFor cfg.ops.lower req.excludeRoutes

structure MeetsTask (cfg : LadderConfig) (details : String → RowDetails) (capabilityTtl : ℤ) (routeId : String)
    (req : TaskRequirements) (capacity : CapacityClass) (view : View ρ) (now : Time) : Prop where
  capable : ∀ needed ∈ req.requiredCapabilities, lacks details routeId needed = false
  context : req.minContextTokens ≤ contextOf cfg routeId
  pool : poolOf cfg.ops.lower routeId ∉ req.excludePools
  family : routeFamily cfg.ops.lower routeId ∉ req.excludeFamilies
  backend : backendPool cfg.ops.lower routeId ∉ req.excludeFamilies
  unique : duplicateGate cfg routeId = none
  qualified : agenticGate capabilityTtl routeId req capacity view now = none

theorem capabilityGate_eq_none : capabilityGate details routeId req = none ↔
    ∀ needed ∈ req.requiredCapabilities, lacks details routeId needed = false := by
  rw [capabilityGate,Option.map_eq_none_iff,List.find?_eq_none]
  simp only [Finset.mem_sort,Bool.not_eq_true]

theorem contextGate_eq_none : contextGate cfg routeId req = none ↔ req.minContextTokens ≤ contextOf cfg routeId := by
  rw [contextGate,ite_eq_right_iff,← not_lt]
  exact forall_congr' fun _ => iff_of_false (fun h => nomatch h) id

theorem exclusionGate_eq_none : exclusionGate cfg routeId req = none ↔ NotExcluded cfg routeId req ∧ poolOf
    cfg.ops.lower routeId ∉ req.excludePools ∧ routeFamily cfg.ops.lower routeId ∉ req.excludeFamilies ∧
    backendPool cfg.ops.lower routeId ∉ req.excludeFamilies := by
  simp only [exclusionGate]
  constructor
  · intro h
    split at h
    · cases h
    split at h
    · cases h
    split at h
    · cases h
    split at h
    · cases h
    split at h
    · cases h
    rename_i hpool hroute hfamily hbackend haliased
    exact ⟨⟨hroute,haliased⟩,hpool,hfamily,hbackend⟩
  · rintro ⟨⟨hroute,haliased⟩,hpool,hfamily,hbackend⟩
    rw [if_neg hpool,if_neg hroute,if_neg hfamily,if_neg hbackend,if_neg haliased]

theorem taskGate_eq_none : taskGate cfg details capabilityTtl routeId req capacity view now = none ↔
    MeetsTask cfg details capabilityTtl routeId req capacity view now ∧ NotExcluded cfg routeId req := by
  simp only [taskGate,Option.orElse_eq_orElse,Option.orElse_eq_or,Option.or_eq_none_iff,capabilityGate_eq_none,
    contextGate_eq_none,exclusionGate_eq_none]
  constructor
  · rintro ⟨hcapable,hcontext,⟨hexcluded,hpool,hfamily,hbackend⟩,hunique,hqualified⟩
    exact ⟨⟨hcapable,hcontext,hpool,hfamily,hbackend,hunique,hqualified⟩,hexcluded⟩
  · rintro ⟨h,hexcluded⟩
    exact ⟨h.capable,h.context,⟨hexcluded,h.pool,h.family,h.backend⟩,h.unique,h.qualified⟩

end
end Verdict.Eligibility

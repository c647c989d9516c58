import Verdict.Admission.Evidence
import Verdict.HealthCache.Store

/-! # The eligibility ladder's state file

One `EligibilityLadder` keeps health rows, cooldowns and not-free overrides in memory and writes
all of it to a file that several processes share. A cooldown sits under the key of a pool, a route
or a provider; `dispatchBlocker` merges the file into memory and asks for the three keys of a
route. The health cache beside the ladder can only add a blocker.
-/
namespace Verdict.Eligibility
open HealthCache (Time Sections EvidenceFresh seconds)
open Admission (TextOps InventoryRow Connection startsWith)
open Catalog (segments poolOf backendPool resolveProvider)

structure CooldownEntry where
  untilAt : Time
  category : String
  deriving DecidableEq

structure HealthRow where
  healthy : Bool
  category : String
  checkedAt : Time

structure NotFreeOverride where
  untilAt : Time
  reason : String
  pool : Option String := none

structure LadderState where
  health : Dict String HealthRow := .empty
  cooldowns : Dict String CooldownEntry := .empty
  notFreeOverrides : Dict String NotFreeOverride := .empty

structure LadderConfig where
  ops : TextOps
  rows : Dict String InventoryRow := .empty
  connections : List Connection := []
  fresh : EvidenceFresh

inductive FailureScope
  | route | provider | none
  deriving DecidableEq

/-- The fields of a `FailureClassification` the ladder reads; a cooldown in microseconds. -/
structure Failure where
  category : String
  cooldownSeconds : ℤ
  scope : FailureScope

structure HealthResult where
  healthy : Bool
  category : String
  statusCode : Option ℕ := none
  retryAfterSeconds : Option ℤ := none
  errorMessage : String := ""

def categoryCooldownSeconds : List (String × ℤ) :=
  [("rate_limited",60),("quota_exhausted",3600),("authentication",3600),("payment_required",3600),
   ("permission",3600),("unsupported",86400),("unservable",21600),("timeout",60),("upstream_temporary",60),
   ("transport_temporary",60),("catalog_stale",21600)]

def defaultCooldownSeconds : ℤ := 60

variable (category : String)

def cooldownSecondsFor (retryAfter : Option ℤ) : ℤ :=
  match retryAfter.filter (0 < ·) with
  | some span => span
  | none => seconds ((categoryCooldownSeconds.lookup category).getD defaultCooldownSeconds)

/-- Failures of the credential rather than of one route. -/
def poolCooldownCategories : List String :=
  ["quota_exhausted","rate_limited","payment_required","permission","authentication"]

def providerScopeCategories : List String := ["payment_required","permission","authentication"]

def notFreeCategories : List String := ["payment_required","insufficient_credits"]

/-- `is_not_free_signal`, as the ladder calls it. -/
def isNotFreeSignal (statusCode : Option ℕ) : Bool :=
  notFreeCategories.contains category || statusCode = some 402

/-- A pool's override is only extended. -/
def recordNotFreeOverride (overrides : Dict String NotFreeOverride) (routeId pool : String) (untilAt : Time)
    (reason : String) : Dict String NotFreeOverride :=
  let withRoute := overrides.set ("route:" ++ routeId) ⟨untilAt,reason,some pool⟩
  if (withRoute.get? ("pool:" ++ pool)).all (·.untilAt < untilAt) then
    withRoute.set ("pool:" ++ pool) ⟨untilAt,reason,none⟩
  else withRoute

section
variable (cfg : LadderConfig)
variable (routeId : String)

def poolKey : String := "pool:" ++ poolOf cfg.ops.lower routeId
def routeKey : String := "route:" ++ routeId
def providerKey (provider : String) : String := "provider:" ++ provider

/-- The provider of a route: its row's resolved `owned_by`, else the head of its id. -/
def providerOf : String :=
  let raw := cfg.ops.lower ((cfg.rows.get? routeId).elim "" InventoryRow.ownedBy)
  let provider := if raw = "" then "" else resolveProvider cfg.ops.lower raw
  if provider = "" then cfg.ops.lower ((segments routeId).headD "") else provider

/-- The keys `dispatch_blocker` asks for, in its order. -/
def dispatchKeys : List String :=
  [poolKey cfg routeId,routeKey routeId,providerKey (providerOf cfg routeId)]

variable (failure : Failure)

/-- The keys one `record_failure` writes, in its order. -/
def failureKeys : List String :=
  (if failure.scope = .none then [] else
    (if failure.scope = .provider ∧ poolCooldownCategories.contains failure.category then [poolKey cfg routeId]
      else []) ++ [routeKey routeId])
  ++ (if failure.scope = .provider ∧ ¬ poolCooldownCategories.contains failure.category then
      [providerKey (providerOf cfg routeId)] else [])

def failureEntry (now : Time) : CooldownEntry where
  untilAt := now + cooldownSecondsFor failure.category
    (if 0 < failure.cooldownSeconds then some failure.cooldownSeconds else none)
  category := failure.category

variable (result : HealthResult)

def healthCategory : String :=
  if result.healthy = false ∧ ["bad_request","unservable","unsupported"].contains result.category
    ∧ "not available in the active live catalog".toList <:+: (cfg.ops.lower result.errorMessage).toList then
    "catalog_stale" else result.category

/-- The keys one `_record_health` writes, in its order. -/
def healthKeys (provider : String) : List String :=
  if result.healthy then [] else
    [routeKey routeId] ++ (if provider ≠ "" ∧ providerScopeCategories.contains (healthCategory cfg result) then
      [poolKey cfg routeId,providerKey provider] else [])

def healthEntry (now : Time) : CooldownEntry where
  untilAt := now + cooldownSecondsFor (healthCategory cfg result) result.retryAfterSeconds
  category := healthCategory cfg result

end

section
variable {ρ : Type} (cfg : LadderConfig)

/-- The memory after `record_failure`, which then persists it. -/
def recordFailure (memory : LadderState) (routeId : String) (failure : Failure) (now : Time) : LadderState :=
  {memory with cooldowns := memory.cooldowns.setAll (failureKeys cfg routeId failure) (failureEntry failure now)}

/-- The memory after `_record_health`, which then persists it. -/
def recordHealth (memory : LadderState) (routeId : String) (result : HealthResult) (now : Time) (provider : String) :
    LadderState :=
  let category := healthCategory cfg result
  { health := memory.health.set routeId ⟨result.healthy,category,now⟩
    cooldowns := memory.cooldowns.setAll (healthKeys cfg routeId result provider) (healthEntry cfg result now)
    notFreeOverrides :=
      if result.healthy = false ∧ isNotFreeSignal category result.statusCode then
        recordNotFreeOverride memory.notFreeOverrides routeId (backendPool cfg.ops.lower routeId)
          (healthEntry cfg result now).untilAt category
      else memory.notFreeOverrides }

/-- The health cache's active cooldown under a key. A provider rate limit that live quota
refutes for the route is not current. -/
def cachedCooldown (cache : Option (Sections ρ)) (key : String) (now : Time) (routeId : Option String) :
    Option Time :=
  match cache.bind (fun c => c.cooldownFor key now) with
  | none => none
  | some cooldown =>
    let provider := String.ofList (key.toList.drop 9)
    if startsWith key "provider:" ∧ Admission.rateLimitCooldownCategories.contains cooldown.category.text
      ∧ routeId.any (fun r => cfg.connections.any (fun c =>
          decide (cfg.ops.lower c.provider = provider) && c.isActive
            && Admission.liveQuotaRefutesRateLimit cfg.ops c r (some cooldown.checkedAt) now)) then none
    else some cooldown.untilAt

def activeCooldown (cooldowns : Dict String CooldownEntry) (cache : Option (Sections ρ)) (key : String) (now : Time)
    (routeId : Option String) : Option Time :=
  let stored := (cooldowns.get? key).map CooldownEntry.untilAt
  let latest := match cachedCooldown cfg cache key now routeId with
    | some cached => if stored.all (· < cached) then some cached else stored
    | none => stored
  latest.filter (now < ·)

/-- Whether `record_success` drops the route's pool entry: an active credential failure stays. -/
def clearsPool (memory : LadderState) (cache : Option (Sections ρ)) (routeId : String) (now : Time) : Bool :=
  !((memory.cooldowns.get? (poolKey cfg routeId)).any (fun e => poolCooldownCategories.contains e.category)
    && (activeCooldown cfg memory.cooldowns cache (poolKey cfg routeId) now none).isSome)

/-- The memory after `record_success`, which then persists it. -/
def recordSuccess (memory : LadderState) (cache : Option (Sections ρ)) (routeId : String) (now : Time) :
    LadderState :=
  let pooled := if clearsPool cfg memory cache routeId now then memory.cooldowns.pop (poolKey cfg routeId)
    else memory.cooldowns
  { memory with
    cooldowns := pooled.pop (routeKey routeId)
    health := memory.health.set routeId ⟨true,"",now⟩ }

def laterEntry (_ : String) (entry : CooldownEntry) : Option CooldownEntry → Option CooldownEntry
  | none => some entry
  | some current => if current.untilAt < entry.untilAt then some entry else none

/-- The memory after `dispatch_blocker`, which does not persist it. -/
def mergeFresh (memory : LadderState) (fresh : Dict String CooldownEntry) : LadderState :=
  {memory with cooldowns := Dict.mergeWith laterEntry fresh memory.cooldowns}

def dispatchBlocker (memory : LadderState) (fresh : Dict String CooldownEntry) (cache : Option (Sections ρ))
    (routeId : String) (now : Time) : Option String :=
  let cooldowns := (mergeFresh memory fresh).cooldowns
  match (dispatchKeys cfg routeId).find? (fun key => (activeCooldown cfg cooldowns cache key now (some routeId)).isSome) with
  | some key => some key
  | none => if cache.any (fun c => c.stateOf cfg.fresh routeId now = .negative) then some (routeKey routeId) else none

end

/-- Under this key a deadline of at least `d` is stored. -/
def Holds (cooldowns : Dict String CooldownEntry) (key : String) (d : Time) : Prop :=
  ∃ e, cooldowns.get? key = some e ∧ d ≤ e.untilAt

variable {cooldowns : Dict String CooldownEntry} {key : String} {d : Time}

theorem Holds.mono {d' : Time} (h : Holds cooldowns key d) (hd : d' ≤ d) : Holds cooldowns key d' := by
  obtain ⟨e,he,hle⟩ := h
  exact ⟨e,he,hd.trans hle⟩

theorem Holds.setAll {keys : List String} {entry : CooldownEntry} (h : key ∉ keys → Holds cooldowns key d)
    (hw : key ∈ keys → d ≤ entry.untilAt) : Holds (cooldowns.setAll keys entry) key d := by
  by_cases hkey : key ∈ keys
  · exact ⟨entry,by rw [Dict.get?_setAll,if_pos hkey],hw hkey⟩
  · obtain ⟨e,he,hle⟩ := h hkey
    exact ⟨e,by rw [Dict.get?_setAll,if_neg hkey,he],hle⟩

variable {memory : LadderState} {fresh : Dict String CooldownEntry}

theorem Holds.merge_memory (h : Holds memory.cooldowns key d) : Holds (mergeFresh memory fresh).cooldowns key d := by
  obtain ⟨e,he,hle⟩ := h
  unfold Holds mergeFresh
  rw [Dict.get?_mergeWith,he]
  cases hf : fresh.get? key with
  | none => exact ⟨e,rfl,hle⟩
  | some f =>
    by_cases hlater : e.untilAt < f.untilAt
    · refine ⟨f,by simp [laterEntry,hlater],?_⟩
      exact hle.trans hlater.le
    · exact ⟨e,by simp [laterEntry,hlater],hle⟩

theorem Holds.merge_fresh (h : Holds fresh key d) : Holds (mergeFresh memory fresh).cooldowns key d := by
  obtain ⟨f,hf,hle⟩ := h
  unfold Holds mergeFresh
  rw [Dict.get?_mergeWith,hf]
  cases he : memory.cooldowns.get? key with
  | none => exact ⟨f,rfl,hle⟩
  | some e =>
    by_cases hlater : e.untilAt < f.untilAt
    · exact ⟨f,by simp [laterEntry,hlater],hle⟩
    · refine ⟨e,by simp [laterEntry,hlater],?_⟩
      exact hle.trans (not_lt.mp hlater)

section
variable {ρ : Type} {cfg : LadderConfig}
variable {key : String} {d now : Time}

theorem activeCooldown_isSome (h : Holds cooldowns key d) (hd : now < d) (cache : Option (Sections ρ)) (routeId : Option String) :
    (activeCooldown cfg cooldowns cache key now routeId).isSome = true := by
  obtain ⟨e,he,hle⟩ := h
  have hrunning : now < e.untilAt := hd.trans_le hle
  unfold activeCooldown
  simp only [he,Option.map_some,Option.all_some]
  cases cachedCooldown cfg cache key now routeId with
  | none => simp [Option.filter,hrunning]
  | some cached =>
    by_cases hlater : e.untilAt < cached
    · simp [Option.filter,hlater,hrunning.trans hlater]
    · simp [Option.filter,hlater,hrunning]

theorem dispatchBlocker_ne_none {routeId : String}
    (hkey : key ∈ dispatchKeys cfg routeId) (h : Holds (mergeFresh memory fresh).cooldowns key d)
    (hd : now < d) (cache : Option (Sections ρ)) : dispatchBlocker cfg memory fresh cache routeId now ≠ none := by
  have hactive : (activeCooldown cfg (mergeFresh memory fresh).cooldowns cache key now (some routeId)).isSome = true :=
    activeCooldown_isSome h hd cache (some routeId)
  unfold dispatchBlocker
  cases hfind : (dispatchKeys cfg routeId).find? (fun key =>
      (activeCooldown cfg (mergeFresh memory fresh).cooldowns cache key now (some routeId)).isSome) with
  | none => exact absurd hactive (by simpa using List.find?_eq_none.mp hfind key hkey)
  | some blocking => simp [hfind]

end
end Verdict.Eligibility

import Mathlib.Algebra.Order.Ring.Rat
import Mathlib.Data.List.Infix
import Verdict.Catalog.Pools
import Verdict.HealthCache.Entry

/-! # Evidence for route admission

Admission reads catalog rows, provider connections and normalized runtime
observations. A timestamp stays the text it is, since observations are compared field
by field; how such a text is read enters through `TextOps`, together with case folding
and the digest behind opaque account tokens.
-/
namespace Verdict.Admission
open HealthCache (Time)
open String (ofList)

structure TextOps where
  lower : String → String
  iso : Time → String
  /-- A text without a zone is read as UTC. -/
  parseIso : String → Option Time
  /-- A text without a zone is read in the local zone. -/
  timestamp : String → Option Time
  opaqueConnectionToken : String → String

def epochText : TextOps where
  lower text := ofList (text.toList.map Char.toLower)
  iso _ := "1970-01-01T00:00:00+00:00"
  parseIso text := if text = "1970-01-01T00:00:00+00:00" then some 0 else none
  timestamp text := if text = "1970-01-01T00:00:00+00:00" then some 0 else none
  opaqueConnectionToken text := "conn:" ++ text

/-- `text.strip()`. -/
def strip (text : String) : String := ofList (Path.strip text.toList)

/-- `text.startswith(p)`. -/
def startsWith (text p : String) : Bool := p.toList.isPrefixOf text.toList

/-- The first nonempty text of a chain of `or`, else the empty text. -/
def firstText (xs : List String) : String := (xs.find? (· ≠ "")).getD ""

/-- The first nonempty text of a chain of `or` over fields that may be missing. -/
def firstField (xs : List (Option String)) : Option String := (xs.find? fun o => o.getD "" ≠ "").join

inductive ObservationState
  | healthy | unhealthy | unauthorized | exhausted | cooldown | unknown | successHint
  /-- Any other text, such as the status of a subscription pool. -/
  | other (text : String)
  deriving DecidableEq

def ObservationState.text : ObservationState → String
  | .healthy => "healthy" | .unhealthy => "unhealthy" | .unauthorized => "unauthorized"
  | .exhausted => "exhausted" | .cooldown => "cooldown" | .unknown => "unknown"
  | .successHint => "success_hint" | .other text => text

structure RuntimeObservation where
  /-- `route:<canonical id>` or `provider:<name>`. -/
  key : String
  state : ObservationState
  (category source : String)
  observedAt : Option String := none
  untilAt : Option String := none
  poolId : Option String := none
  resetAt : Option String := none
  providerId : Option String := none
  accountId : Option String := none
  workspaceId : Option String := none
  deriving DecidableEq

structure RuntimeEvidence where
  observations : List RuntimeObservation := []
  sources : List String := []

def RuntimeEvidence.forKey (e : RuntimeEvidence) (key : String) : List RuntimeObservation :=
  e.observations.filter (·.key = key)

/-- A catalog row; a missing field is the empty text, no capabilities, or `none`. -/
structure InventoryRow where
  ownedBy : String := ""
  subscriptionPoolId : String := ""
  poolId : String := ""
  accountId : String := ""
  /-- Whether each listed capability is `True`. -/
  capabilities : Dict String Bool := .empty
  maxInputTokens : Option ℤ := none
  contextLength : Option ℤ := none

/-- A provider connection; a missing field is the empty text, an empty map, or `none`. -/
structure Connection where
  provider : String := ""
  id : String := ""
  accountId : String := ""
  workspaceId : String := ""
  /-- `isActive is True`. -/
  isActive : Bool := false
  testStatus : String := ""
  rateLimitedUntil : Dict String String := .empty
  /-- The scalar field `rateLimitedUntil` of the gateway, beside the windows above. -/
  cooldownUntil : Option String := none
  scopeType : String := ""
  scopeId : String := ""
  model : String := ""
  poolId : String := ""
  lastError : String := ""
  lastErrorAt : Option String := none
  observedAt : Option String := none
  updatedAt : Option String := none
  lastTested : Option String := none
  quotaPercent : Option ℚ := none
  quotaModels : Dict String ℚ := .empty

/-- `str(conn.get("account_id") or conn.get("id") or "")`. -/
def Connection.account (c : Connection) : String := firstText [c.accountId,c.id]

inductive QuotaScope
  | model | account | provider | pool
  deriving DecidableEq

structure QuotaEvidence where
  scope : QuotaScope
  scopeId : Option String
  observedCooldownUntil : Option Time
  source : String
  observedAt : Option Time
  errorCategory : Option String := none

def quotaScope (text : String) : QuotaScope :=
  if text = "model" then .model else if text = "provider" then .provider
  else if text = "pool" then .pool else .account

section
variable (ops : TextOps)

def canonicalRouteId (routeId : String) : String :=
  let text := strip routeId
  if startsWith (ops.lower text) "omniroute/" then ofList (text.toList.drop 10) else text

def isOpaque (routeId : String) : Bool :=
  let lowered := ops.lower (canonicalRouteId ops routeId)
  (["auto","default","best"].contains lowered)
    || ["auto/","combo/","router/","virtual/"].any (startsWith lowered)

def routeProviderPrefix (routeId : String) : String :=
  let text := canonicalRouteId ops routeId
  if '/' ∈ text.toList then ops.lower (ofList (text.toList.takeWhile (· ≠ '/'))) else ""

def accountForms (value : String) : List String :=
  let text := strip value
  if text = "" then []
  else if startsWith text "conn:" then [text]
  else [text,ops.opaqueConnectionToken text]

namespace QuotaEvidence

def fromConnection (row : Connection) : QuotaEvidence :=
  let scope := quotaScope row.scopeType
  let field := match scope with
    | .model => row.model | .pool => row.poolId | .provider => row.provider | .account => row.accountId
  let identifier := firstText [row.scopeId,field,if scope = .account then row.id else ""]
  let error := ofList (row.lastError.toList.take 4096)
  { scope
    scopeId := if identifier = "" then none else some identifier
    observedCooldownUntil := row.cooldownUntil.bind ops.timestamp
    source := "omniroute:/api/providers"
    observedAt := (firstField [row.lastErrorAt,row.observedAt,row.updatedAt,row.lastTested]).bind ops.timestamp
    errorCategory := if "429".toList <:+: error.toList ∨ error = "rate_limited" then some "rate_limited" else none }

variable (q : QuotaEvidence) (now : Time) (lastSuccessAt : Option Time)

def currentCooldown : Bool := q.observedCooldownUntil.any (now < ·)

def current429 : Bool :=
  match q.observedAt with
  | none => false
  | some observed =>
    if q.errorCategory ≠ some "rate_limited" then false
    else if lastSuccessAt.any (observed ≤ ·) then false
    else if q.observedCooldownUntil.isSome then q.currentCooldown now
    else 0 ≤ now - observed ∧ now - observed < HealthCache.rateLimitBackoff

def blockedUntil : Option Time :=
  if q.currentCooldown now then q.observedCooldownUntil
  else if q.current429 now lastSuccessAt then q.observedAt.map (· + HealthCache.rateLimitBackoff)
  else none

end QuotaEvidence

def badTestStatus : List String :=
  ["error","failed","expired","unauthorized","invalid","unavailable","disabled","exhausted","quota_exhausted",
   "rate_limited","banned"]

variable (c : Connection)

/-- `str(conn.get("testStatus", "") or "").strip().lower()`. -/
def Connection.status : String := ops.lower (strip c.testStatus)

def Connection.liveWindow (routeId : String) (now : Time) : Option Time :=
  c.rateLimitedUntil.entries.findSome? (fun (key,value) =>
    if '/' ∈ key.toList ∧ canonicalRouteId ops key ≠ routeId then none
    else (ops.parseIso value).filter (now < ·))

def connectionIsRateLimited (routeId : String) (now : Time) : Bool :=
  ((QuotaEvidence.fromConnection ops c).blockedUntil now none).isSome || (c.liveWindow ops routeId now).isSome

def connectionIsViable (routeId : String) (now : Time) : Bool :=
  c.isActive && !(badTestStatus.contains (c.status ops)) && !(connectionIsRateLimited ops c routeId now)

/-- `re.sub(r"-(low|medium|high|xhigh|tiered)$", "", model)`; `$` also matches in front
of a final line break. -/
def withoutEffort (model : String) : String :=
  let cut (cs : List Char) : List Char :=
    match ["-low","-medium","-high","-xhigh","-tiered"].find? (fun s => s.toList.isSuffixOf cs) with
    | some s => cs.take (cs.length - s.length)
    | none => cs
  let cs := model.toList
  if cs.getLast? = some '\n' then ofList (cut cs.dropLast ++ ['\n']) else ofList (cut cs)

def quotaRemaining (routeId : String) : Option ℚ :=
  let model := if '/' ∈ routeId.toList then
      ofList ((routeId.toList.dropWhile (· ≠ '/')).drop 1) else routeId
  match [model,withoutEffort model].findSome? c.quotaModels.get? with
  | some q => some q
  | none => c.quotaPercent

def rateLimitCooldownCategories : List String := ["rate_limited","rate_limit","quota_exhausted"]

def liveQuotaRefutesRateLimit (routeId : String) (cooledAt : Option Time) (now : Time) : Bool :=
  match cooledAt,c.lastTested.bind ops.parseIso,quotaRemaining c routeId with
  | some cooled,some tested,some remaining =>
    cooled < tested && tested ≤ now && 0 < remaining && connectionIsViable ops c routeId now
  | _,_,_ => false

end

def authCategories : List String := ["authentication","permission","payment_required","unauthorized"]
def exhaustedCategories : List String := ["quota_exhausted","exhausted","rate_limited"]

def stateForCategory (ops : TextOps) (category : String) : ObservationState :=
  let lowered := ops.lower (strip category)
  if authCategories.contains lowered then .unauthorized
  else if exhaustedCategories.contains lowered then .exhausted
  else if ["","unknown","unprobed"].contains lowered then .unknown
  else .unhealthy

end Verdict.Admission

import Mathlib.Data.Finset.Sort
import Mathlib.Data.String.Basic
import Verdict.Admission.Evidence

/-! # Judging one route

`_judge` is a ladder of early returns. Each rung is a definition that answers with the
dropping record, if it drops, so that the order of the rungs can be read off `judge`.
A set of two provider names is walked in an order the language leaves open, which is
the argument `ownedFirst`.
-/
namespace Verdict.Admission
open HealthCache (Time)
open Catalog (segments resolveProvider)

inductive AdmissionStage
  | discovered | entitled | healthy | available | capability | policy
  | workerScope | controllerScope | controllerExcluded | downstream

structure AdmissionRecord where
  (routeId provider : String)
  admitted : Bool
  firstFailedStage : Option AdmissionStage
  (reason source : String)
  observedAt : Option String
  health : ObservationState
  untilAt : Option String := none
  resetAt : Option String := none
  confirmationSource : Option String := none
  confirmedAt : Option String := none

structure Candidate where
  routeId : String
  row : InventoryRow
  connections : List Connection
  runtime : RuntimeEvidence
  now : Time
  connectionsSource : String := "omniroute:/api/providers"
  requiredCapabilities : Finset String := ∅
  minContextTokens : ℤ := 0
  deny : Option (String → Option String) := none
  ownedFirst : Bool := true

namespace Candidate
variable (ops : TextOps) (q : Candidate)

def owned : String := ops.lower q.row.ownedBy
def namePrefix : String := routeProviderPrefix ops q.routeId
def resolved : String := if q.owned ops = "" then "" else resolveProvider ops.lower (q.owned ops)
def provider : String := firstText [q.resolved ops,q.owned ops,q.namePrefix ops]
def stamp : String := ops.iso q.now

def drop (stage : AdmissionStage) (reason source : String) (observedAt : Option String) (health : ObservationState)
    (untilAt resetAt : Option String) : AdmissionRecord where
  routeId := q.routeId
  provider := q.provider ops
  admitted := false
  firstFailedStage := some stage
  reason := reason
  source := source
  observedAt := observedAt
  health := health
  untilAt := untilAt
  resetAt := resetAt

/-- `_connections_for`. -/
def conns : List Connection :=
  let wanted := ([q.resolved ops,q.owned ops,q.namePrefix ops].filter (· ≠ "")).map ops.lower
  q.connections.filter fun c => wanted.contains (ops.lower c.provider)

def active : List Connection := (q.conns ops).filter Connection.isActive

def opaqueDrop : Option AdmissionRecord :=
  if isOpaque ops q.routeId ∨ q.owned ops = "combo" then
    some (q.drop ops .discovered "opaque_route" "inventory" (q.stamp ops) .unknown none none)
  else none

def accountDrop : Option AdmissionRecord :=
  if q.active ops = [] then
    some (q.drop ops .entitled (if q.conns ops = [] then "no_connection_evidence" else "no_active_account")
      q.connectionsSource (q.stamp ops) .unknown none none)
  else none

def statuses : List String := (q.active ops).map (Connection.status ops)

def statusDrop : Option AdmissionRecord :=
  if q.statuses ops ≠ [] ∧ ∀ s ∈ q.statuses ops, s ∈ badTestStatus then
    let status := ((q.statuses ops).min?).getD ""
    some (q.drop ops .entitled ("connection_status:" ++ status) q.connectionsSource (q.stamp ops)
      (stateForCategory ops status) none none)
  else none

def windowDrop : Option AdmissionRecord :=
  ((q.active ops).findSome? fun c => c.liveWindow ops q.routeId q.now).map (fun t =>
    q.drop ops .available "provider_rate_limited" q.connectionsSource (q.stamp ops) .exhausted (some (ops.iso t)) none)

/-- `route_obs` before the gateway's own observations: a positive must not have expired. -/
def recordedRouteObs : List RuntimeObservation :=
  (q.runtime.forKey ("route:" ++ q.routeId)).filter (fun o =>
    decide (o.state ≠ .healthy) || o.untilAt.isNone || (o.untilAt.bind ops.parseIso).any (q.now < ·))

def recordedProviderObs : List RuntimeObservation :=
  let names := if q.ownedFirst then [q.owned ops,q.namePrefix ops] else [q.namePrefix ops,q.owned ops]
  (names.dedup.filter (· ≠ "")).flatMap fun name => q.runtime.forKey ("provider:" ++ name)

def lastSuccess : Option Time :=
  ((q.recordedRouteObs ops).filterMap (fun o =>
    if (o.state = .healthy ∨ o.state = .successHint) ∧ o.category ≠ "passive_success" then
      o.observedAt.bind ops.parseIso else none)).max?

def gatewayObservation (c : Connection) : Option RuntimeObservation :=
  let quota := QuotaEvidence.fromConnection ops c
  (quota.blockedUntil q.now (q.lastSuccess ops)).map (fun t => {
    key := if quota.scope = .model then "route:" ++ canonicalRouteId ops (quota.scopeId.getD "")
      else "provider:" ++ q.provider ops
    state := .cooldown
    category := "rate_limit"
    source := quota.source
    observedAt := quota.observedAt.map ops.iso
    untilAt := some (ops.iso t)
    poolId := if quota.scope = .pool then quota.scopeId else none
    accountId := if quota.scope = .account ∧ c.account ≠ "" then some c.account else none })

def gatewayObs : List RuntimeObservation := (q.active ops).filterMap (q.gatewayObservation ops)

def routeObs : List RuntimeObservation :=
  q.recordedRouteObs ops ++ (q.gatewayObs ops).filter (·.key = "route:" ++ q.routeId)

def providerObsAll : List RuntimeObservation :=
  q.recordedProviderObs ops ++ (q.gatewayObs ops).filter (·.key = "provider:" ++ q.provider ops)

def markers : List String :=
  let marker := firstText [q.row.subscriptionPoolId,q.row.poolId]
  if marker = "" then [] else accountForms ops marker

def bound : List Connection :=
  if q.row.accountId = "" then q.active ops
  else (q.active ops).filter fun c => (accountForms ops q.row.accountId).contains c.account

def encodedAccount : String :=
  if 2 < (segments q.routeId).length ∧ startsWith (q.owned ops) (q.namePrefix ops ++ "/") then
    (segments q.routeId).getD 1 "" else ""

def activeAccounts : List String :=
  let accounts := ((q.bound ops).map Connection.account).filter (· ≠ "")
  if accounts = [] ∧ q.encodedAccount ops ≠ "" then [q.encodedAccount ops] else accounts

def activeWorkspaces : List String := ((q.bound ops).map Connection.workspaceId).filter (· ≠ "")

variable (o : RuntimeObservation)

def inScope : Bool :=
  (o.accountId.all (· ∈ q.activeAccounts ops))
    && (o.workspaceId.all (fun w => decide (w = "") || (q.activeWorkspaces ops).contains w
      || ((q.activeWorkspaces ops).isEmpty && (q.bound ops).length == 1)))
    && ((q.markers ops).isEmpty || decide (o.poolId.getD "" = "")
      || o.poolId.any fun p => (q.markers ops).contains p || decide (p.toList <:+: q.routeId.toList))

def refuted : Bool :=
  !((q.gatewayObs ops).contains o) && decide (o.state = .cooldown ∨ o.state = .exhausted)
    && rateLimitCooldownCategories.contains o.category
    && (q.bound ops).any fun c => liveQuotaRefutesRateLimit ops c q.routeId (o.observedAt.bind ops.parseIso) q.now

def scopedProviderObs : List RuntimeObservation :=
  ((q.providerObsAll ops).filter (q.inScope ops)).filter fun o => !(q.refuted ops o)

def accountBound : Bool :=
  !(q.markers ops).isEmpty || decide (q.encodedAccount ops ≠ "") || decide (q.row.accountId ≠ "")

def suppressible : Bool := decide (o.state = .exhausted ∨ o.state = .cooldown)

def badAccounts : List String :=
  (((q.scopedProviderObs ops).filter suppressible).filterMap RuntimeObservation.accountId).filter (· ≠ "")

def viableAccounts : List String :=
  (q.activeAccounts ops).filter (fun account => !((q.badAccounts ops).contains account)
    && (q.bound ops).any fun c => decide (c.account = account) && connectionIsViable ops c q.routeId q.now)

def providerObs : List RuntimeObservation :=
  if !(q.accountBound ops) && !(q.viableAccounts ops).isEmpty then
    (q.scopedProviderObs ops).filter fun o => o.accountId.all fun a => !((q.badAccounts ops).contains a)
  else q.scopedProviderObs ops

def evidence : List RuntimeObservation := q.routeObs ops ++ q.providerObs ops

def unauthorizedDrop : Option AdmissionRecord :=
  ((q.evidence ops).find? (·.state = .unauthorized)).map (fun o =>
    q.drop ops .entitled o.category o.source o.observedAt o.state o.untilAt o.resetAt)

def unhealthyDrop : Option AdmissionRecord :=
  ((q.routeObs ops).find? (·.state = .unhealthy)).map (fun o =>
    q.drop ops .healthy o.category o.source o.observedAt o.state o.untilAt none)

def plainReasons : List String :=
  ["subscription_exhaustion","subscription_unknown","rate_limit","concurrency_limit","provider_overload","lockout",
   "payment"]

def unavailableDrop : Option AdmissionRecord :=
  ((q.evidence ops).find? suppressible).map (fun o =>
    q.drop ops .available
      (if plainReasons.contains o.category then o.category else o.state.text ++ ":" ++ o.category)
      o.source o.observedAt o.state o.untilAt o.resetAt)

def headroomUnknown : Bool :=
  decide (o.category = "subscription_unknown")
    || (decide (o.state = .unknown) && startsWith o.source "subscription_headroom:")

def unknownSubscription : Option RuntimeObservation := (q.evidence ops).find? headroomUnknown

/-- `{"tools": "tool_calling"}.get(needed, needed)`. -/
def capabilityKey (needed : String) : String := if needed = "tools" then "tool_calling" else needed

def lacks (needed : String) : Bool := q.row.capabilities.get? (capabilityKey needed) ≠ some true

/-- `int(row.get("max_input_tokens") or row.get("context_length") or 0)`. -/
def context : ℤ :=
  match q.row.maxInputTokens with
  | some n => if n ≠ 0 then n else q.row.contextLength.getD 0
  | none => q.row.contextLength.getD 0

def capabilityDrop : Option AdmissionRecord :=
  if q.requiredCapabilities = ∅ ∧ q.minContextTokens = 0 then none
  else match (q.requiredCapabilities.sort (· ≤ ·)).find? q.lacks with
    | some needed => some (q.drop ops .capability ("missing_capability:" ++ needed) "inventory" (q.stamp ops)
        .unknown none none)
    | none => if q.context < q.minContextTokens then
        some (q.drop ops .capability "insufficient_context" "inventory" (q.stamp ops) .unknown none none) else none

def denied : Option String := (q.deny.bind fun deny => deny q.routeId).filter (· ≠ "")

def policyDrop : Option AdmissionRecord :=
  q.denied.map fun reason => q.drop ops .policy reason "policy" (q.stamp ops) .unknown none none

def boundedAdmission : AdmissionRecord where
  routeId := q.routeId
  provider := q.provider ops
  admitted := true
  firstFailedStage := none
  reason := "subscription_unknown"
  source := o.source
  observedAt := o.observedAt
  health := .unknown
  untilAt := o.untilAt
  resetAt := o.resetAt

def admission : AdmissionRecord :=
  match ((q.evidence ops).filter (·.state = .healthy)).getLast? with
  | some latest => {
      routeId := q.routeId, provider := q.provider ops, admitted := true, firstFailedStage := none
      reason := "admitted", source := latest.source, observedAt := latest.observedAt, health := .healthy }
  | none => {
      routeId := q.routeId, provider := q.provider ops, admitted := true, firstFailedStage := none
      reason := "admitted_unverified", source := q.connectionsSource, observedAt := some (q.stamp ops)
      health := .unknown }

def evidenceDrop : Option AdmissionRecord :=
  q.opaqueDrop ops <|> q.accountDrop ops <|> q.statusDrop ops <|> q.windowDrop ops <|> q.unauthorizedDrop ops
    <|> q.unhealthyDrop ops <|> q.unavailableDrop ops

def judge : AdmissionRecord :=
  match q.evidenceDrop ops with
  | some record => record
  | none => match q.unknownSubscription ops with
    | some o => q.boundedAdmission ops o
    | none => (q.capabilityDrop ops <|> q.policyDrop ops).getD (q.admission ops)

end Candidate
end Verdict.Admission

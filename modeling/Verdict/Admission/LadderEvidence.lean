import Verdict.Admission.AdmittedSet
import Verdict.Eligibility.Ladder

/-! # Admission evidence from the ladder's state file

`evidence_from_ladder_state` parses the cooldown keys of the file on its own and keeps the
route and provider scopes; `_judge` then looks up the row's owner and the prefix of the
route. A cooldown under the pool of a route, or under the provider that an alias resolves
to, is one the ladder honours and admission does not see.
-/
namespace Verdict.Admission
open HealthCache (Time Sections seconds)
open Eligibility (LadderState LadderConfig CooldownEntry HealthRow dispatchBlocker)
open List (mem_append_left mem_filter mem_filterMap)
open AdmittedSet (ids)

def healthyTtlSeconds : ℤ := seconds 300

section
variable (ops : TextOps)

/-- `key.partition(":")`, without the separator. -/
def partitionKey (key : String) : String × String :=
  (String.ofList (key.toList.takeWhile (· ≠ ':')),String.ofList ((key.toList.dropWhile (· ≠ ':')).drop 1))

def observedKey (key : String) : Option String :=
  let (scope,name) := partitionKey key
  if name = "" then none
  else if scope = "route" then some ("route:" ++ canonicalRouteId ops name)
  else if scope = "provider" then some ("provider:" ++ ops.lower name)
  else none

def healthObservation (source : String) (now : Time) (entry : String × HealthRow) : Option RuntimeObservation :=
  if healthyTtlSeconds < now - entry.2.checkedAt ∨ entry.2.healthy = true then none
  else
    let state := stateForCategory ops entry.2.category
    some {
      key := "route:" ++ canonicalRouteId ops entry.1
      state := state
      category := firstText [entry.2.category,state.text]
      source := source
      observedAt := some (ops.iso entry.2.checkedAt) }

def cooldownObservation (source : String) (now : Time) (entry : String × CooldownEntry) : Option RuntimeObservation :=
  if entry.2.untilAt ≤ now then none
  else (observedKey ops entry.1).map (fun key => {
    key := key
    state := .cooldown
    category := firstText [entry.2.category,"cooldown"]
    source := source
    untilAt := some (ops.iso entry.2.untilAt) })

/-- `evidence_from_ladder_state`, on a file that can be read. -/
def evidenceFromLadderState (fileName : String) (state : LadderState) (now : Time) : RuntimeEvidence :=
  let source := "ladder_state:" ++ fileName
  ⟨state.health.entries.filterMap (healthObservation ops source now)
    ++ state.cooldowns.entries.filterMap (cooldownObservation ops source now),[source]⟩

end

namespace Candidate
variable {ops : TextOps} {q : Candidate} {o : RuntimeObservation}

theorem mem_routeObs_of_recorded (ho : o ∈ q.runtime.observations) (hkey : o.key = "route:" ++ q.routeId)
    (hstate : o.state ≠ .healthy) : o ∈ q.routeObs ops := by
  apply mem_append_left
  refine mem_filter.mpr ⟨mem_filter.mpr ⟨ho,by simpa using hkey⟩,?_⟩
  simp [hstate]

theorem mem_providerObs_of_recorded (ho : o ∈ q.recordedProviderObs ops) (haccount : o.accountId = none)
    (hworkspace : o.workspaceId = none) (hpool : o.poolId = none) (htime : o.observedAt = none) :
    o ∈ q.providerObs ops := by
  have hscope : q.inScope ops o = true := by simp [inScope,haccount,hworkspace,hpool]
  have hrefuted : q.refuted ops o = false := by simp [refuted,htime,liveQuotaRefutesRateLimit]
  have hscoped : o ∈ q.scopedProviderObs ops := by
    refine mem_filter.mpr ⟨mem_filter.mpr ⟨mem_append_left _ ho,hscope⟩,?_⟩
    simp [hrefuted]
  unfold providerObs
  split
  · exact mem_filter.mpr ⟨hscoped,by simp [haccount]⟩
  · exact hscoped

theorem judge_of_unblocked (h : q.Unblocked ops) (hcapabilities : q.requiredCapabilities = ∅)
    (hcontext : q.minContextTokens = 0) (hdeny : q.deny = none) : (q.judge ops).admitted = true := by
  have hcap : q.capabilityDrop ops = none := by simp [capabilityDrop,hcapabilities,hcontext]
  have hpolicy : q.policyDrop ops = none := by simp [policyDrop,denied,hdeny]
  unfold judge
  rw [evidenceDrop_eq_none.mpr h,hcap,hpolicy]
  cases q.unknownSubscription ops with
  | some o => rfl
  | none =>
    simp only [Option.orElse_eq_orElse,Option.orElse_none,Option.getD_none]
    unfold admission
    split <;> rfl

theorem mem_providerObsAll_of_mem (h : o ∈ q.providerObs ops) : o ∈ q.providerObsAll ops := by
  have hscoped : o ∈ q.scopedProviderObs ops := by
    unfold providerObs at h
    split at h
    · exact (mem_filter.mp h).1
    · exact h
  exact (mem_filter.mp (mem_filter.mp hscoped).1).1

theorem mem_recorded_of_evidence (hgateway : q.gatewayObs ops = []) (h : o ∈ q.evidence ops) :
    o ∈ q.recordedRouteObs ops ∨ o ∈ q.recordedProviderObs ops := by
  rcases List.mem_append.mp h with hroute | hprovider
  · left
    simpa [routeObs,hgateway] using hroute
  · right
    simpa [providerObsAll,hgateway] using mem_providerObsAll_of_mem hprovider

end Candidate

theorem stateForCategory_mem (ops : TextOps) (category : String) :
    stateForCategory ops category ∈ [ObservationState.unauthorized,.exhausted,.unknown,.unhealthy] := by
  simp only [stateForCategory]
  split
  · simp
  · split
    · simp
    · split <;> simp

section
variable (ops : TextOps) (state : LadderState) (routeId : String) (row : InventoryRow) (now : Time)

def AdmissionKey (key : String) : Prop :=
  key = "route:" ++ canonicalRouteId ops routeId ∨
    ∃ name, (name = ops.lower row.ownedBy ∨ name = routeProviderPrefix ops (canonicalRouteId ops routeId)) ∧
      name ≠ "" ∧ key = "provider:" ++ name

/-- Some running cooldown of the file is observed under a key that admission looks up. -/
def SeenCooldown : Prop :=
  ∃ entry ∈ state.cooldowns.entries, now < entry.2.untilAt ∧
    ∃ key, observedKey ops entry.1 = some key ∧ AdmissionKey ops routeId row key

def SeenFailure : Prop :=
  ∃ entry ∈ state.health.entries, now - entry.2.checkedAt ≤ healthyTtlSeconds ∧ entry.2.healthy = false ∧
    canonicalRouteId ops entry.1 = canonicalRouteId ops routeId ∧ stateForCategory ops entry.2.category ≠ .unknown

def Unroutable : Prop :=
  isOpaque ops (canonicalRouteId ops routeId) = true ∨ ops.lower row.ownedBy = "combo" ∨
    (ops.lower row.ownedBy = "" ∧ routeProviderPrefix ops (canonicalRouteId ops routeId) = "")

end

section Judged
variable {ops : TextOps} {state : LadderState} {routeId fileName : String} {row : InventoryRow} {q : Candidate}

theorem not_unblocked_of_seenCooldown (hroute : q.routeId = canonicalRouteId ops routeId) (hrow : q.row = row)
    (hruntime : (evidenceFromLadderState ops fileName state q.now).observations ⊆ q.runtime.observations)
    (h : SeenCooldown ops state routeId row q.now) : ¬ q.Unblocked ops := by
  obtain ⟨entry,hentry,hrunning,key,hkey,hlooked⟩ := h
  subst hrow
  obtain ⟨o,ho,hok,hstate,haccount,hworkspace,hpool,htime⟩ : ∃ o,
      cooldownObservation ops ("ladder_state:" ++ fileName) q.now entry = some o ∧ o.key = key ∧ o.state = .cooldown ∧
        o.accountId = none ∧ o.workspaceId = none ∧ o.poolId = none ∧ o.observedAt = none := by
    unfold cooldownObservation
    rw [if_neg (not_le.mpr hrunning),hkey]
    exact ⟨_,rfl,rfl,rfl,rfl,rfl,rfl,rfl⟩
  have hmem : o ∈ q.runtime.observations :=
    hruntime (List.mem_append_right _ (mem_filterMap.mpr ⟨entry,hentry,ho⟩))
  have hevidence : o ∈ q.evidence ops := by
    rcases hlooked with hkeyRoute | ⟨name,hname,hne,hkeyProvider⟩
    · apply mem_append_left
      exact Candidate.mem_routeObs_of_recorded hmem (by rw [hok,hkeyRoute,hroute]) (by simp [hstate])
    · apply List.mem_append_right
      refine Candidate.mem_providerObs_of_recorded ?_ haccount hworkspace hpool htime
      refine Candidate.mem_recordedProviderObs.mpr ⟨name,?_,hne,hmem,hok.trans hkeyProvider⟩
      rw [← hroute] at hname
      exact hname
  intro hun
  exact (hun.available o hevidence).2 hstate

theorem not_unblocked_of_seenFailure (hroute : q.routeId = canonicalRouteId ops routeId)
    (hruntime : (evidenceFromLadderState ops fileName state q.now).observations ⊆ q.runtime.observations)
    (h : SeenFailure ops state routeId q.now) : ¬ q.Unblocked ops := by
  obtain ⟨entry,hentry,hfresh,hfailed,hsame,hknown⟩ := h
  obtain ⟨o,ho,hok,hstate⟩ : ∃ o, healthObservation ops ("ladder_state:" ++ fileName) q.now entry = some o ∧
      o.key = "route:" ++ canonicalRouteId ops entry.1 ∧ o.state = stateForCategory ops entry.2.category := by
    unfold healthObservation
    rw [if_neg (by simp [hfailed,hfresh])]
    exact ⟨_,rfl,rfl,rfl⟩
  have hmem : o ∈ q.runtime.observations :=
    hruntime (mem_append_left _ (mem_filterMap.mpr ⟨entry,hentry,ho⟩))
  have hcases := stateForCategory_mem ops entry.2.category
  rw [← hstate] at hknown hcases
  have hrouteObs : o ∈ q.routeObs ops := by
    refine Candidate.mem_routeObs_of_recorded hmem (by rw [hok,hsame,hroute]) ?_
    rintro hhealthy
    simp [hhealthy] at hcases
  have hevidence : o ∈ q.evidence ops := mem_append_left _ hrouteObs
  intro hun
  simp only [List.mem_cons,List.not_mem_nil,or_false] at hcases
  rcases hcases with hauth | hexhausted | hunknown | hunhealthy
  · exact hun.entitled o hevidence hauth
  · exact (hun.available o hevidence).1 hexhausted
  · exact hknown hunknown
  · exact hun.healthy o hrouteObs hunhealthy

theorem not_unblocked_of_unroutable (hroute : q.routeId = canonicalRouteId ops routeId) (hrow : q.row = row)
    (h : Unroutable ops routeId row) : ¬ q.Unblocked ops := by
  subst hrow
  intro hun
  rcases h with hhidden | hcombo | ⟨howned,howner⟩
  · rw [← hroute,hun.concrete.1] at hhidden
    cases hhidden
  · exact hun.concrete.2 hcombo
  · apply hun.active
    rw [← hroute] at howner
    have hresolved : q.resolved ops = "" := if_pos howned
    have hconns : q.conns ops = [] := by
      simp [Candidate.conns,hresolved,Candidate.owned,howned,Candidate.namePrefix,howner]
    simp [Candidate.active,hconns]

theorem unknown_of_unseen {o : RuntimeObservation} {now : Time} (hcool : ¬ SeenCooldown ops state routeId row now)
    (hfail : ¬ SeenFailure ops state routeId now) (ho : o ∈ (evidenceFromLadderState ops fileName state now).observations)
    (hlooked : AdmissionKey ops routeId row o.key) : o.state = .unknown := by
  rcases List.mem_append.mp ho with hhealth | hcooldown
  · obtain ⟨entry,hentry,hobserved⟩ := mem_filterMap.mp hhealth
    unfold healthObservation at hobserved
    split at hobserved
    · cases hobserved
    · rename_i hfresh
      simp only [not_or,not_lt,Bool.not_eq_true] at hfresh
      cases hobserved
      have hsame : canonicalRouteId ops entry.1 = canonicalRouteId ops routeId := by
        rcases hlooked with hkey | ⟨name,-,-,hkey⟩
        · simpa using hkey
        · have hhead := congrArg (fun text => text.toList.head?) hkey
          simp [String.toList_append] at hhead
      by_contra hknown
      exact hfail ⟨entry,hentry,hfresh.1,hfresh.2,hsame,hknown⟩
  · obtain ⟨entry,hentry,hobserved⟩ := mem_filterMap.mp hcooldown
    unfold cooldownObservation at hobserved
    split at hobserved
    · cases hobserved
    · rename_i hrunning
      obtain ⟨key,hkey,rfl⟩ := Option.map_eq_some_iff.mp hobserved
      exact absurd ⟨entry,hentry,not_le.mp hrunning,key,hkey,hlooked⟩ hcool

def plainAccount (provider : String) : Connection := {provider := provider, isActive := true}

theorem gatewayObs_plainAccount {name : String} (hconns : q.connections = [plainAccount name]) : q.gatewayObs ops = [] := by
  have hplain : ∀ c ∈ q.active ops, q.gatewayObservation ops c = none := by
    intro c hc
    have hmem : c ∈ q.connections := (mem_filter.mp (mem_filter.mp hc).1).1
    rw [hconns,List.mem_singleton] at hmem
    subst hmem
    have hblocked : (QuotaEvidence.fromConnection ops (plainAccount name)).blockedUntil q.now (q.lastSuccess ops) = none := by
      rfl
    simp [Candidate.gatewayObservation,hblocked]
  exact List.filterMap_eq_nil_iff.mpr hplain

theorem unblocked_of_unseen {name : String} (hlower : ops.lower "" = "") (hroute : q.routeId = canonicalRouteId ops routeId)
    (hrow : q.row = row) (hconns : q.connections = [plainAccount name])
    (hname : name = ops.lower row.ownedBy ∨ name = routeProviderPrefix ops (canonicalRouteId ops routeId)) (hne : name ≠ "")
    (hruntime : q.runtime.observations ⊆ (evidenceFromLadderState ops fileName state q.now).observations)
    (hroutable : ¬ Unroutable ops routeId row) (hcool : ¬ SeenCooldown ops state routeId row q.now)
    (hfail : ¬ SeenFailure ops state routeId q.now) : q.Unblocked ops := by
  subst hrow
  have hactive : q.active ops = [plainAccount name] := by
    have hwanted : name = q.owned ops ∨ name = q.namePrefix ops := by
      rw [← hroute] at hname
      exact hname
    have hfound : ops.lower name ∈ ([q.resolved ops,q.owned ops,q.namePrefix ops].filter (· ≠ "")).map ops.lower := by
      refine List.mem_map_of_mem (mem_filter.mpr ⟨?_,by simpa using hne⟩)
      rcases hwanted with h | h <;> simp [h]
    unfold Candidate.active Candidate.conns
    simp only [hconns]
    rw [List.filter_cons_of_pos (by simpa [plainAccount] using hfound)]
    rfl
  have hunknown : ∀ o ∈ q.evidence ops, o.state = .unknown := by
    intro o ho
    rcases Candidate.mem_recorded_of_evidence (gatewayObs_plainAccount hconns) ho with hroutes | hproviders
    · obtain ⟨hmem,hkey⟩ := mem_filter.mp (mem_filter.mp hroutes).1
      refine unknown_of_unseen hcool hfail (hruntime hmem) (.inl ?_)
      rw [← hroute]
      simpa using hkey
    · obtain ⟨looked,hlooked,hlookedNe,hmem,hkey⟩ := Candidate.mem_recordedProviderObs.mp hproviders
      refine unknown_of_unseen hcool hfail (hruntime hmem) (.inr ⟨looked,?_,hlookedNe,hkey⟩)
      rw [← hroute]
      exact hlooked
  have hsound : (plainAccount name).status ops = "" := by
    have hblank : strip "" = "" := by decide
    simp [Connection.status,plainAccount,hblank,hlower]
  constructor
  · rw [hroute]
    exact ⟨by_contra fun h => hroutable (.inl (by simpa using h)),fun h => hroutable (.inr (.inl h))⟩
  · simp [hactive]
  · refine ⟨"",by simp [Candidate.statuses,hactive,hsound],by decide⟩
  · intro c hc
    rw [hactive,List.mem_singleton] at hc
    subst hc
    rfl
  · exact fun o ho => by simp [hunknown o ho]
  · exact fun o ho => by simp [hunknown o (mem_append_left _ ho)]
  · exact fun o ho => by simp [hunknown o ho]

end Judged

/-- If the ladder, with this state in memory and on file, refuses the route because of a
cooldown, then no admission that judges this row of the route on the evidence of the state
admits it, whatever else it is given. -/
def AdmissionHonours (cfg : LadderConfig) (state : LadderState) (routeId : String) (row : InventoryRow) (now : Time) : Prop :=
  dispatchBlocker cfg state state.cooldowns (none : Option (Sections Unit)) routeId now ≠ none →
    ∀ (catalog : List CatalogRow) (connections : List Connection) (other : RuntimeEvidence) (opts : AdmitOptions)
      (fileName : String) (s : AdmittedSet),
      (rowsById cfg.ops catalog).get? (canonicalRouteId cfg.ops routeId) = some row → opts.now = now →
      admitRoutes cfg.ops (some catalog) (some connections)
        (some ((evidenceFromLadderState cfg.ops fileName state now).merged other)) opts = .ok s →
      s.contains cfg.ops routeId = false

section
variable {ops : TextOps} {state : LadderState} {routeId fileName : String} {row : InventoryRow}

theorem not_contains_of_blocked {catalog : List CatalogRow} {connections : List Connection} {other : RuntimeEvidence}
    {opts : AdmitOptions} {s : AdmittedSet} (hrow : (rowsById ops catalog).get? (canonicalRouteId ops routeId) = some row)
    (hs : admitRoutes ops (some catalog) (some connections)
      (some ((evidenceFromLadderState ops fileName state opts.now).merged other)) opts = .ok s)
    (hseen : Unroutable ops routeId row ∨ SeenCooldown ops state routeId row opts.now ∨
      SeenFailure ops state routeId opts.now) : s.contains ops routeId = false := by
  obtain ⟨t,ht,hrecords⟩ := admit_ok ops catalog connections
    ((evidenceFromLadderState ops fileName state opts.now).merged other) opts
  rw [hs] at ht
  cases ht
  have hblocked : ∀ evidence : RuntimeEvidence,
      (evidenceFromLadderState ops fileName state opts.now).observations ⊆ evidence.observations →
      ¬ (candidateOf (rowsById ops catalog) connections evidence opts (canonicalRouteId ops routeId)).Unblocked ops := by
    intro evidence hsub
    have hjudged : (candidateOf (rowsById ops catalog) connections evidence opts (canonicalRouteId ops routeId)).row = row := by
      simp [candidateOf,hrow]
    rcases hseen with hun | hcool | hfail
    · exact not_unblocked_of_unroutable rfl hjudged hun
    · exact not_unblocked_of_seenCooldown rfl hjudged hsub hcool
    · exact not_unblocked_of_seenFailure rfl hsub hfail
  rw [AdmittedSet.contains,← Bool.not_eq_true,List.contains_iff_mem]
  intro hmem
  unfold ids at hmem
  rw [hrecords,mem_admittedIds_judgedRecords] at hmem
  refine absurd hmem.2 ?_
  rw [Candidate.judge_of_blocked (hblocked _ ?_)]
  · simp
  · cases opts.subscription with
    | none => exact List.subset_append_left _ _
    | some sub => exact fun o ho => mem_append_left _ (mem_append_left _ ho)

theorem contains_of_unseen (fileName : String) (hlower : ops.lower "" = "") (hnonblank : strip routeId ≠ "") {now : Time}
    (hroutable : ¬ Unroutable ops routeId row) (hcool : ¬ SeenCooldown ops state routeId row now)
    (hfail : ¬ SeenFailure ops state routeId now) :
    ∃ catalog connections s, (rowsById ops catalog).get? (canonicalRouteId ops routeId) = some row ∧
      admitRoutes ops (some catalog) (some connections) (some ((evidenceFromLadderState ops fileName state now).merged {}))
        {now := now} = .ok s ∧ s.contains ops routeId = true := by
  obtain ⟨name,hname,hne⟩ : ∃ name, (name = ops.lower row.ownedBy ∨
      name = routeProviderPrefix ops (canonicalRouteId ops routeId)) ∧ name ≠ "" := by
    by_contra hnone
    push Not at hnone
    exact hroutable (.inr (.inr ⟨hnone _ (.inl rfl),hnone _ (.inr rfl)⟩))
  have hrows : rowsById ops [⟨some routeId,row⟩] = Dict.empty.set (canonicalRouteId ops routeId) row := by
    simp [rowsById,hnonblank,Dict.contains]
  obtain ⟨s,hs,hrecords⟩ := admit_ok ops [⟨some routeId,row⟩] [plainAccount name]
    ((evidenceFromLadderState ops fileName state now).merged {}) {now := now}
  refine ⟨_,_,s,by rw [hrows,Dict.get?_set_self],hs,?_⟩
  rw [AdmittedSet.contains,List.contains_iff_mem]
  unfold ids
  rw [hrecords,mem_admittedIds_judgedRecords,hrows]
  refine ⟨(Dict.mem_keys_iff _ _).mpr ⟨row,Dict.get?_set_self _ _ _⟩,Candidate.judge_of_unblocked ?_ rfl rfl rfl⟩
  have hruntime : ((evidenceFromLadderState ops fileName state now).merged {}).observations ⊆
      (evidenceFromLadderState ops fileName state now).observations := by
    simp [RuntimeEvidence.merged]
  refine unblocked_of_unseen hlower rfl ?_ rfl hname hne hruntime hroutable hcool hfail
  simp [candidateOf]

end

/-- Admission honours a refusal of the ladder exactly when some running cooldown of the
file is under a key it looks up itself, or when other facts drop the route. -/
theorem admission_honours_iff {cfg : LadderConfig} (hlower : cfg.ops.lower "" = "") (state : LadderState)
    {routeId : String} (hnonblank : strip routeId ≠ "") (row : InventoryRow) (now : Time) :
    AdmissionHonours cfg state routeId row now ↔
      dispatchBlocker cfg state state.cooldowns (none : Option (Sections Unit)) routeId now = none ∨
        Unroutable cfg.ops routeId row ∨ SeenCooldown cfg.ops state routeId row now ∨
        SeenFailure cfg.ops state routeId now := by
  constructor
  · intro h
    by_contra hno
    simp only [not_or] at hno
    obtain ⟨hrefused,hroutable,hcool,hfail⟩ := hno
    obtain ⟨catalog,connections,s,hrow,hs,hin⟩ :=
      contains_of_unseen "ladder.json" hlower hnonblank hroutable hcool hfail
    have hout := h hrefused catalog connections {} {now := now} "ladder.json" s hrow rfl hs
    rw [hin] at hout
    cases hout
  · rintro hcond hrefused catalog connections other opts fileName s hrow rfl hs
    exact not_contains_of_blocked hrow hs (hcond.resolve_left hrefused)

def claudeLadder : LadderConfig where
  ops := epochText
  rows := .ofList [("cc/a",{ownedBy := "claude"}),("cc/b",{ownedBy := "claude"})]
  fresh := ⟨seconds 21600,by decide,by decide⟩

def exhaustedClaude : LadderState :=
  Eligibility.recordFailure claudeLadder {} "cc/a" ⟨"quota_exhausted",0,.provider⟩ 0

theorem admission_honours_own_route : "cc/a" ≠ "" ∧
    AdmissionHonours claudeLadder exhaustedClaude "cc/a" {ownedBy := "claude"} (seconds 1) := by
  refine ⟨by decide,(admission_honours_iff (by decide) exhaustedClaude (by decide) _ _).mpr ?_⟩
  refine .inr (.inr (.inl ⟨("route:cc/a",⟨seconds 3600,"quota_exhausted"⟩),by decide +kernel,by decide,"route:cc/a",
    by decide +kernel,.inl (by decide +kernel)⟩))

/-- The sibling route is refused under the pool's key and admitted all the same. -/
theorem pool_cooldown_not_honoured :
    dispatchBlocker claudeLadder exhaustedClaude exhaustedClaude.cooldowns (none : Option (Sections Unit)) "cc/b"
      (seconds 1) = some "pool:claude" ∧
    ¬ AdmissionHonours claudeLadder exhaustedClaude "cc/b" {ownedBy := "claude"} (seconds 1) := by
  refine ⟨by decide +kernel,fun h => ?_⟩
  obtain ⟨s,hs,hrecords⟩ := admit_ok epochText [⟨some "cc/b",{ownedBy := "claude"}⟩] [plainAccount "claude"]
    ((evidenceFromLadderState epochText "ladder.json" exhaustedClaude (seconds 1)).merged {}) {now := seconds 1}
  have hout := h (by decide +kernel) _ _ {} {now := seconds 1} "ladder.json" s rfl rfl hs
  have hin : s.contains epochText "cc/b" = true := by
    unfold AdmittedSet.contains ids
    rw [hrecords]
    decide +kernel
  exact absurd (hin.symm.trans hout) (by decide)

end Verdict.Admission

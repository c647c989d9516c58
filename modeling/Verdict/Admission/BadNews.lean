import Verdict.Admission.Requirements

/-! # Bad news about a route

One more negative observation can take evidence away from a route by sibling suppression alone,
and give it any by leaving the headroom unknown alone. The suppression is meant for exhausted and
cooling accounts, but it sets aside all provider observations of such an account, also those that
say the account is not authorized.
-/
namespace Verdict.Admission
open HealthCache (Time)
open List (mem_append mem_filter ne_nil_of_mem)

def RuntimeObservation.Negative (o : RuntimeObservation) : Prop :=
  o.state = .exhausted ∨ o.state = .cooldown ∨ o.state = .unauthorized ∨ o.state = .unhealthy

namespace Candidate
variable (ops : TextOps) (q : Candidate)

/-- The input with one more observation, behind the first `i`. -/
def observing (i : ℕ) (o : RuntimeObservation) : Candidate :=
  { q with runtime := { q.runtime with
    observations := q.runtime.observations.take i ++ o :: q.runtime.observations.drop i } }

/-- The observation is under a key that the route's provider observations are looked up by. -/
def AboutProvider (o : RuntimeObservation) : Prop :=
  ∃ name, (name = q.owned ops ∨ name = q.namePrefix ops) ∧ name ≠ "" ∧ o.key = "provider:" ++ name

structure Reaches (o : RuntimeObservation) : Prop where
  about : q.AboutProvider ops o
  inScope : q.inScope ops o = true
  unrefuted : q.refuted ops o = false

def Sheltered : Prop := q.accountBound ops = false ∧ q.viableAccounts ops ≠ []

def Fit : Prop := q.capabilityDrop ops = none ∧ q.policyDrop ops = none

structure AdmitsOn (es : List RuntimeObservation) : Prop where
  routable : q.opaqueDrop ops = none ∧ q.accountDrop ops = none ∧ q.statusDrop ops = none ∧ q.windowDrop ops = none
  route : ∀ e ∈ q.routeObs ops, ¬ e.Negative
  provider : ∀ e ∈ es, e.state ≠ .unauthorized ∧ suppressible e = false
  fit : (∃ e ∈ q.routeObs ops ++ es, headroomUnknown e = true) ∨ q.Fit ops

/-- Exhaustion of an account that is not authorized, beside a viable sibling: without the
observations of that account the route is admitted. -/
structure Absolves (o : RuntimeObservation) : Prop where
  reaches : q.Reaches ops o
  suppressible : suppressible o = true
  unbound : q.accountBound ops = false
  account : o.accountId ≠ none
  sibling : ∃ a ∈ q.viableAccounts ops, o.accountId ≠ some a
  lockedOut : ∃ e ∈ q.providerObs ops, e.state = .unauthorized ∧ e.accountId = o.accountId
  others : q.AdmitsOn ops ((q.providerObs ops).filter fun e => e.accountId ≠ o.accountId)

/-- An unhealthy provider that is said to have unknown headroom: the route is admitted for a
bounded confirmation, in front of the rungs that would drop it. -/
structure Excuses (o : RuntimeObservation) : Prop where
  reaches : q.Reaches ops o
  unhealthy : o.state = .unhealthy
  headroom : headroomUnknown o = true
  kept : q.Sheltered ops → ∀ a, o.accountId = some a → a ∉ q.badAccounts ops
  unblocked : q.Unblocked ops
  known : ¬ q.HeadroomUnknown ops
  unfit : ¬ q.Fit ops

variable {ops q}
variable {e : RuntimeObservation}

theorem suppressible_eq_false : suppressible e = false ↔ e.state ≠ .exhausted ∧ e.state ≠ .cooldown := by
  simp [suppressible]

theorem admitsOn_congr {es fs : List RuntimeObservation} (h : ∀ e, e ∈ es ↔ e ∈ fs) (hes : q.AdmitsOn ops es) :
    q.AdmitsOn ops fs := by
  refine ⟨hes.routable,hes.route,fun e he => hes.provider e ((h e).mpr he),hes.fit.imp_left ?_⟩
  rintro ⟨e,he,hunknown⟩
  exact ⟨e,(mem_append.mp he).elim (fun hroute => List.mem_append_left _ hroute)
    (fun hprovider => List.mem_append_right _ ((h e).mp hprovider)),hunknown⟩

theorem unblocked_iff : q.Unblocked ops ↔ (q.opaqueDrop ops = none ∧ q.accountDrop ops = none ∧ q.statusDrop ops = none ∧
    q.windowDrop ops = none) ∧ (∀ e ∈ q.routeObs ops, ¬ e.Negative) ∧
    ∀ e ∈ q.providerObs ops, e.state ≠ .unauthorized ∧ suppressible e = false := by
  rw [← evidenceDrop_eq_none]
  unfold evidenceDrop
  simp only [Option.orElse_eq_orElse,Option.orElse_eq_or,Option.or_eq_none_iff,unauthorizedDrop_eq_none,
    unhealthyDrop_eq_none,unavailableDrop_eq_none,suppressible_eq_false]
  constructor
  · rintro ⟨hhidden,haccount,hstatus,hwindow,hauth,hhealth,havail⟩
    refine ⟨⟨hhidden,haccount,hstatus,hwindow⟩,fun e he hneg => ?_,fun e he => ?_⟩
    · have hmem : e ∈ q.evidence ops := List.mem_append_left _ he
      rcases hneg with hneg | hneg | hneg | hneg
      · exact (havail e hmem).1 hneg
      · exact (havail e hmem).2 hneg
      · exact hauth e hmem hneg
      · exact hhealth e he hneg
    · have hmem : e ∈ q.evidence ops := List.mem_append_right _ he
      exact ⟨hauth e hmem,havail e hmem⟩
  · rintro ⟨⟨hhidden,haccount,hstatus,hwindow⟩,hroute,hprovider⟩
    refine ⟨hhidden,haccount,hstatus,hwindow,fun e he => ?_,fun e he hneg => hroute e he (.inr (.inr (.inr hneg))),
      fun e he => ?_⟩
    · rcases mem_append.mp he with he | he
      · exact fun hneg => hroute e he (.inr (.inr (.inl hneg)))
      · exact (hprovider e he).1
    · rcases mem_append.mp he with he | he
      · exact ⟨fun hneg => hroute e he (.inl hneg),fun hneg => hroute e he (.inr (.inl hneg))⟩
      · exact (hprovider e he).2

/-- `_judge` admits when nothing blocks the route and it is fit or of unknown headroom. -/
theorem admitted_iff : (q.judge ops).admitted = true ↔ q.AdmitsOn ops (q.providerObs ops) := by
  by_cases hblocked : q.Unblocked ops
  · obtain ⟨hroutable,hroute,hprovider⟩ := unblocked_iff.mp hblocked
    by_cases hunknown : q.HeadroomUnknown ops
    · exact iff_of_true (judge_of_headroomUnknown hblocked hunknown) ⟨hroutable,hroute,hprovider,.inl hunknown⟩
    · have hfit : (q.judge ops).admitted = true ↔ q.Fit ops := by
        unfold judge Fit
        rw [evidenceDrop_eq_none.mpr hblocked,unknownSubscription_eq_none.mpr hunknown]
        cases hcap : q.capabilityDrop ops with
        | some record => simp [capabilityDrop_drops record hcap]
        | none =>
          cases hpolicy : q.policyDrop ops with
          | some record => simp [policyDrop_drops record hpolicy]
          | none =>
            simp only [Option.orElse_eq_orElse,Option.orElse_none,Option.getD_none,and_self,iff_true]
            unfold admission
            split <;> rfl
      rw [hfit]
      exact ⟨fun h => ⟨hroutable,hroute,hprovider,.inr h⟩,fun h => h.fit.resolve_left hunknown⟩
  · refine iff_of_false (by simp [judge_of_blocked hblocked]) fun h => hblocked ?_
    exact unblocked_iff.mpr ⟨h.routable,h.route,h.provider⟩

/-! ### The evidence with one more observation -/

section
variable {i : ℕ} {o : RuntimeObservation}
variable {e : RuntimeObservation}

theorem mem_observing :
    e ∈ (q.observing i o).runtime.observations ↔ e ∈ q.runtime.observations ∨ e = o := by
  have hsplit : e ∈ q.runtime.observations ↔ e ∈ q.runtime.observations.take i ∨ e ∈ q.runtime.observations.drop i := by
    rw [← mem_append,List.take_append_drop]
  rw [hsplit]
  simp only [observing,mem_append,List.mem_cons]
  tauto

theorem recordedProviderObs_about :
    e ∈ q.recordedProviderObs ops ↔ e ∈ q.runtime.observations ∧ q.AboutProvider ops e := by
  rw [mem_recordedProviderObs]
  constructor
  · rintro ⟨name,hname,hne,he,hkey⟩
    exact ⟨he,name,hname,hne,hkey⟩
  · rintro ⟨he,name,hname,hne,hkey⟩
    exact ⟨name,hname,hne,he,hkey⟩

theorem mem_recordedRouteObs : e ∈ q.recordedRouteObs ops ↔
    (e ∈ q.runtime.observations ∧ e.key = "route:" ++ q.routeId) ∧
      (decide (e.state ≠ .healthy) || e.untilAt.isNone || (e.untilAt.bind ops.parseIso).any (q.now < ·)) = true := by
  unfold recordedRouteObs RuntimeEvidence.forKey
  rw [mem_filter,mem_filter,decide_eq_true_eq]

theorem lastSuccess_observing (ho : o.Negative) : (q.observing i o).lastSuccess ops = q.lastSuccess ops := by
  have hnone : ¬ ((o.state = .healthy ∨ o.state = .successHint) ∧ o.category ≠ "passive_success") := by
    rcases ho with h | h | h | h <;> simp [h]
  have hsplit : ∀ g : RuntimeObservation → Option Time, g o = none →
      (q.observing i o).runtime.observations.filterMap g = q.runtime.observations.filterMap g := by
    intro g hg
    have hall := congrArg (List.filterMap g) (List.take_append_drop i q.runtime.observations)
    rw [← hall,List.filterMap_append]
    simp only [observing,List.filterMap_append,List.filterMap_cons,hg]
  unfold lastSuccess recordedRouteObs RuntimeEvidence.forKey
  simp only [List.filterMap_filter]
  exact congrArg List.max? (hsplit _ (by simp [hnone]))

theorem gatewayObs_observing (ho : o.Negative) : (q.observing i o).gatewayObs ops = q.gatewayObs ops := by
  have hone : (q.observing i o).gatewayObservation ops = q.gatewayObservation ops := by
    funext c
    unfold gatewayObservation
    rw [lastSuccess_observing ho]
    rfl
  unfold gatewayObs
  rw [hone]
  rfl

theorem refuted_observing (ho : o.Negative) : (q.observing i o).refuted ops = q.refuted ops := by
  funext e
  unfold refuted
  rw [gatewayObs_observing ho]
  rfl

theorem mem_routeObs_observing (ho : o.Negative) :
    e ∈ (q.observing i o).routeObs ops ↔ e ∈ q.routeObs ops ∨ (e = o ∧ o.key = "route:" ++ q.routeId) := by
  have hstate : o.state ≠ .healthy := by
    rcases ho with h | h | h | h <;> simp [h]
  unfold routeObs
  rw [mem_append,mem_append,mem_recordedRouteObs,mem_recordedRouteObs,gatewayObs_observing ho,mem_observing]
  simp only [show (q.observing i o).routeId = q.routeId from rfl,show (q.observing i o).now = q.now from rfl]
  constructor
  · rintro (⟨⟨hold | rfl,hkey⟩,hcurrent⟩ | hgateway)
    · exact .inl (.inl ⟨⟨hold,hkey⟩,hcurrent⟩)
    · exact .inr ⟨rfl,hkey⟩
    · exact .inl (.inr hgateway)
  · rintro ((⟨⟨hold,hkey⟩,hcurrent⟩ | hgateway) | ⟨rfl,hkey⟩)
    · exact .inl ⟨⟨.inl hold,hkey⟩,hcurrent⟩
    · exact .inr hgateway
    · exact .inl ⟨⟨.inr rfl,hkey⟩,by simp [hstate]⟩

theorem mem_scopedProviderObs_observing (ho : o.Negative) :
    e ∈ (q.observing i o).scopedProviderObs ops ↔ e ∈ q.scopedProviderObs ops ∨ (e = o ∧ q.Reaches ops o) := by
  unfold scopedProviderObs providerObsAll
  simp only [mem_filter,mem_append,recordedProviderObs_about,gatewayObs_observing ho,refuted_observing ho,
    mem_observing,Bool.not_eq_true']
  have habout : (q.observing i o).AboutProvider ops e = q.AboutProvider ops e := rfl
  have hscope : (q.observing i o).inScope ops e = q.inScope ops e := rfl
  have hprovider : (q.observing i o).provider ops = q.provider ops := rfl
  rw [habout,hscope,hprovider]
  constructor
  · rintro ⟨⟨⟨hold | rfl,hkey⟩ | hgateway,hin⟩,hun⟩
    · exact .inl ⟨⟨.inl ⟨hold,hkey⟩,hin⟩,hun⟩
    · exact .inr ⟨rfl,hkey,hin,hun⟩
    · exact .inl ⟨⟨.inr hgateway,hin⟩,hun⟩
  · rintro (⟨⟨⟨hold,hkey⟩ | hgateway,hin⟩,hun⟩ | ⟨rfl,hreach⟩)
    · exact ⟨⟨.inl ⟨.inl hold,hkey⟩,hin⟩,hun⟩
    · exact ⟨⟨.inr hgateway,hin⟩,hun⟩
    · exact ⟨⟨.inl ⟨.inr rfl,hreach.about⟩,hreach.inScope⟩,hreach.unrefuted⟩

end

variable {a : String}

theorem mem_badAccounts :
    a ∈ q.badAccounts ops ↔ a ≠ "" ∧ ∃ e ∈ q.scopedProviderObs ops, suppressible e = true ∧ e.accountId = some a := by
  simp only [badAccounts,mem_filter,List.mem_filterMap,decide_eq_true_eq,and_assoc]
  exact and_comm

theorem mem_viableAccounts :
    a ∈ q.viableAccounts ops ↔ (a ∈ q.activeAccounts ops ∧ (q.bound ops).any (fun c => decide (c.account = a) &&
      connectionIsViable ops c q.routeId q.now) = true) ∧ a ∉ q.badAccounts ops := by
  simp only [viableAccounts,mem_filter,Bool.and_eq_true,Bool.not_eq_true',List.contains_eq_mem,decide_eq_false_iff_not]
  tauto

theorem mem_providerObs : e ∈ q.providerObs ops ↔ e ∈ q.scopedProviderObs ops ∧
    (q.Sheltered ops → ∀ a, e.accountId = some a → a ∉ q.badAccounts ops) := by
  have hall : e.accountId.all (fun a => !((q.badAccounts ops).contains a)) = true ↔
      ∀ a, e.accountId = some a → a ∉ q.badAccounts ops := by
    cases e.accountId <;> simp
  unfold providerObs Sheltered
  split
  · rename_i hsheltered
    rw [mem_filter,hall]
    simp only [Bool.and_eq_true,Bool.not_eq_true',List.isEmpty_eq_false_iff] at hsheltered
    exact and_congr_right fun _ => ⟨fun h _ => h,fun h => h hsheltered⟩
  · rename_i hopen
    simp only [Bool.and_eq_true,Bool.not_eq_true',List.isEmpty_eq_false_iff] at hopen
    exact ⟨fun h => ⟨h,fun hsheltered => absurd hsheltered hopen⟩,And.left⟩

theorem activeAccounts_ne (h : a ∈ q.activeAccounts ops) : a ≠ "" := by
  simp only [activeAccounts] at h
  split at h
  · rename_i hencoded
    rw [List.mem_singleton.mp h]
    exact hencoded.2
  · exact of_decide_eq_true (mem_filter.mp h).2

theorem Reaches.account_ne {o : RuntimeObservation} (h : q.Reaches ops o) (ha : o.accountId = some a) : a ≠ "" := by
  have hscope := h.inScope
  simp only [Candidate.inScope,ha,Option.all_some,Bool.and_eq_true,decide_eq_true_eq] at hscope
  exact activeAccounts_ne hscope.1.1

/-! ### Two judgements -/

section
variable {i : ℕ} {o : RuntimeObservation}

def Damns (ops : TextOps) (q : Candidate) (o : RuntimeObservation) (a : String) : Prop :=
  q.Reaches ops o ∧ suppressible o = true ∧ o.accountId = some a

variable {a : String}

theorem mem_badAccounts_observing (ho : o.Negative) :
    a ∈ (q.observing i o).badAccounts ops ↔ a ∈ q.badAccounts ops ∨ q.Damns ops o a := by
  simp only [mem_badAccounts,mem_scopedProviderObs_observing ho]
  constructor
  · rintro ⟨hne,e,hold | ⟨rfl,hreach⟩,hsup,ha⟩
    · exact .inl ⟨hne,e,hold,hsup,ha⟩
    · exact .inr ⟨hreach,hsup,ha⟩
  · rintro (⟨hne,e,he,hsup,ha⟩ | ⟨hreach,hsup,ha⟩)
    · exact ⟨hne,e,.inl he,hsup,ha⟩
    · exact ⟨hreach.account_ne ha,o,.inr ⟨rfl,hreach⟩,hsup,ha⟩

theorem mem_viableAccounts_observing (ho : o.Negative) :
    a ∈ (q.observing i o).viableAccounts ops ↔ a ∈ q.viableAccounts ops ∧ ¬ q.Damns ops o a := by
  rw [mem_viableAccounts,mem_viableAccounts,mem_badAccounts_observing ho,not_or]
  exact and_assoc.symm

theorem sheltered_iff : q.Sheltered ops ↔ q.accountBound ops = false ∧ ∃ a, a ∈ q.viableAccounts ops :=
  and_congr_right fun _ => ⟨List.exists_mem_of_ne_nil _,fun ⟨_,h⟩ => ne_nil_of_mem h⟩

theorem sheltered_observing (ho : o.Negative) : (q.observing i o).Sheltered ops ↔
    q.accountBound ops = false ∧ ∃ a ∈ q.viableAccounts ops, ¬ q.Damns ops o a := by
  rw [sheltered_iff]
  simp only [mem_viableAccounts_observing ho]
  exact Iff.rfl

variable {e : RuntimeObservation}

theorem mem_providerObs_observing (ho : o.Negative) :
    e ∈ (q.observing i o).providerObs ops ↔ (e ∈ q.scopedProviderObs ops ∨ (e = o ∧ q.Reaches ops o)) ∧
      ((q.observing i o).Sheltered ops → ∀ a, e.accountId = some a → a ∉ q.badAccounts ops ∧ ¬ q.Damns ops o a) := by
  rw [mem_providerObs,mem_scopedProviderObs_observing ho]
  simp only [mem_badAccounts_observing ho,not_or]

theorem sheltered_observing_of (ho : o.Negative) (h : ∀ a, ¬ q.Damns ops o a) :
    (q.observing i o).Sheltered ops ↔ q.Sheltered ops := by
  rw [sheltered_observing ho,sheltered_iff]
  simp only [h,not_false_eq_true,and_true]

theorem mem_providerObs_observing_of (ho : o.Negative) (h : ∀ a, ¬ q.Damns ops o a) {e : RuntimeObservation}
    : e ∈ (q.observing i o).providerObs ops ↔ e ∈ q.providerObs ops ∨
    (e = o ∧ q.Reaches ops o ∧ (q.Sheltered ops → ∀ a, o.accountId = some a → a ∉ q.badAccounts ops)) := by
  rw [mem_providerObs_observing ho,sheltered_observing_of ho h,mem_providerObs]
  simp only [h,not_false_eq_true,and_true]
  constructor
  · rintro ⟨hold | ⟨rfl,hreach⟩,hkept⟩
    · exact .inl ⟨hold,hkept⟩
    · exact .inr ⟨rfl,hreach,hkept⟩
  · rintro (⟨hold,hkept⟩ | ⟨rfl,hreach,hkept⟩)
    · exact ⟨.inl hold,hkept⟩
    · exact ⟨.inr ⟨rfl,hreach⟩,hkept⟩

theorem mem_providerObs_damned (ho : o.Negative) (h : q.Damns ops o a)
    (hbound : q.accountBound ops = false) (hsibling : ∃ b ∈ q.viableAccounts ops, o.accountId ≠ some b) :
    e ∈ (q.observing i o).providerObs ops ↔ e ∈ (q.providerObs ops).filter fun e => e.accountId ≠ o.accountId := by
  obtain ⟨hreach,hsup,ha⟩ := h
  obtain ⟨b,hb,hne⟩ := hsibling
  have hshelter : (q.observing i o).Sheltered ops := (sheltered_observing ho).mpr ⟨hbound,b,hb,fun hdamned => hne hdamned.2.2⟩
  have hold : q.Sheltered ops := ⟨hbound,ne_nil_of_mem hb⟩
  rw [mem_providerObs_observing ho,mem_filter,mem_providerObs,decide_eq_true_eq,ha]
  constructor
  · rintro ⟨hmem,hkept⟩
    have hother : e.accountId ≠ some a := fun hsame => (hkept hshelter a hsame).2 ⟨hreach,hsup,ha⟩
    refine ⟨⟨hmem.resolve_right ?_,fun _ c hc => (hkept hshelter c hc).1⟩,hother⟩
    rintro ⟨rfl,-⟩
    exact hother ha
  · rintro ⟨⟨hmem,hkept⟩,hother⟩
    refine ⟨.inl hmem,fun _ c hc => ⟨hkept hold c hc,fun hdamned => hother ?_⟩⟩
    rw [hc,← hdamned.2.2,ha]

theorem Reaches.key_ne (h : q.Reaches ops o) : o.key ≠ "route:" ++ q.routeId := by
  obtain ⟨name,-,-,hkey⟩ := h.about
  intro hroute
  have hlists := congrArg String.toList (hkey.symm.trans hroute)
  simp only [String.toList_append] at hlists
  have hhead := congrArg List.head? hlists
  cases hhead

theorem admitsOn_observing (ho : o.Negative) (hkey : o.key ≠ "route:" ++ q.routeId) {es : List RuntimeObservation} :
    (q.observing i o).AdmitsOn ops es ↔ q.AdmitsOn ops es := by
  have hroute : ∀ e, e ∈ (q.observing i o).routeObs ops ↔ e ∈ q.routeObs ops := by
    intro e
    rw [mem_routeObs_observing ho]
    exact or_iff_left fun h => hkey h.2
  constructor
  · intro h
    refine ⟨h.routable,fun e he => h.route e ((hroute e).mpr he),h.provider,h.fit.imp_left ?_⟩
    rintro ⟨e,he,hunknown⟩
    exact ⟨e,mem_append.mpr ((mem_append.mp he).imp_left (hroute e).mp),hunknown⟩
  · intro h
    refine ⟨h.routable,fun e he => h.route e ((hroute e).mp he),h.provider,h.fit.imp_left ?_⟩
    rintro ⟨e,he,hunknown⟩
    exact ⟨e,mem_append.mpr ((mem_append.mp he).imp_left (hroute e).mpr),hunknown⟩

theorem absolves_of (ho : o.Negative) (hbefore : ¬ q.AdmitsOn ops (q.providerObs ops))
    (hafter : q.AdmitsOn ops ((q.observing i o).providerObs ops)) (hreach : q.Reaches ops o)
    (hsup : suppressible o = true) : q.Absolves ops o := by
  have hgone : o ∉ (q.observing i o).providerObs ops := by
    intro hmem
    rw [(hafter.provider o hmem).2] at hsup
    cases hsup
  obtain ⟨hshelter,a,ha⟩ : (q.observing i o).Sheltered ops ∧ ∃ a, o.accountId = some a := by
    by_contra hno
    refine hgone ((mem_providerObs_observing ho).mpr ⟨.inr ⟨rfl,hreach⟩,fun hshelter a ha => ?_⟩)
    exact absurd ⟨hshelter,a,ha⟩ hno
  obtain ⟨hbound,b,hb,hother⟩ := (sheltered_observing ho).mp hshelter
  have hsibling : ∃ b ∈ q.viableAccounts ops, o.accountId ≠ some b := ⟨b,hb,fun hsame => hother ⟨hreach,hsup,hsame⟩⟩
  have hothers : q.AdmitsOn ops ((q.providerObs ops).filter fun e => e.accountId ≠ o.accountId) :=
    admitsOn_congr (fun e => mem_providerObs_damned ho ⟨hreach,hsup,ha⟩ hbound hsibling) hafter
  refine ⟨hreach,hsup,hbound,by rw [ha]; exact Option.some_ne_none a,hsibling,?_,hothers⟩
  -- otherwise the observations of the account change nothing
  by_contra hno
  refine hbefore ⟨hothers.routable,hothers.route,fun e he => ?_,hothers.fit.imp_left ?_⟩
  · by_cases hsame : e.accountId = o.accountId
    · refine ⟨fun hlocked => hno ⟨e,he,hlocked,hsame⟩,?_⟩
      by_contra hbad
      obtain ⟨hscoped,hkept⟩ := mem_providerObs.mp he
      refine hkept ⟨hbound,ne_nil_of_mem hb⟩ a (hsame.trans ha) (mem_badAccounts.mpr ⟨hreach.account_ne ha,e,hscoped,?_,hsame.trans ha⟩)
      exact Bool.not_eq_false _ ▸ hbad
    · exact hothers.provider e (mem_filter.mpr ⟨he,decide_eq_true hsame⟩)
  · rintro ⟨e,he,hunknown⟩
    exact ⟨e,mem_append.mpr ((mem_append.mp he).imp_right fun h => (mem_filter.mp h).1),hunknown⟩

theorem excuses_of (ho : o.Negative) (hbefore : ¬ q.AdmitsOn ops (q.providerObs ops))
    (hafter : q.AdmitsOn ops ((q.observing i o).providerObs ops)) (hsup : suppressible o = false) : q.Excuses ops o := by
  have hnone : ∀ a, ¬ q.Damns ops o a := by
    rintro a ⟨-,hbad,-⟩
    rw [hsup] at hbad
    cases hbad
  have hmem := fun e => @mem_providerObs_observing_of ops q i o ho hnone e
  by_cases hkept : q.Reaches ops o ∧ (q.Sheltered ops → ∀ a, o.accountId = some a → a ∉ q.badAccounts ops)
  · have hsubset : ∀ e ∈ q.providerObs ops, e.state ≠ .unauthorized ∧ suppressible e = false :=
      fun e he => hafter.provider e ((hmem e).mpr (.inl he))
    have hhere : o ∈ (q.observing i o).providerObs ops := (hmem o).mpr (.inr ⟨rfl,hkept⟩)
    have hunhealthy : o.state = .unhealthy := by
      obtain ⟨hexhausted,hcooldown⟩ := suppressible_eq_false.mp hsup
      exact ((ho.resolve_left hexhausted).resolve_left hcooldown).resolve_left (hafter.provider o hhere).1
    have hunfit : ¬ q.Fit ops := fun hfit => hbefore ⟨hafter.routable,hafter.route,hsubset,.inr hfit⟩
    have hknown : ¬ q.HeadroomUnknown ops := fun hunknown => hbefore ⟨hafter.routable,hafter.route,hsubset,.inl hunknown⟩
    obtain ⟨e,he,hunknown⟩ := hafter.fit.resolve_right hunfit
    have hself : e = o := by
      by_contra hne
      refine hknown ⟨e,mem_append.mpr ((mem_append.mp he).imp_right fun h => ?_),hunknown⟩
      exact ((hmem e).mp h).resolve_right fun hsame => hne hsame.1
    exact ⟨hkept.1,hunhealthy,hself ▸ hunknown,hkept.2,unblocked_iff.mpr ⟨hafter.routable,hafter.route,hsubset⟩,hknown,hunfit⟩
  · refine absurd (admitsOn_congr (fun e => (hmem e).trans (or_iff_left ?_)) hafter) hbefore
    rintro ⟨-,hreach⟩
    exact hkept hreach

theorem Absolves.admits (ho : o.Negative) (h : q.Absolves ops o) :
    (q.judge ops).admitted ≠ true ∧ ((q.observing i o).judge ops).admitted = true := by
  rw [Ne,admitted_iff,admitted_iff,admitsOn_observing ho h.reaches.key_ne]
  obtain ⟨a,ha⟩ := Option.ne_none_iff_exists'.mp h.account
  constructor
  · intro hadmits
    obtain ⟨e,he,hlocked,-⟩ := h.lockedOut
    exact (hadmits.provider e he).1 hlocked
  · exact admitsOn_congr (fun e => (mem_providerObs_damned ho ⟨h.reaches,h.suppressible,ha⟩ h.unbound h.sibling).symm) h.others

theorem Excuses.admits (ho : o.Negative) (h : q.Excuses ops o) :
    (q.judge ops).admitted ≠ true ∧ ((q.observing i o).judge ops).admitted = true := by
  rw [Ne,admitted_iff,admitted_iff,admitsOn_observing ho h.reaches.key_ne]
  obtain ⟨hroutable,hroute,hprovider⟩ := unblocked_iff.mp h.unblocked
  have hsup : suppressible o = false := by simp [suppressible,h.unhealthy]
  have hnone : ∀ a, ¬ q.Damns ops o a := by
    rintro a ⟨-,hbad,-⟩
    rw [hsup] at hbad
    cases hbad
  refine ⟨fun hadmits => hadmits.fit.elim h.known h.unfit,hroutable,hroute,fun e he => ?_,.inl ⟨o,?_,h.headroom⟩⟩
  · rcases (mem_providerObs_observing_of ho hnone).mp he with he | ⟨rfl,-⟩
    · exact hprovider e he
    · exact ⟨by simp [h.unhealthy],hsup⟩
  · exact List.mem_append_right _ ((mem_providerObs_observing_of ho hnone).mpr (.inr ⟨rfl,h.reaches,h.kept⟩))

end

/-- One more negative observation admits no route, unless it exhausts an unauthorized account
beside a viable sibling, or says that an unhealthy provider has unknown headroom. -/
theorem bad_news_never_admits_iff (ops : TextOps) (q : Candidate) (i : ℕ) (o : RuntimeObservation)
    (h : o.Negative) : ((q.judge ops).admitted = false → ((q.observing i o).judge ops).admitted = false) ↔ ¬
    q.Absolves ops o ∧ ¬ q.Excuses ops o := by
  constructor
  · intro hkept
    have hno : ¬ ((q.judge ops).admitted ≠ true ∧ ((q.observing i o).judge ops).admitted = true) := by
      rintro ⟨hbefore,hafter⟩
      rw [hkept (Bool.not_eq_true _ ▸ hbefore)] at hafter
      cases hafter
    exact ⟨fun habsolves => hno (habsolves.admits h),fun hexcuses => hno (hexcuses.admits h)⟩
  · rintro ⟨habsolves,hexcuses⟩ hbefore
    by_contra hadmitted
    have hafter := admitted_iff.mp (Bool.not_eq_false _ ▸ hadmitted)
    have hrefused : ¬ q.AdmitsOn ops (q.providerObs ops) := by
      rw [← admitted_iff,hbefore]
      exact Bool.false_ne_true
    have hkey : o.key ≠ "route:" ++ q.routeId :=
      fun hkey => hafter.route o ((mem_routeObs_observing h).mpr (.inr ⟨rfl,hkey⟩)) h
    rw [admitsOn_observing h hkey] at hafter
    cases hsup : suppressible o with
    | false => exact hexcuses (excuses_of h hrefused hafter hsup)
    | true =>
      by_cases hreach : q.Reaches ops o
      · exact habsolves (absolves_of h hrefused hafter hreach hsup)
      · refine hrefused (admitsOn_congr (fun e => ?_) hafter)
        rw [mem_providerObs_observing_of h fun a hdamned => hreach hdamned.1]
        exact or_iff_left fun hself => hreach hself.2.1

def lockedAccount : Candidate where
  routeId := "openai/gpt-4"
  row := {ownedBy := "openai"}
  connections := [{provider := "openai", id := "a", isActive := true, testStatus := "active"},
    {provider := "openai", id := "b", isActive := true, testStatus := "active"}]
  runtime := { observations := [{
    key := "provider:openai", state := .unauthorized, category := "lockout", source := "ladder", accountId := some "a" }] }
  now := 0

def exhaustedAccount : RuntimeObservation where
  key := "provider:openai"
  state := .exhausted
  category := "quota_exhausted"
  source := "ladder"
  accountId := some "a"

theorem exhaustion_lifts_lock : ¬ ∀ (ops : TextOps) (q : Candidate) (i : ℕ) (o : RuntimeObservation), o.Negative →
    (q.judge ops).admitted = false → ((q.observing i o).judge ops).admitted = false := by
  intro hall
  have hafter := hall epochText lockedAccount 1 exhaustedAccount (.inl rfl) (by decide +kernel)
  exact absurd hafter (by decide +kernel)

theorem unhealthy_keeps_lock :
    ((lockedAccount.observing 1 {exhaustedAccount with state := .unhealthy}).judge epochText).admitted = false := by
  refine (bad_news_never_admits_iff epochText lockedAccount 1 {exhaustedAccount with state := .unhealthy}
    (.inr (.inr (.inr rfl)))).mpr ⟨fun h => ?_,fun h => ?_⟩ (by decide +kernel)
  · exact absurd h.suppressible (by decide)
  · exact absurd h.headroom (by decide +kernel)

end Candidate
end Verdict.Admission

import Verdict.Basics.Raising
import Verdict.Basics.Run
import Verdict.HealthCache.Entry

/-! # Agentic capability of a route

Whether a route is qualified for agentic work rests on the evidence of a session, when there is
any, and else on the last agentic probe. A failed agentic probe that did answer writes its time
into both. A route without session evidence keeps that time only in the fields of the probe, which
a healthy single call empties; from then on an older pass finds nothing it would be older than.
-/
namespace Verdict.HealthCache

def agenticProbeTtl : ℤ := seconds 86400

inductive CapabilitySource
  | sessionEvidence | agenticProbe
  deriving DecidableEq

structure AgenticCapability where
  source : CapabilitySource
  childId : Option String
  checkedAt : Option Time
  qualified : Bool
  ttl : ℤ
  ledger : Option String

def HealthEntry.latestAgentic (e : HealthEntry) : Option Time := e.sessionAgenticAt.or e.agenticCheckedAt

def HealthEntry.agenticPassed (e : HealthEntry) : Bool :=
  if e.sessionAgenticAt.isSome then e.sessionAgenticOk = some true else e.agenticOk

/-- `agentic_capability`; `configured` is the life of session proof from the environment, zero
when it cannot be read. -/
def agenticCapability (configured : ℤ) (entry : Option HealthEntry) (now : Time) : AgenticCapability :=
  let session := entry.any fun e => e.sessionAgenticAt.isSome
  let checked := entry.bind HealthEntry.latestAgentic
  let ttl := if session then max 0 configured else agenticProbeTtl
  { source := if session then .sessionEvidence else .agenticProbe
    childId := if session then entry.bind HealthEntry.agenticChildId else none
    checkedAt := checked
    qualified := entry.any HealthEntry.agenticPassed && checked.any fun c => decide (0 ≤ now - c ∧ now - c ≤ ttl)
    ttl := ttl
    ledger := if session then entry.bind HealthEntry.agenticSource else none }

/-- What can be recorded of a route. -/
inductive Observation
  | record (result : ProbeResult) (now : Time)
  | liveness (latencyMs : Option ℕ) (pool capacityEvidence : Option String) (identity : String) (now : Time)
  | traffic (observed now : Time) (source : String) (latencyMs : Option ℕ) (pool capacityEvidence : Option String)
  | failure (observed now : Time) (httpStatus : Option ℕ) (category : Category) (source : String)
  | evidence (passed : Bool) (at_ : Time) (source : String) (childId : Option String)

namespace Observation

def pass : Observation → Option Time
  | .record result now => if result.healthy ∧ result.probeClass = .agentic ∧ result.agenticOk then some now else none
  | .evidence passed at_ _ _ => if passed then some at_ else none
  | _ => none

section
variable (fresh : EvidenceFresh) (route : String)

def stored (previous : Option HealthEntry) : Observation → Option HealthEntry
  | .record result now => (recordEntry fresh route previous result now).toOption
  | .liveness latencyMs pool capacityEvidence identity now =>
    (livenessEntry fresh route previous latencyMs pool capacityEvidence identity now).toOption
  | .traffic observed now source latencyMs pool capacityEvidence =>
    (passiveTrafficEntry fresh route previous observed now source latencyMs pool capacityEvidence).toOption.join
  | .failure observed now httpStatus category source =>
    (passiveFailureEntry fresh route previous observed now httpStatus category source).toOption.join
  | .evidence passed at_ source childId => agenticEvidenceEntry route previous passed at_ source childId

def step (e : HealthEntry) (o : Observation) : Option HealthEntry := some ((o.stored fresh route (some e)).getD e)

end

/-- A pass that is not newer than the failed probe at `t` meets an entry that still knows of
one: session evidence for the pass of a probe, any later examination for that of a session. -/
def Remembered (t : Time) (e : HealthEntry) : Observation → Prop
  | .record result now => result.healthy = true ∧ result.probeClass = .agentic ∧ result.agenticOk = true → now ≤ t →
    e.sessionAgenticAt ≠ none
  | .evidence passed at_ _ _ => passed = true → at_ ≤ t → ∃ s, e.latestAgentic = some s ∧ at_ ≤ s
  | _ => True

end Observation

def HealthEntry.Unproven (e : HealthEntry) : Prop := e.agenticPassed = true → e.latestAgentic = none

theorem HealthEntry.Unproven.unqualified {e : HealthEntry} (h : e.Unproven) (configured : ℤ) (now : Time) :
    (agenticCapability configured (some e) now).qualified = false := by
  simp only [agenticCapability,Option.any_some,Option.bind_some,Bool.and_eq_false_imp]
  intro hpassed
  rw [h hpassed]
  rfl

theorem unproven_of_session {e : HealthEntry} (hs : e.sessionAgenticAt ≠ none) (hno : e.sessionAgenticOk ≠ some true) :
    e.Unproven := by
  intro hpassed
  rw [HealthEntry.agenticPassed,if_pos (Option.isSome_iff_ne_none.mpr hs)] at hpassed
  exact absurd (decide_eq_true_eq.mp hpassed) hno

theorem unproven_of_probe {e : HealthEntry} (hs : e.sessionAgenticAt = none)
    (hno : e.agenticOk = true → e.agenticCheckedAt = none) : e.Unproven := by
  intro hpassed
  rw [HealthEntry.agenticPassed,hs,Option.isSome_none,if_neg Bool.false_ne_true] at hpassed
  rw [HealthEntry.latestAgentic,hs,hno hpassed]
  rfl

theorem HealthEntry.Unproven.session {e : HealthEntry} (h : e.Unproven) (hs : e.sessionAgenticAt ≠ none) :
    e.sessionAgenticOk ≠ some true := by
  intro hok
  have hpassed : e.agenticPassed = true := by
    rw [HealthEntry.agenticPassed,if_pos (Option.isSome_iff_ne_none.mpr hs),hok]
    rfl
  exact hs (Option.or_eq_none_iff.mp (h hpassed)).1

theorem HealthEntry.Unproven.probe {e : HealthEntry} (h : e.Unproven) (hs : e.sessionAgenticAt = none)
    (hok : e.agenticOk = true) : e.agenticCheckedAt = none := by
  have hpassed : e.agenticPassed = true := by
    rw [HealthEntry.agenticPassed,hs,Option.isSome_none,if_neg Bool.false_ne_true,hok]
  exact (Option.or_eq_none_iff.mp (h hpassed)).2

structure SameAgentic (p e : HealthEntry) : Prop where
  sessionAt : e.sessionAgenticAt = p.sessionAgenticAt
  sessionOk : e.sessionAgenticOk = p.sessionAgenticOk
  ok : e.agenticOk = p.agenticOk
  checkedAt : e.agenticCheckedAt = p.agenticCheckedAt

theorem HealthEntry.Unproven.same {p e : HealthEntry} (h : p.Unproven) (hsame : SameAgentic p e) : e.Unproven := by
  unfold HealthEntry.Unproven HealthEntry.agenticPassed HealthEntry.latestAgentic
  rw [hsame.sessionAt,hsame.sessionOk,hsame.ok,hsame.checkedAt]
  exact h

section Recording
variable {fresh : EvidenceFresh} {route : String} {p e : HealthEntry} {result : ProbeResult} {current : Time}

def Revokes (result : ProbeResult) : Prop :=
  result.probeClass = .agentic ∧ result.chatOk = true ∧ result.agenticOk = false

instance (result : ProbeResult) : Decidable (Revokes result) := inferInstanceAs (Decidable (_ ∧ _ ∧ _))

theorem revokeSession_probe (result : ProbeResult) (current : Time) (e : HealthEntry) :
    (revokeSession result current e).agenticOk = e.agenticOk ∧
    (revokeSession result current e).agenticCheckedAt = e.agenticCheckedAt := by
  unfold revokeSession
  split
  · exact ⟨rfl,rfl⟩
  · split <;> exact ⟨rfl,rfl⟩

theorem revokeSession_session (result : ProbeResult) (current : Time) (e : HealthEntry) :
    ((revokeSession result current e).sessionAgenticAt = none ↔ e.sessionAgenticAt = none) ∧
    ((revokeSession result current e).sessionAgenticOk = some true → e.sessionAgenticOk = some true) := by
  unfold revokeSession
  split
  · exact ⟨Iff.rfl,id⟩
  · rename_i at_ hat
    split
    · exact ⟨iff_of_false (Option.some_ne_none _) (by rw [hat]; exact Option.some_ne_none _),fun h => nomatch h⟩
    · exact ⟨Iff.rfl,id⟩

variable {s : Time}

theorem revokeSession_revokes (hr : Revokes result) (hs : e.sessionAgenticAt = some s) (hle : s ≤ current) :
    (revokeSession result current e).sessionAgenticOk = some false := by
  obtain ⟨hclass,hchat,hno⟩ := hr
  unfold revokeSession
  rw [hs]
  simp only [hclass,hchat,hno,hle,Bool.false_eq_true,not_false_eq_true,and_self,if_true]

variable {previous : Option HealthEntry}

/-- An entry that `record` stores is one of two, with the session evidence carried over and
perhaps revoked. -/
theorem recordEntry_stored (h : recordEntry fresh route previous result current = .ok e) :
    ∃ base, e = revokeSession result current base
      ∧ base.sessionAgenticAt = previous.bind HealthEntry.sessionAgenticAt
      ∧ base.sessionAgenticOk = previous.bind HealthEntry.sessionAgenticOk
      ∧ (result.healthy = true ∧ base.agenticOk = (agenticFields previous result current).2.1
          ∧ base.agenticCheckedAt = (agenticFields previous result current).2.2
        ∨ (base.agenticOk = true → preserveAgentic previous result current = true)) := by
  simp only [recordEntry] at h
  split at h
  · cases h
  split at h
  · rename_i hhealthy
    cases h
    exact ⟨_,rfl,rfl,rfl,.inl ⟨hhealthy,rfl,rfl⟩⟩
  · split at h
    · cases h
    · cases h
      refine ⟨_,rfl,rfl,rfl,.inr fun hok => ?_⟩
      simp only [carryOver,failureEntry] at hok
      split at hok
      · assumption
      · cases hok

theorem preserveAgentic_true (h : preserveAgentic previous result current = true) :
    result.chatOk = false ∧ ∃ p, previous = some p ∧ p.agenticOk = true ∧ p.agenticCheckedAt ≠ none := by
  cases previous with
  | none => cases h
  | some p =>
    simp only [preserveAgentic] at h
    split at h
    · cases h
    · rename_i hat
      simp only [Bool.and_eq_true,Bool.not_eq_true'] at h
      exact ⟨h.1.1.2,p,rfl,h.1.1.1.1,by rw [hat]; exact Option.some_ne_none _⟩

theorem agenticFields_proof {c : Time} (hok : (agenticFields (some p) result current).2.1 = true)
    (hat : (agenticFields (some p) result current).2.2 = some c) : p.agenticOk = true ∧ p.agenticCheckedAt =
    some c ∨ result.probeClass = .agentic ∧ result.agenticOk = true := by
  simp only [agenticFields] at hok hat
  split at hok
  · rename_i hkeep
    rw [if_pos hkeep] at hat
    exact .inl ⟨hok,hat⟩
  · rename_i hnew
    rw [if_neg hnew] at hat
    split at hok
    · rename_i hcarry
      rw [if_pos hcarry] at hat
      exact .inl ⟨hcarry.1,hat⟩
    · rename_i hown
      rw [if_neg hown] at hat
      right
      refine ⟨?_,hok⟩
      by_contra hclass
      rw [if_neg hclass] at hat
      cases hat

theorem recordEntry_revokes (h : recordEntry fresh route previous result current = .ok e)
    (hr : Revokes result) (hbefore : ∀ s, previous.bind HealthEntry.sessionAgenticAt = some s → s ≤ current) :
    e.Unproven := by
  obtain ⟨base,rfl,hat,-,hcases⟩ := recordEntry_stored h
  obtain ⟨hclass,hchat,hno⟩ := hr
  have hanswered : preserveAgentic previous result current = false := by
    refine Bool.eq_false_iff.mpr fun hkeep => ?_
    rw [(preserveAgentic_true hkeep).1] at hchat
    cases hchat
  cases hs : previous.bind HealthEntry.sessionAgenticAt with
  | some s =>
    have hrevoked := revokeSession_revokes ⟨hclass,hchat,hno⟩ (hat.trans hs) (hbefore s hs)
    refine unproven_of_session ?_ (by rw [hrevoked]; exact fun h => nomatch h)
    rw [Ne,(revokeSession_session result current base).1,hat,hs]
    exact Option.some_ne_none s
  | none =>
    refine unproven_of_probe ((revokeSession_session result current base).1.mpr (hat.trans hs)) fun hok => ?_
    rw [(revokeSession_probe result current base).1] at hok
    rcases hcases with ⟨-,hfield,-⟩ | hfield
    · have hown : (agenticFields previous result current).2.1 = false := by
        simp only [agenticFields,hanswered,hclass,hno,reduceCtorEq,and_false,Bool.false_eq_true,if_false]
        cases previous <;> rfl
      rw [hfield,hown] at hok
      cases hok
    · rw [hfield hok] at hanswered
      cases hanswered

theorem recordEntry_unproven (hp : p.Unproven) (h : recordEntry fresh route (some p) result current = .ok e)
    (hpass : result.healthy = true ∧ result.probeClass = .agentic ∧ result.agenticOk = true → p.sessionAgenticAt ≠ none) :
    e.Unproven := by
  obtain ⟨base,rfl,hat,hok,hcases⟩ := recordEntry_stored h
  obtain ⟨hknown,hproof⟩ := revokeSession_session result current base
  obtain ⟨hprobe,hchecked⟩ := revokeSession_probe result current base
  by_cases hs : p.sessionAgenticAt = none
  · refine unproven_of_probe (hknown.mpr (hat.trans hs)) fun hrestored => ?_
    rw [hprobe] at hrestored
    rw [hchecked]
    rcases hcases with ⟨hhealthy,hfield,htime⟩ | hfield
    · rw [htime]
      by_contra hsome
      obtain ⟨c,hc⟩ := Option.ne_none_iff_exists'.mp hsome
      rcases agenticFields_proof (hfield ▸ hrestored) hc with ⟨hold,hcold⟩ | ⟨hclass,hpassed⟩
      · exact nomatch hcold.symm.trans (hp.probe hs hold)
      · exact hpass ⟨hhealthy,hclass,hpassed⟩ hs
    · obtain ⟨-,q,hq,hold,hcold⟩ := preserveAgentic_true (hfield hrestored)
      cases hq
      exact absurd (hp.probe hs hold) hcold
  · exact unproven_of_session (fun hnone => hs (hat.symm.trans (hknown.mp hnone)))
      (fun hrestored => hp.session hs (hok.symm.trans (hproof hrestored)))

variable {latencyMs : Option ℕ} {pool capacityEvidence : Option String}

theorem livenessEntry_agentic {identity : String}
    (h : livenessEntry fresh route (some p) latencyMs pool capacityEvidence identity current = .ok e) :
    SameAgentic p e := by
  simp only [livenessEntry] at h
  split at h
  · cases h
  · cases h
    exact ⟨rfl,rfl,rfl,rfl⟩

variable {observed : Time} {source : String}

theorem passiveTrafficEntry_agentic (h : passiveTrafficEntry fresh route (some p) observed current source latencyMs pool capacityEvidence = .ok (some e)) :
    SameAgentic p e := by
  unfold passiveTrafficEntry at h
  split at h
  · cases h
  split at h
  · cases h
  split at h
  · cases h
  · rename_i hlive
    cases h
    obtain ⟨hat,hok,hprobe,hchecked⟩ := livenessEntry_agentic hlive
    exact ⟨hat,hok,hprobe,hchecked⟩

theorem passiveFailureEntry_unproven {httpStatus : Option ℕ} {category : Category} (hp : p.Unproven)
    (h : passiveFailureEntry fresh route (some p) observed current httpStatus category source = .ok (some e))
    : e.Unproven := by
  unfold passiveFailureEntry at h
  split at h
  · cases h
  split at h
  · cases h
  split at h
  · cases h
  · rename_i entry hrecord
    split at h
    · cases h
    · cases h
      exact (recordEntry_unproven hp hrecord fun hpass => nomatch hpass.2.1).same ⟨rfl,rfl,rfl,rfl⟩

theorem agenticEvidenceEntry_some {passed : Bool} {source : String} {childId : Option String}
    (h : agenticEvidenceEntry route (some p) passed current source childId = some e) :
    agenticStale p passed current = false ∧ e.sessionAgenticAt = some current ∧ e.sessionAgenticOk = some passed := by
  simp only [agenticEvidenceEntry] at h
  split at h
  · cases h
  · rename_i hnew
    cases h
    exact ⟨Bool.eq_false_iff.mpr hnew,rfl,rfl⟩

theorem agenticStale_pass (h : agenticStale p true current = false) (hs : p.latestAgentic = some s) :
    s < current := by
  have hsome : p.sessionAgenticAt.orElse (fun _ => p.agenticCheckedAt) = some s := by
    rw [← hs,HealthEntry.latestAgentic]
    cases p.sessionAgenticAt <;> rfl
  simp only [agenticStale,hsome,Bool.true_or,Bool.and_true,Bool.or_eq_false_iff,decide_eq_false_iff_not] at h
  exact lt_of_le_of_ne (not_lt.mp h.1) (Ne.symm h.2)

end Recording

section
variable {fresh : EvidenceFresh} {route : String} {t : Time}
open Observation

theorem step_unproven {p e : HealthEntry} {o : Observation} (hp : p.Unproven) (hpass : ∀ x, o.pass = some x → x ≤ t)
    (hold : o.Remembered t p) (h : o.step fresh route p = some e) : e.Unproven := by
  have he : e = (o.stored fresh route (some p)).getD p := (Option.some.inj h).symm
  cases hstored : o.stored fresh route (some p) with
  | none =>
    rw [he,hstored]
    exact hp
  | some e' =>
    rw [he,hstored,Option.getD_some]
    cases o with
    | record result now =>
      have hrecord : recordEntry fresh route (some p) result now = .ok e' := Raising.toOption_some.mp hstored
      refine recordEntry_unproven hp hrecord fun hpassed => hold hpassed (hpass now (if_pos hpassed))
    | liveness latencyMs pool capacityEvidence identity now =>
      exact hp.same (livenessEntry_agentic (Raising.toOption_some.mp hstored))
    | traffic observed now source latencyMs pool capacityEvidence =>
      exact hp.same (passiveTrafficEntry_agentic (Raising.toOption_some.mp (Option.join_eq_some_iff.mp hstored)))
    | failure observed now httpStatus category source =>
      exact passiveFailureEntry_unproven hp (Raising.toOption_some.mp (Option.join_eq_some_iff.mp hstored))
    | evidence passed at_ source childId =>
      obtain ⟨hnew,hat,hok⟩ := @agenticEvidenceEntry_some route _ _ _ _ _ _ hstored
      refine unproven_of_session (by rw [hat]; exact Option.some_ne_none at_) fun hrestored => ?_
      rw [hok] at hrestored
      obtain rfl : passed = true := Option.some.inj hrestored
      obtain ⟨s,hs,hle⟩ := hold rfl (hpass at_ rfl)
      exact absurd (agenticStale_pass hnew hs) (not_lt.mpr hle)

/-- After an agentic probe that was answered and did not pass, with no earlier evidence dated
behind it, the route stays unqualified at every time and after every sequence of observations
without a later pass, as long as each earlier pass that still arrives meets an entry that
remembers a failed examination as late. -/
theorem failed_probe_revokes {previous : Option HealthEntry} {result : ProbeResult} {e₀ e : HealthEntry}
    {observations : List Observation} (hrecord : recordEntry fresh route previous result t = .ok e₀)
    (hfailed : Revokes result)
    (hbefore : ∀ p, previous = some p → (∀ s, p.sessionAgenticAt = some s → s ≤ t) ∧ ∀ c, p.agenticCheckedAt = some c → c ≤ t)
    (hrun : Run.exec (step fresh route) e₀ observations = some e)
    (hpass : ∀ o ∈ observations, ∀ x, o.pass = some x → x ≤ t)
    (hold : Run.AllSteps (step fresh route) (fun p o => o.Remembered t p) e₀ observations) (configured : ℤ) (now : Time) :
    (agenticCapability configured (some e) now).qualified = false := by
  have hstart : e₀.Unproven := by
    refine recordEntry_revokes hrecord hfailed fun s hs => ?_
    obtain ⟨p,hp,hat⟩ := Option.bind_eq_some_iff.mp hs
    exact (hbefore p hp).1 s hat
  have hend : e.Unproven := Run.exec_invariant_of
    (fun _ _ _ hp hok hstep => step_unproven hp hok.1 hok.2 hstep) ((Run.allSteps_of_forall hpass e₀).and hold) hrun hstart
  exact hend.unqualified configured now

def failedProbe : ProbeResult where
  category := .other "agentic_failed"
  chatOk := true
  toolOk := true
  probeClass := .agentic

def singleCall : ProbeResult where
  category := .ok
  chatOk := true
  toolOk := true

def examined : HealthEntry where
  routeId := "codex/gpt-5"
  category := .ok
  checkedAt := 0
  untilAt := 0
  consecutiveFailures := 0
  chatOk := true
  toolOk := true
  sessionAgenticOk := some true
  sessionAgenticAt := some (seconds 1)

/-- A single call is recorded, and then a session pass arrives that is older than the failed probe. -/
def lateEvidence : List Observation := [.record singleCall (seconds 20),.evidence true (seconds 5) "ledger" none]

/-- The late pass meets the session evidence that the failed probe has revoked. -/
theorem failed_probe_revokes_session : ∃ e₀ e, recordEntry {} "codex/gpt-5" (some examined) failedProbe
    (seconds 10) = .ok e₀ ∧ Run.exec (step {} "codex/gpt-5") e₀ lateEvidence = some e ∧
    (agenticCapability (seconds 604800) (some e) (seconds 30)).qualified = false := by
  refine ⟨_,_,rfl,rfl,?_⟩
  refine @failed_probe_revokes {} "codex/gpt-5" (seconds 10) (some examined) failedProbe _ _ lateEvidence
    rfl (by decide) ?_ rfl ?_ ?_ (seconds 604800) (seconds 30)
  · rintro p ⟨⟩
    exact ⟨fun s hs => by cases hs; decide,fun c hc => nomatch hc⟩
  · intro o ho x hx
    rcases List.mem_pair.mp ho with rfl | rfl
    · cases hx
    · cases hx
      decide
  · refine ⟨?_,fun q hq => ⟨?_,fun _ _ => trivial⟩⟩
    · intro hpassed
      exact nomatch hpassed.2.1
    · cases hq
      intro _ _
      exact ⟨_,rfl,by decide⟩

/-- Without session evidence the single call makes the entry forget the failed probe, and the
older pass qualifies the route again. -/
theorem forgotten_probe_requalifies : ∃ e₀ e, recordEntry {} "codex/gpt-5" none failedProbe (seconds 10) =
    .ok e₀ ∧ Revokes failedProbe ∧ (∀ o ∈ lateEvidence, ∀ x, o.pass = some x → x ≤ seconds 10) ∧ Run.exec
    (step {} "codex/gpt-5") e₀ lateEvidence = some e ∧
    (agenticCapability (seconds 604800) (some e) (seconds 30)).qualified = true := by
  refine ⟨_,_,rfl,by decide,?_,rfl,by decide⟩
  intro o ho x hx
  rcases List.mem_pair.mp ho with rfl | rfl
  · cases hx
  · cases hx
    decide

end
end Verdict.HealthCache

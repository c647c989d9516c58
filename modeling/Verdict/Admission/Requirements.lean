import Verdict.Admission.Judge

/-! # What an admission guarantees

A route whose evidence leaves the subscription headroom unknown is admitted for a
bounded confirmation in front of the capability and policy rungs. On every other path
an admitted route has passed both.
-/
namespace Verdict.Admission.Candidate

open Option (getD_some map_eq_none_iff orElse_eq_orElse)
variable (ops : TextOps) (q : Candidate)

/-- The row states every required capability, and enough context if any is asked for. -/
def MeetsRequirements : Prop :=
  (∀ needed ∈ q.requiredCapabilities, q.row.capabilities.get? (capabilityKey needed) = some true) ∧
    (q.minContextTokens = 0 ∨ q.minContextTokens ≤ q.context)

def PolicyDenies : Prop :=
  ∃ deny reason, q.deny = some deny ∧ deny q.routeId = some reason ∧ reason ≠ ""

/-- What lets a route through to the subscription branch: it is concrete, has an active
connection, one of sound status and none throttled, and no blocker survives in its evidence. -/
structure Unblocked : Prop where
  concrete : isOpaque ops q.routeId = false ∧ q.owned ops ≠ "combo"
  active : q.active ops ≠ []
  sound : ∃ s ∈ q.statuses ops, s ∉ badTestStatus
  unthrottled : ∀ c ∈ q.active ops, c.liveWindow ops q.routeId q.now = none
  entitled : ∀ o ∈ q.evidence ops, o.state ≠ .unauthorized
  healthy : ∀ o ∈ q.routeObs ops, o.state ≠ .unhealthy
  available : ∀ o ∈ q.evidence ops, o.state ≠ .exhausted ∧ o.state ≠ .cooldown

def HeadroomUnknown : Prop := ∃ o ∈ q.evidence ops, headroomUnknown o = true

variable {ops q}

theorem mem_recordedProviderObs {o : RuntimeObservation} : o ∈ q.recordedProviderObs ops ↔ ∃ name,
    (name = q.owned ops ∨ name = q.namePrefix ops) ∧ name ≠ "" ∧ o ∈ q.runtime.observations ∧ o.key =
    "provider:" ++ name := by
  unfold recordedProviderObs RuntimeEvidence.forKey
  cases q.ownedFirst with
  | true => simp [List.mem_flatMap,and_assoc]
  | false => simp [List.mem_flatMap,and_assoc,or_comm]

theorem opaqueDrop_eq_none : q.opaqueDrop ops = none ↔ isOpaque ops q.routeId = false ∧ q.owned ops ≠ "combo" := by
  unfold opaqueDrop
  rw [ite_eq_right_iff]
  simp

theorem accountDrop_eq_none : q.accountDrop ops = none ↔ q.active ops ≠ [] := by
  unfold accountDrop
  rw [ite_eq_right_iff]
  simp

theorem statusDrop_eq_none (h : q.active ops ≠ []) :
    q.statusDrop ops = none ↔ ∃ s ∈ q.statuses ops, s ∉ badTestStatus := by
  have hs : q.statuses ops ≠ [] := by simpa [statuses] using h
  unfold statusDrop
  split
  · rename_i hall
    simp only [reduceCtorEq,false_iff,not_exists,not_and,not_not]
    exact hall.2
  · rename_i hall
    simp only [true_iff]
    by_contra hno
    apply hall
    exact ⟨hs,fun s hmem => by by_contra hbad; exact hno ⟨s,hmem,hbad⟩⟩

theorem windowDrop_eq_none :
    q.windowDrop ops = none ↔ ∀ c ∈ q.active ops, c.liveWindow ops q.routeId q.now = none := by
  unfold windowDrop
  rw [map_eq_none_iff,List.findSome?_eq_none_iff]

theorem unauthorizedDrop_eq_none :
    q.unauthorizedDrop ops = none ↔ ∀ o ∈ q.evidence ops, o.state ≠ .unauthorized := by
  unfold unauthorizedDrop
  rw [map_eq_none_iff,List.find?_eq_none]
  simp

theorem unhealthyDrop_eq_none : q.unhealthyDrop ops = none ↔ ∀ o ∈ q.routeObs ops, o.state ≠ .unhealthy := by
  unfold unhealthyDrop
  rw [map_eq_none_iff,List.find?_eq_none]
  simp

theorem unavailableDrop_eq_none :
    q.unavailableDrop ops = none ↔ ∀ o ∈ q.evidence ops, o.state ≠ .exhausted ∧ o.state ≠ .cooldown := by
  unfold unavailableDrop
  rw [map_eq_none_iff,List.find?_eq_none]
  simp [suppressible]

theorem evidenceDrop_eq_none : q.evidenceDrop ops = none ↔ q.Unblocked ops := by
  unfold evidenceDrop
  simp only [orElse_eq_orElse,Option.orElse_eq_or,Option.or_eq_none_iff,opaqueDrop_eq_none,accountDrop_eq_none,
    windowDrop_eq_none,unauthorizedDrop_eq_none,unhealthyDrop_eq_none,unavailableDrop_eq_none]
  constructor
  · rintro ⟨hconcrete,hactive,hstatus,hwindow,hauth,hhealth,havail⟩
    exact ⟨hconcrete,hactive,(statusDrop_eq_none hactive).mp hstatus,hwindow,hauth,hhealth,havail⟩
  · intro h
    exact ⟨h.concrete,h.active,(statusDrop_eq_none h.active).mpr h.sound,h.unthrottled,h.entitled,h.healthy,
      h.available⟩

theorem unknownSubscription_eq_none : q.unknownSubscription ops = none ↔ ¬ q.HeadroomUnknown ops := by
  unfold unknownSubscription HeadroomUnknown
  rw [List.find?_eq_none]
  simp

theorem meetsRequirements_of_capabilityDrop (h : q.capabilityDrop ops = none) : q.MeetsRequirements := by
  unfold capabilityDrop at h
  split at h
  · rename_i hnothing
    exact ⟨by simp [hnothing.1],.inl hnothing.2⟩
  · split at h
    · cases h
    · rename_i hfound
      split at h
      · cases h
      · rename_i hcontext
        refine ⟨fun needed hneeded => ?_,.inr (not_lt.mp hcontext)⟩
        have hlacks := List.find?_eq_none.mp hfound needed ((Finset.mem_sort _).mpr hneeded)
        simpa [lacks] using hlacks

theorem policyDrop_eq_none : q.policyDrop ops = none ↔ ¬ q.PolicyDenies := by
  unfold policyDrop denied PolicyDenies
  rw [map_eq_none_iff,Option.filter_eq_none_iff]
  cases q.deny with
  | none => simp
  | some deny => simp

def Answers (P : AdmissionRecord → Prop) (rung : Option AdmissionRecord) : Prop := ∀ record, rung = some record → P record

def Drops (rung : Option AdmissionRecord) : Prop := ∀ record, rung = some record → record.admitted = false

section
variable {P : AdmissionRecord → Prop}
variable {a b : Option AdmissionRecord}

theorem Answers.orElse (ha : Answers P a) (hb : Answers P b) : Answers P (a <|> b) := by
  intro record h
  cases a with
  | none => exact hb record h
  | some r => exact ha record h

theorem Answers.map {α : Type} {x : Option α} {f : α → AdmissionRecord} (hf : ∀ a, P (f a)) : Answers P (x.map f) := by
  intro record h
  obtain ⟨a,-,rfl⟩ := Option.map_eq_some_iff.mp h
  exact hf a

theorem Answers.ite {p : Prop} [Decidable p] (ha : Answers P a) (hb : Answers P b) :
    Answers P (if p then a else b) := by
  split <;> assumption

theorem Answers.some {record : AdmissionRecord} (h : P record) : Answers P (some record) := by
  intro r hr
  cases hr
  exact h

theorem Answers.none : Answers P none := by
  intro record h
  cases h

/-- The rungs answer with nothing but `drop`. -/
theorem evidenceDrop_answers
    (hP : ∀ stage reason source observedAt health untilAt resetAt,
      P (q.drop ops stage reason source observedAt health untilAt resetAt)) : Answers P (q.evidenceDrop ops) := by
  have hhidden : Answers P (q.opaqueDrop ops) := .ite (.some (hP ..)) .none
  have haccount : Answers P (q.accountDrop ops) := .ite (.some (hP ..)) .none
  have hstatus : Answers P (q.statusDrop ops) := .ite (.some (hP ..)) .none
  have hwindow : Answers P (q.windowDrop ops) := .map fun _ => hP ..
  have hauth : Answers P (q.unauthorizedDrop ops) := .map fun _ => hP ..
  have hhealth : Answers P (q.unhealthyDrop ops) := .map fun _ => hP ..
  have havail : Answers P (q.unavailableDrop ops) := .map fun _ => hP ..
  exact hhidden.orElse (haccount.orElse (hstatus.orElse (hwindow.orElse (hauth.orElse (hhealth.orElse havail)))))

theorem capabilityDrop_answers
    (hP : ∀ stage reason source observedAt health untilAt resetAt,
      P (q.drop ops stage reason source observedAt health untilAt resetAt)) : Answers P (q.capabilityDrop ops) := by
  unfold capabilityDrop
  refine .ite .none ?_
  split
  · exact .some (hP ..)
  · exact .ite (.some (hP ..)) .none

theorem policyDrop_answers
    (hP : ∀ stage reason source observedAt health untilAt resetAt,
      P (q.drop ops stage reason source observedAt health untilAt resetAt)) : Answers P (q.policyDrop ops) :=
  .map fun _ => hP ..

end

theorem evidenceDrop_drops : Drops (q.evidenceDrop ops) := evidenceDrop_answers fun _ _ _ _ _ _ _ => rfl

theorem capabilityDrop_drops : Drops (q.capabilityDrop ops) := capabilityDrop_answers fun _ _ _ _ _ _ _ => rfl

theorem policyDrop_drops : Drops (q.policyDrop ops) := policyDrop_answers fun _ _ _ _ _ _ _ => rfl

theorem judge_satisfies {P : AdmissionRecord → Prop}
    (hdrop : ∀ stage reason source observedAt health untilAt resetAt,
      P (q.drop ops stage reason source observedAt health untilAt resetAt))
    (hbounded : ∀ o, P (q.boundedAdmission ops o)) (hadmission : P (q.admission ops)) : P (q.judge ops) := by
  unfold judge
  cases hearly : q.evidenceDrop ops with
  | some record => exact evidenceDrop_answers hdrop record hearly
  | none =>
    cases q.unknownSubscription ops with
    | some o => exact hbounded o
    | none =>
      cases hlate : (q.capabilityDrop ops <|> q.policyDrop ops) with
      | some record => exact (capabilityDrop_answers hdrop).orElse (policyDrop_answers hdrop) record hlate
      | none => exact hadmission

theorem judge_routeId (ops : TextOps) (q : Candidate) : (q.judge ops).routeId = q.routeId := by
  apply judge_satisfies (P := fun r => r.routeId = q.routeId)
  · exact fun _ _ _ _ _ _ _ => rfl
  · exact fun _ => rfl
  · unfold admission
    split <;> rfl

theorem judge_unconfirmed (ops : TextOps) (q : Candidate) : (q.judge ops).confirmationSource = none := by
  apply judge_satisfies (P := fun r => r.confirmationSource = none)
  · exact fun _ _ _ _ _ _ _ => rfl
  · exact fun _ => rfl
  · unfold admission
    split <;> rfl

theorem judge_of_blocked (h : ¬ q.Unblocked ops) : (q.judge ops).admitted = false := by
  unfold judge
  cases hdrop : q.evidenceDrop ops with
  | none => exact absurd (evidenceDrop_eq_none.mp hdrop) h
  | some record => exact evidenceDrop_drops record hdrop

theorem judge_of_headroomUnknown (h : q.Unblocked ops) (hunknown : q.HeadroomUnknown ops) :
    (q.judge ops).admitted = true := by
  unfold judge
  rw [evidenceDrop_eq_none.mpr h]
  cases hsub : q.unknownSubscription ops with
  | none => exact absurd hunknown (unknownSubscription_eq_none.mp hsub)
  | some o => rfl

theorem requirements_of_judge (hunknown : ¬ q.HeadroomUnknown ops) (h : (q.judge ops).admitted = true) :
    q.MeetsRequirements ∧ ¬ q.PolicyDenies := by
  unfold judge at h
  cases hdrop : q.evidenceDrop ops with
  | some record =>
    rw [hdrop] at h
    exact absurd h (by simp [evidenceDrop_drops record hdrop])
  | none =>
    rw [hdrop,unknownSubscription_eq_none.mpr hunknown] at h
    cases hcap : q.capabilityDrop ops with
    | some record =>
      simp only [hcap,orElse_eq_orElse,Option.orElse_some,getD_some] at h
      exact absurd h (by simp [capabilityDrop_drops record hcap])
    | none =>
      cases hpolicy : q.policyDrop ops with
      | some record =>
        simp only [hcap,hpolicy,orElse_eq_orElse,Option.orElse_none,getD_some] at h
        exact absurd h (by simp [policyDrop_drops record hpolicy])
      | none => exact ⟨meetsRequirements_of_capabilityDrop hcap,policyDrop_eq_none.mp hpolicy⟩

/-- An admitted route meets the requirements and is not denied exactly when some rung in
front of the subscription branch drops it, when its headroom is not unknown, or when the
row happens to satisfy what the early return does not check. -/
theorem admitted_qualified_iff (ops : TextOps) (q : Candidate) :
    ((q.judge ops).admitted = true → q.MeetsRequirements ∧ ¬ q.PolicyDenies) ↔
    (¬ q.Unblocked ops ∨ ¬ q.HeadroomUnknown ops ∨ (q.MeetsRequirements ∧ ¬ q.PolicyDenies)) := by
  constructor
  · intro h
    by_cases hblocked : q.Unblocked ops
    · by_cases hunknown : q.HeadroomUnknown ops
      · exact .inr (.inr (h (judge_of_headroomUnknown hblocked hunknown)))
      · exact .inr (.inl hunknown)
    · exact .inl hblocked
  · rintro (hblocked | hunknown | hgood) hadmitted
    · rw [judge_of_blocked hblocked] at hadmitted
      cases hadmitted
    · exact requirements_of_judge hunknown hadmitted
    · exact hgood

def unmeasured : Candidate where
  routeId := "openai/gpt-4"
  row := {ownedBy := "openai"}
  connections := [{provider := "openai", id := "acct", isActive := true, testStatus := "active"}]
  runtime := { observations := [{
    key := "provider:openai", state := .unknown, category := "subscription_unknown"
    source := "subscription_headroom:openai:acct", accountId := some "acct" }] }
  now := 0
  requiredCapabilities := {"tools"}
  deny := some fun route => if route = "openai/gpt-4" then some "denied_by_policy" else none

theorem denied_route_admitted : (unmeasured.judge epochText).admitted = true ∧
    ¬ unmeasured.MeetsRequirements ∧ unmeasured.PolicyDenies := by
  refine ⟨by decide +kernel,fun h => ?_,_,"denied_by_policy",rfl,by decide +kernel,by decide⟩
  exact absurd (h.1 "tools" (by simp [unmeasured])) (by decide +kernel)

end Verdict.Admission.Candidate

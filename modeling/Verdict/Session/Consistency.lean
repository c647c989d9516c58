import Verdict.Session.Operations

/-! # Consistent sessions

The completed steps are the listed ones, the session is completed when all its steps are, and
the cursor is on a step that is not. Each edit of an operation keeps this, and what was
completed, on a condition on the session before it.
-/
namespace Verdict.Session
open ExecutionSession

structure Listed (steps : List StepRecord) (ids : List String) : Prop where
  once : ids.Nodup
  exactly : ∀ stepId, stepId ∈ ids ↔ ∃ step ∈ steps, step.stepId = stepId ∧ step.status = .completed

def Unfinished (steps : List StepRecord) (stepId : String) : Prop :=
  ∃ step ∈ steps, step.stepId = stepId ∧ step.status ≠ .completed

structure Consistent (s : ExecutionSession) : Prop where
  listed : Listed s.steps s.completedSteps
  finished : s.state = .completed ↔ ∀ step ∈ s.steps, step.status = .completed
  cursor : ∀ stepId, s.currentStep = some stepId → Unfinished s.steps stepId

/-- A step as it is later: it stays completed, and it is not re-armed once an irreversible effect has landed. -/
structure StepKept (before after : StepRecord) : Prop where
  stepId : after.stepId = before.stepId
  kind : after.sideEffectKind = before.sideEffectKind
  committed : before.committed = true → after.committed = true
  completed : before.status = .completed → after.status = .completed
  irreversible : before.committed = true → before.sideEffectKind = .irreversible → before.status ≠ .pending →
    after.status ≠ .pending

def Kept (s t : ExecutionSession) : Prop := List.Forall₂ StepKept s.steps t.steps

theorem StepKept.refl (step : StepRecord) : StepKept step step := ⟨rfl,rfl,id,id,fun _ _ h => h⟩

theorem StepKept.trans {a b c : StepRecord} (h : StepKept a b) (h' : StepKept b c) : StepKept a c where
  stepId := h'.stepId.trans h.stepId
  kind := h'.kind.trans h.kind
  committed hc := h'.committed (h.committed hc)
  completed hc := h'.completed (h.completed hc)
  irreversible hc hi hp := h'.irreversible (h.committed hc) (h.kind.trans hi) (h.irreversible hc hi hp)

theorem Kept.refl (s : ExecutionSession) : Kept s s := List.forall₂_same.mpr fun step _ => .refl step

theorem Kept.trans {s t u : ExecutionSession} (h : Kept s t) (h' : Kept t u) : Kept s u := by
  have htrans : ∀ {xs ys zs : List StepRecord}, List.Forall₂ StepKept xs ys → List.Forall₂ StepKept ys zs →
      List.Forall₂ StepKept xs zs := by
    intro xs ys zs hxy
    induction hxy generalizing zs with
    | nil => exact id
    | cons hab _ ih =>
      rintro (_ | ⟨hbc,htail⟩)
      exact .cons (hab.trans hbc) (ih htail)
  exact htrans h h'

/-! ### Changing the first step with an id -/

section
variable {stepId : String} {steps : List StepRecord} {step : StepRecord} {f : StepRecord → StepRecord}
variable (hfind : (steps.find? fun step => step.stepId = stepId) = some step)
include hfind

theorem changeFirst_kept (hf : StepKept step (f step)) : List.Forall₂ StepKept steps (changeFirst stepId f steps) := by
  obtain ⟨before,after,hsteps,-,hchange⟩ := changeFirst_found hfind
  rw [hchange,hsteps]
  exact List.rel_append (List.forall₂_same.mpr fun x _ => .refl x) (.cons hf (List.forall₂_same.mpr fun x _ => .refl x))

theorem Listed.complete {ids : List String} (h : Listed steps ids) (hid : (f step).stepId = step.stepId)
    (hf : (f step).status = .completed) :
    Listed (changeFirst stepId f steps) (if stepId ∈ ids then ids else ids ++ [stepId]) := by
  constructor
  · split
    · exact h.once
    · rename_i hnew
      refine List.nodup_append.mpr ⟨h.once,List.nodup_singleton _,fun a ha b hb => ?_⟩
      rw [List.mem_singleton.mp hb]
      exact fun heq => hnew (heq ▸ ha)
  · intro i
    have hmem : i ∈ (if stepId ∈ ids then ids else ids ++ [stepId]) ↔ i = stepId ∨ i ∈ ids := by
      split
      · rename_i hold
        exact ⟨.inr,fun hi => hi.elim (fun heq => heq ▸ hold) id⟩
      · rw [List.mem_append,List.mem_singleton]
        exact Or.comm
    rw [hmem,h.exactly]
    constructor
    · rintro (rfl | ⟨x,hx,hxid,hcompleted⟩)
      · exact ⟨f step,(mem_changeFirst hfind _).mpr (.inl rfl),hid.trans (found_id hfind),hf⟩
      · rcases (mem_found hfind x).mp hx with rfl | hother
        · exact ⟨f x,(mem_changeFirst hfind _).mpr (.inl rfl),hid.trans hxid,hf⟩
        · exact ⟨x,(mem_changeFirst hfind _).mpr (.inr hother),hxid,hcompleted⟩
    · rintro ⟨x,hx,hxid,hcompleted⟩
      rcases (mem_changeFirst hfind x).mp hx with rfl | hother
      · exact .inl (hxid.symm.trans (hid.trans (found_id hfind)))
      · exact .inr ⟨x,(mem_found hfind x).mpr (.inr hother),hxid,hcompleted⟩

theorem Listed.change {ids : List String} (h : Listed steps ids) (hbefore : step.status ≠ .completed)
    (hafter : (f step).status ≠ .completed) : Listed (changeFirst stepId f steps) ids := by
  refine ⟨h.once,fun i => (h.exactly i).trans ?_⟩
  constructor
  · rintro ⟨x,hx,hxid,hcompleted⟩
    rcases (mem_found hfind x).mp hx with rfl | hother
    · exact absurd hcompleted hbefore
    · exact ⟨x,(mem_changeFirst hfind x).mpr (.inr hother),hxid,hcompleted⟩
  · rintro ⟨x,hx,hxid,hcompleted⟩
    rcases (mem_changeFirst hfind x).mp hx with rfl | hother
    · exact absurd hcompleted hafter
    · exact ⟨x,(mem_found hfind x).mpr (.inr hother),hxid,hcompleted⟩

theorem Unfinished.change {i : String} (h : Unfinished steps i) (hid : (f step).stepId = step.stepId)
    (hafter : (f step).status ≠ .completed) : Unfinished (changeFirst stepId f steps) i := by
  obtain ⟨x,hx,hxid,hopen⟩ := h
  rcases (mem_found hfind x).mp hx with rfl | hother
  · exact ⟨f x,(mem_changeFirst hfind _).mpr (.inl rfl),hid.trans hxid,hafter⟩
  · exact ⟨x,(mem_changeFirst hfind x).mpr (.inr hother),hxid,hopen⟩

end

theorem Unfinished.not_all {steps : List StepRecord} {stepId : String} (h : Unfinished steps stepId) :
    ¬∀ step ∈ steps, step.status = .completed := by
  obtain ⟨x,hx,-,hopen⟩ := h
  exact fun hall => hopen (hall x hx)

theorem firstPending_unfinished {s : ExecutionSession} {stepId : String} (h : s.firstPending = some stepId) :
    Unfinished s.steps stepId := by
  obtain ⟨x,hx,hid,hpending⟩ := firstPending_eq_some h
  exact ⟨x,hx,hid,by rw [hpending]; exact StepStatus.noConfusion⟩

/-! ### The edits -/

section
variable {e : Env} {s : ExecutionSession}

theorem Consistent.noted (h : Consistent s) (n : ℕ) (reason : String) : Consistent (noted e s n reason) :=
  ⟨h.listed,h.finished,h.cursor⟩

theorem Consistent.bindModel (h : Consistent s) (modelId : Option String) : Consistent (s.bindModel modelId) := by
  cases modelId <;> exact ⟨h.listed,h.finished,h.cursor⟩

theorem Consistent.logFailure (h : Consistent s) (failure : FailureEntry) (model passport : Option String) :
    Consistent (logFailure s failure model passport) := by
  cases model <;> exact ⟨h.listed,h.finished,h.cursor⟩

theorem Consistent.started (h : Consistent s) (hstate : s.state ≠ .completed) (modelId : Option String) :
    Consistent (started s modelId) := by
  have hopen : ¬∀ step ∈ s.steps, step.status = .completed := fun hall => hstate (h.finished.mpr hall)
  have hsteps : (Session.started s modelId).steps = s.steps := by cases modelId <;> rfl
  have hcompleted : (Session.started s modelId).completedSteps = s.completedSteps := by cases modelId <;> rfl
  refine ⟨?_,?_,?_⟩
  · rw [hsteps,hcompleted]
    exact h.listed
  · rw [hsteps]
    exact iff_of_false SessionState.noConfusion hopen
  · rw [hsteps]
    intro stepId hcursor
    rw [Session.started] at hcursor
    cases hold : s.currentStep with
    | none =>
      rw [hold] at hcursor
      exact firstPending_unfinished hcursor
    | some step =>
      rw [hold] at hcursor
      exact h.cursor stepId (hold.trans hcursor)

theorem Consistent.commitFirst {stepId : String} {step : StepRecord} (h : Consistent s) (hfind : s.findStep stepId = some step)
    (hopen : step.status ≠ .completed) : Consistent (commitFirst s stepId) := by
  have hunfinished : Unfinished s.steps stepId := ⟨step,List.mem_of_find?_eq_some hfind,found_id hfind,hopen⟩
  refine ⟨h.listed.change hfind hopen hopen,?_,fun i hi => (h.cursor i hi).change hfind rfl hopen⟩
  have hstate : s.state ≠ .completed := fun hstate => hunfinished.not_all (h.finished.mp hstate)
  exact iff_of_false hstate (hunfinished.change hfind rfl hopen).not_all

theorem Consistent.failFirst {stepId : String} {step : StepRecord} (h : Consistent s) (hfind : s.findStep stepId = some step)
    (hopen : step.status ≠ .completed) (error : String) (modelId : Option String) :
    Consistent (failFirst e s stepId error modelId) := by
  have hunfinished : Unfinished s.steps stepId := ⟨step,List.mem_of_find?_eq_some hfind,found_id hfind,hopen⟩
  refine ⟨h.listed.change hfind hopen StepStatus.noConfusion,?_,
    fun i hi => (h.cursor i hi).change hfind rfl StepStatus.noConfusion⟩
  exact iff_of_false SessionState.noConfusion (hunfinished.change hfind rfl StepStatus.noConfusion).not_all

theorem Consistent.finishStep {stepId : String} {step : StepRecord} (h : Consistent s) (hfind : s.findStep stepId = some step)
    (hothers : (∃ x ∈ others stepId s.steps, x.status = .pending) ∨ ∀ x ∈ others stepId s.steps, x.status = .completed)
    (modelId : Option String) (tokensUsed : ℤ) (evidenceReceipt : Option String) :
    Consistent (finishStep e s stepId modelId tokensUsed evidenceReceipt) := by
  rw [Session.finishStep]
  split
  · rename_i hnone
    refine ⟨h.listed.complete hfind rfl rfl,iff_of_true rfl fun x hx => ?_,fun i hi => (by cases hi)⟩
    rcases (mem_changeFirst hfind x).mp hx with rfl | hother
    · rfl
    · rcases hothers with ⟨y,hy,hpending⟩ | hall
      · exact absurd hpending (firstPending_eq_none.mp hnone y ((mem_changeFirst hfind y).mpr (.inr hy)))
      · exact hall x hother
  · rename_i next hnext
    have hunfinished := firstPending_unfinished hnext
    refine ⟨h.listed.complete hfind rfl rfl,iff_of_false SessionState.noConfusion hunfinished.not_all,fun i hi => ?_⟩
    cases hi
    exact hunfinished

theorem Consistent.rearm_committed {stepId : String} {step : StepRecord} (h : Consistent s)
    (hfind : s.findStep stepId = some step) (hcommitted : step.committed = true)
    (hothers : ∃ x ∈ others stepId s.steps, x.status ≠ .completed) : Consistent (rearm e s stepId step) := by
  rw [rearm,if_pos hcommitted]
  obtain ⟨x,hx,hopen⟩ := hothers
  have hunfinished : ¬∀ y ∈ changeFirst stepId (fun step => {step with
      status := .completed, error := none, completedAt := some (e.clock 6)}) s.steps, y.status = .completed :=
    fun hall => hopen (hall x ((mem_changeFirst hfind x).mpr (.inr hx)))
  exact ⟨h.listed.complete hfind rfl rfl,iff_of_false SessionState.noConfusion hunfinished,
    fun i hi => firstPending_unfinished hi⟩

theorem Consistent.rearm_uncommitted {stepId : String} {step : StepRecord} (h : Consistent s)
    (hfind : s.findStep stepId = some step) (hcommitted : step.committed ≠ true) (hopen : Unfinished s.steps stepId) :
    Consistent (rearm e s stepId step) := by
  rw [rearm,if_neg hcommitted]
  split
  · rename_i hfailed
    have hunfinished : Unfinished (changeFirst stepId (fun step => {step with
        status := .pending, error := none, completedAt := none}) s.steps) stepId :=
      hopen.change hfind rfl StepStatus.noConfusion
    refine ⟨h.listed.change hfind (by rw [hfailed]; exact StepStatus.noConfusion) StepStatus.noConfusion,
      iff_of_false SessionState.noConfusion hunfinished.not_all,fun i hi => ?_⟩
    cases hi
    exact hunfinished
  · refine ⟨h.listed,iff_of_false SessionState.noConfusion hopen.not_all,fun i hi => ?_⟩
    cases hi
    exact hopen

end
end Verdict.Session

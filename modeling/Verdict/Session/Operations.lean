import Verdict.Session.RoundTrip

/-! # What an operation does

Each operation refuses, or edits the session and checkpoints it; `complete_step` can do so twice.
What the edits keep holds after every operation and in every checkpoint of it.
-/
namespace Verdict.Session
open ExecutionSession
open List (find?_cons map_cons mem_append mem_cons)

/-! ### The first step with an id -/

def others (stepId : String) (steps : List StepRecord) : List StepRecord :=
  steps.eraseP fun step => step.stepId = stepId

variable {stepId : String} {steps : List StepRecord} {step : StepRecord}

theorem changeFirst_found (h : (steps.find? fun step => step.stepId = stepId) = some step) : ∃ before after,
    steps = before ++ step :: after ∧ others stepId steps = before ++ after ∧ ∀ f, changeFirst stepId f
    steps = before ++ f step :: after := by
  induction steps with
  | nil => cases h
  | cons first rest ih =>
    by_cases hid : first.stepId = stepId
    · have hfirst : step = first := by
        rw [find?_cons,decide_eq_true hid] at h
        exact (Option.some.inj h).symm
      refine ⟨[],rest,by rw [hfirst]; rfl,?_,fun f => ?_⟩
      · rw [others,List.eraseP_cons_of_pos (by simpa using hid)]
        rfl
      · rw [changeFirst,if_pos hid,hfirst]
        rfl
    · rw [find?_cons,decide_eq_false hid] at h
      obtain ⟨before,after,hsteps,hothers,hchange⟩ := ih h
      refine ⟨first :: before,after,by rw [hsteps]; rfl,?_,fun f => ?_⟩
      · rw [others,List.eraseP_cons_of_neg (by simpa using hid)]
        exact congrArg (first :: ·) hothers
      · rw [changeFirst,if_neg hid,hchange f]
        rfl

variable {f : StepRecord → StepRecord}

theorem changeFirst_ids (hf : ∀ step, (f step).stepId = step.stepId)
    (steps : List StepRecord) : (changeFirst stepId f steps).map StepRecord.stepId = steps.map StepRecord.stepId := by
  induction steps with
  | nil => rfl
  | cons first rest ih =>
    rw [changeFirst]
    split
    · rw [map_cons,hf,map_cons]
    · rw [map_cons,ih,map_cons]

theorem mem_changeFirst (h : (steps.find? fun step => step.stepId = stepId) = some step) (x : StepRecord) :
    x ∈ changeFirst stepId f steps ↔ x = f step ∨ x ∈ others stepId steps := by
  obtain ⟨before,after,-,hothers,hchange⟩ := changeFirst_found h
  rw [hothers,hchange,mem_append,mem_cons,mem_append]
  tauto

theorem mem_found (h : (steps.find? fun step => step.stepId = stepId) = some step) (x : StepRecord) :
    x ∈ steps ↔ x = step ∨ x ∈ others stepId steps := by
  obtain ⟨before,after,hsteps,hothers,-⟩ := changeFirst_found h
  rw [hothers,mem_append]
  subst hsteps
  rw [mem_append,mem_cons]
  tauto

theorem find_changeFirst (hf : ∀ step, (f step).stepId = step.stepId) (h : (steps.find? fun step => step.stepId = stepId) = some step) :
    ((changeFirst stepId f steps).find? fun step => step.stepId = stepId) = some (f step) := by
  induction steps with
  | nil => cases h
  | cons first rest ih =>
    rw [changeFirst]
    by_cases hid : first.stepId = stepId
    · rw [find?_cons,decide_eq_true hid] at h
      rw [if_pos hid,find?_cons,decide_eq_true ((hf first).trans hid)]
      exact congrArg (Option.map f) h
    · rw [find?_cons,decide_eq_false hid] at h
      rw [if_neg hid,find?_cons,decide_eq_false hid]
      exact ih h

theorem others_changeFirst (hf : ∀ step, (f step).stepId = step.stepId)
    (steps : List StepRecord) : others stepId (changeFirst stepId f steps) = others stepId steps := by
  induction steps with
  | nil => rfl
  | cons first rest ih =>
    rw [changeFirst]
    by_cases hid : first.stepId = stepId
    · rw [if_pos hid,others,others,List.eraseP_cons_of_pos (by simpa [hf] using hid),
        List.eraseP_cons_of_pos (by simpa using hid)]
    · rw [if_neg hid,others,others,List.eraseP_cons_of_neg (by simpa using hid),
        List.eraseP_cons_of_neg (by simpa using hid)]
      exact congrArg (first :: ·) ih

theorem found_id (h : (steps.find? fun step => step.stepId = stepId) = some step) : step.stepId = stepId := by
  have hid := List.find?_some h
  exact of_decide_eq_true hid

theorem firstPending_eq_none {s : ExecutionSession} :
    s.firstPending = none ↔ ∀ step ∈ s.steps, step.status ≠ .pending := by
  rw [firstPending,Option.map_eq_none_iff,List.find?_eq_none]
  exact ⟨fun h step hstep hpending => h step hstep (decide_eq_true hpending),
    fun h step hstep hpending => h step hstep (of_decide_eq_true hpending)⟩

theorem firstPending_eq_some {s : ExecutionSession} (h : s.firstPending = some stepId) :
    ∃ step ∈ s.steps, step.stepId = stepId ∧ step.status = .pending := by
  obtain ⟨step,hfind,hid⟩ := Option.map_eq_some_iff.mp h
  have hpending := List.find?_some hfind
  exact ⟨step,List.mem_of_find?_eq_some hfind,hid,of_decide_eq_true hpending⟩

@[simp] theorem bindModel_steps (s : ExecutionSession) (modelId : Option String) : (s.bindModel modelId).steps = s.steps := by
  cases modelId <;> rfl

@[simp] theorem logFailure_steps (s : ExecutionSession) (failure : FailureEntry) (model passport : Option String) :
    (logFailure s failure model passport).steps = s.steps := by
  cases model <;> rfl

@[simp] theorem logFailure_findStep (s : ExecutionSession) (failure : FailureEntry) (model passport : Option String)
    (stepId : String) : (logFailure s failure model passport).findStep stepId = s.findStep stepId := by
  cases model <;> rfl

/-! ### The cases of each operation -/

section
variable (e : Env)

theorem checkpoint_cases (w : World) (n : ℕ) (reason : String) :
    (∃ fault, checkpoint e w n reason = .error (.plane fault,{w with session := noted e w.session n reason}) ∧
      (e.disk n = true → w.plane.put e.digest (e.clock (3 * n + 2))
        (checkpointRow (noted e w.session n reason) (checkpointId w.session)) = .error fault)) ∨
    ∃ plane appended, checkpoint e w n reason =
      .ok ⟨noted e w.session n reason,plane,w.written ++ [⟨plane,noted e w.session n reason,appended⟩]⟩ ∧
      w.plane.put e.digest (e.clock (3 * n + 2)) (checkpointRow (noted e w.session n reason) (checkpointId w.session)) =
        .ok (plane,appended) := by
  rw [checkpoint,persist]
  split
  · rename_i hdisk
    exact .inl ⟨.storage,rfl,fun h => absurd h (by rw [hdisk]; exact Bool.false_ne_true)⟩
  · cases hput : w.plane.put e.digest (e.clock (3 * n + 2))
      (checkpointRow (noted e w.session n reason) (checkpointId w.session)) with
    | error fault => exact .inl ⟨fault,rfl,fun _ => rfl⟩
    | ok result => exact .inr ⟨result.1,result.2,rfl,rfl⟩

theorem start_cases (w : World) (modelId : Option String) :
    (∃ fault, start e w modelId = .error (.session fault,w)) ∨
    (w.session.state ≠ .running ∧ w.session.state ≠ .completed ∧
      start e w modelId = checkpoint e {w with session := started w.session modelId} 0 "started") := by
  rw [start]
  split
  · exact .inl ⟨_,rfl⟩
  · rename_i hstate
    exact .inr ⟨fun h => hstate (.inl h),fun h => hstate (.inr h),rfl⟩

/-- The step that `complete_step` accepts. -/
structure Completable (s : ExecutionSession) (stepId : String) (step : StepRecord) : Prop where
  found : s.findStep stepId = some step
  pending : step.status = .pending
  allowed : ¬(step.committed = true ∧ step.sideEffectKind = .irreversible)

theorem completeStep_cases (w : World) (stepId : String) (modelId : Option String) (tokensUsed : ℤ)
    (evidenceReceipt : Option String) :
    (∃ fault, completeStep e w stepId modelId tokensUsed evidenceReceipt = .error (.session fault,w)) ∨ ∃
    step, Completable w.session stepId step ∧ completeStep e w stepId modelId tokensUsed evidenceReceipt =
    Except.bind (commitStep e {w with session := w.session.bindModel modelId} stepId step) fun w =>
    checkpoint e {w with session := finishStep e w.session stepId modelId tokensUsed evidenceReceipt} 1
    ("step_completed:" ++ stepId) := by
  rw [completeStep]
  cases hfind : w.session.findStep stepId with
  | none => exact .inl ⟨_,rfl⟩
  | some step =>
    simp only
    split
    · exact .inl ⟨_,rfl⟩
    · rename_i hstatus
      split
      · exact .inl ⟨_,rfl⟩
      · rename_i hallowed
        exact .inr ⟨step,⟨hfind,not_not.mp hstatus,hallowed⟩,rfl⟩

/-- After the first checkpoint of `complete_step` the step is the one that was found, up to its flag. -/
theorem commitStep_ok {w w' : World} (hfind : w.session.findStep stepId = some step)
    (h : commitStep e w stepId step = .ok w') :
    (∃ committed, w'.session.findStep stepId = some {step with committed := committed}) ∧ others stepId
    w'.session.steps = others stepId w.session.steps := by
  rw [commitStep] at h
  split at h
  · rcases checkpoint_cases e {w with session := commitFirst w.session stepId} 0 ("step_committed:" ++ stepId) with
      ⟨fault,hresult,-⟩ | ⟨plane,appended,hresult,-⟩
    · cases hresult.symm.trans h
    · cases hresult.symm.trans h
      exact ⟨⟨true,find_changeFirst (by exact fun _ => rfl) hfind⟩,others_changeFirst (by exact fun _ => rfl) w.session.steps⟩
  · cases h
    exact ⟨⟨step.committed,hfind⟩,rfl⟩

theorem failStep_cases (w : World) (stepId error : String) (modelId : Option String) :
    (∃ fault, failStep e w stepId error modelId = .error (.session fault,w)) ∨ ∃ step, w.session.findStep
    stepId = some step ∧ failStep e w stepId error modelId = checkpoint e
    {w with session := failFirst e w.session stepId error modelId} 0 ("step_failed:" ++ stepId) := by
  rw [failStep]
  cases hfind : w.session.findStep stepId with
  | none => exact .inl ⟨_,rfl⟩
  | some step => exact .inr ⟨step,rfl,rfl⟩

/-- The step that `resume_from_failure` accepts. -/
structure Resumable (s : ExecutionSession) (stepId : String) (step : StepRecord) : Prop where
  found : s.findStep stepId = some step
  allowed : ¬(step.committed = true ∧ step.sideEffectKind = .irreversible)

/-- `resume_from_failure` has logged the failure before it refuses. -/
theorem resumeFromFailure_cases (w : World) (failure : FailureEntry) (model passport : Option String) (reason : String) :
    ((∀ step, ¬Resumable w.session failure.stepId step) ∧ ∃ fault, resumeFromFailure e w failure model passport reason =
      .error (.session fault,{w with session := logFailure w.session failure model passport})) ∨
    ∃ step, Resumable w.session failure.stepId step ∧ resumeFromFailure e w failure model passport reason =
      checkpoint e {w with session := rearm e (logFailure w.session failure model passport) failure.stepId step} 0 reason := by
  rw [resumeFromFailure]
  simp only [logFailure_findStep]
  cases hfind : w.session.findStep failure.stepId with
  | none => exact .inl ⟨fun step h => absurd (hfind.symm.trans h.found) (Option.some_ne_none step).symm,_,rfl⟩
  | some step =>
    simp only
    split
    · rename_i hrefused
      refine .inl ⟨fun step' h => ?_,_,rfl⟩
      cases hfind.symm.trans h.found
      exact h.allowed hrefused
    · rename_i hallowed
      exact .inr ⟨step,⟨hfind,hallowed⟩,rfl⟩

end

/-! ### What an operation leaves alone -/

/-- The identity of the session, its task, its artifacts and the ids of its steps are the same. -/
structure Frame (s t : ExecutionSession) : Prop where
  sessionId : t.sessionId = s.sessionId
  schemaVersion : t.schemaVersion = s.schemaVersion
  taskSpec : t.taskSpec = s.taskSpec
  artifacts : t.artifacts = s.artifacts
  ids : t.steps.map StepRecord.stepId = s.steps.map StepRecord.stepId

theorem Frame.refl (s : ExecutionSession) : Frame s s := ⟨rfl,rfl,rfl,rfl,rfl⟩

variable {t : ExecutionSession}

theorem Frame.trans {s u : ExecutionSession} (h : Frame s t) (h' : Frame t u) : Frame s u :=
  ⟨h'.sessionId.trans h.sessionId,h'.schemaVersion.trans h.schemaVersion,h'.taskSpec.trans h.taskSpec,
    h'.artifacts.trans h.artifacts,h'.ids.trans h.ids⟩

theorem Valid.frame {s : ExecutionSession} (h : Valid s) (hframe : Frame s t) : Valid t where
  sessionId := hframe.sessionId ▸ h.sessionId
  schemaVersion := hframe.schemaVersion.trans h.schemaVersion
  steps hnil := by
    have hids := hframe.ids
    rw [hnil,List.map_nil] at hids
    exact h.steps (List.map_eq_nil_iff.mp hids.symm)

section
variable (e : Env) (s : ExecutionSession)

theorem noted_frame (n : ℕ) (reason : String) : Frame s (noted e s n reason) := ⟨rfl,rfl,rfl,rfl,rfl⟩

variable (modelId : Option String)

theorem bindModel_frame : Frame s (s.bindModel modelId) := by
  cases modelId <;> exact ⟨rfl,rfl,rfl,rfl,rfl⟩

theorem started_frame : Frame s (started s modelId) := by
  cases modelId <;> exact ⟨rfl,rfl,rfl,rfl,rfl⟩

theorem commitFirst_frame (stepId : String) : Frame s (commitFirst s stepId) :=
  ⟨rfl,rfl,rfl,rfl,changeFirst_ids (by exact fun _ => rfl) s.steps⟩

theorem failFirst_frame (stepId error : String) (modelId : Option String) : Frame s (failFirst e s stepId error modelId) :=
  ⟨rfl,rfl,rfl,rfl,changeFirst_ids (by exact fun _ => rfl) s.steps⟩

theorem finishStep_frame (stepId : String) (modelId : Option String) (tokensUsed : ℤ) (evidenceReceipt : Option String) :
    Frame s (finishStep e s stepId modelId tokensUsed evidenceReceipt) := by
  rw [finishStep]
  split
  · exact ⟨rfl,rfl,rfl,rfl,changeFirst_ids (by exact fun _ => rfl) s.steps⟩
  · exact ⟨rfl,rfl,rfl,rfl,changeFirst_ids (by exact fun _ => rfl) s.steps⟩

theorem logFailure_frame (failure : FailureEntry) (model passport : Option String) :
    Frame s (logFailure s failure model passport) := by
  cases model <;> exact ⟨rfl,rfl,rfl,rfl,rfl⟩

theorem rearm_frame (stepId : String) (step : StepRecord) : Frame s (rearm e s stepId step) := by
  rw [rearm]
  split
  · exact ⟨rfl,rfl,rfl,rfl,changeFirst_ids (by exact fun _ => rfl) s.steps⟩
  · split
    · exact ⟨rfl,rfl,rfl,rfl,changeFirst_ids (by exact fun _ => rfl) s.steps⟩
    · exact ⟨rfl,rfl,rfl,rfl,rfl⟩

end

section
variable {e : Env}
variable {w : World}

theorem checkpoint_frame {s : ExecutionSession} (n : ℕ) (reason : String) (h : Frame s w.session) :
    Frame s (afterwards (checkpoint e w n reason)).session := by
  rcases checkpoint_cases e w n reason with ⟨fault,hresult,-⟩ | ⟨plane,appended,hresult,-⟩
  · rw [hresult]
    exact h.trans (noted_frame e w.session n reason)
  · rw [hresult]
    exact h.trans (noted_frame e w.session n reason)

theorem commitStep_frame {s : ExecutionSession} (stepId : String) (step : StepRecord) (h : Frame s w.session) :
    Frame s (afterwards (commitStep e w stepId step)).session := by
  rw [commitStep]
  split
  · exact checkpoint_frame 0 _ (h.trans (commitFirst_frame w.session stepId))
  · exact h

theorem perform_frame (s : ExecutionSession) (plane : MemoryPlane) {op : SessionOp}
    (hop : ∀ name value, op ≠ .recordArtifact name value) : Frame s (afterwards (perform e s plane op)).session := by
  cases op with
  | checkpoint reason => exact checkpoint_frame 0 reason (.refl s)
  | start modelId =>
    rcases start_cases e ⟨s,plane,[]⟩ modelId with ⟨fault,hresult⟩ | ⟨-,-,hresult⟩
    · rw [perform,hresult]
      exact .refl s
    · rw [perform,hresult]
      exact checkpoint_frame 0 _ (started_frame s modelId)
  | completeStep stepId modelId tokensUsed evidenceReceipt =>
    rcases completeStep_cases e ⟨s,plane,[]⟩ stepId modelId tokensUsed evidenceReceipt with
      ⟨fault,hresult⟩ | ⟨step,-,hresult⟩
    · rw [perform,hresult]
      exact .refl s
    · have hcommit := commitStep_frame (e := e) (w := ⟨s.bindModel modelId,plane,[]⟩) stepId step (bindModel_frame s modelId)
      rw [perform,hresult]
      cases hw : commitStep e ⟨s.bindModel modelId,plane,[]⟩ stepId step with
      | error fault =>
        rw [hw] at hcommit
        exact hcommit
      | ok w =>
        rw [hw] at hcommit
        exact checkpoint_frame 1 _ (hcommit.trans (finishStep_frame e w.session stepId modelId tokensUsed evidenceReceipt))
  | failStep stepId error modelId =>
    rcases failStep_cases e ⟨s,plane,[]⟩ stepId error modelId with ⟨fault,hresult⟩ | ⟨step,-,hresult⟩
    · rw [perform,hresult]
      exact .refl s
    · rw [perform,hresult]
      exact checkpoint_frame 0 _ (failFirst_frame e s stepId error modelId)
  | resumeFromFailure failure model passport reason =>
    have hlogged := logFailure_frame s failure model passport
    rcases resumeFromFailure_cases e ⟨s,plane,[]⟩ failure model passport reason with ⟨-,fault,hresult⟩ | ⟨step,-,hresult⟩
    · rw [perform,hresult]
      exact hlogged
    · rw [perform,hresult]
      exact checkpoint_frame 0 _ (hlogged.trans (rearm_frame e _ failure.stepId step))
  | recordArtifact name value => exact absurd rfl (hop name value)

end
end Verdict.Session

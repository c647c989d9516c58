import Verdict.Session.Consistency
import Verdict.Session.Resuming

/-! # Careful runs of a session

A run starts with a new session under an id that the plane does not know. Its operations meet a
condition on the session before them, its writes succeed, and a crash strikes only where the
cursor comes back on a step that is not completed. Then every state is consistent, what was
completed stays so, and an operation that raises changes nothing.
-/
namespace Verdict.Session
open ExecutionSession
open List (mem_cons_self not_mem_nil)
open MemoryRecord (recordId)

/-! ### Checkpoints under a new id -/

def recordIdOf (sessionId : String) (seq : ℕ) : String := sessionId ++ ":ckpt:" ++ toString seq

variable {sessionId : String} {n : ℕ}

theorem recordIdOf_inj {m : ℕ} (h : recordIdOf sessionId m = recordIdOf sessionId n) : m = n := by
  have hrepr : Nat.repr m = Nat.repr n := (String.append_right_inj _).mp h
  have hdigits := congrArg String.toList hrepr
  rw [Nat.toList_repr,Nat.toList_repr] at hdigits
  rw [← Nat.ofDigitChars_ten_toDigits (n := m),hdigits,Nat.ofDigitChars_ten_toDigits]

/-- The plane holds none of the checkpoints that the session has still to write. -/
def Fresh (plane : MemoryPlane) (s : ExecutionSession) : Prop :=
  ∀ n, s.checkpoints.length < n → recordIdOf s.sessionId n ∉ plane.rows.map recordId

/-- What is resumed in place of a session: its steps, their bookkeeping, and the cursor that the
constructor leaves. -/
structure Restores (s t : ExecutionSession) : Prop where
  steps : t.steps = s.steps
  completedSteps : t.completedSteps = s.completedSteps
  state : t.state = s.state
  checkpoints : t.checkpoints = s.checkpoints
  sessionId : t.sessionId = s.sessionId
  schemaVersion : t.schemaVersion = s.schemaVersion
  cursor : t.currentStep = filledCursor s

def Backed (plane : MemoryPlane) (s : ExecutionSession) : Prop :=
  ∀ now quoted t, resume now quoted s.sessionId plane = .ok t → Restores s t

variable {t : ExecutionSession}

theorem Fresh.of_eq {plane : MemoryPlane} {s : ExecutionSession} (h : Fresh plane s) (hid : t.sessionId = s.sessionId)
    (hcheckpoints : t.checkpoints = s.checkpoints) : Fresh plane t := by
  rw [Fresh,hid,hcheckpoints]
  exact h

variable {now : ℚ}

theorem insert_ids {plane : MemoryPlane} {r : MemoryRecord} (hnew : r.recordId ∉ plane.rows.map recordId) :
    (plane.insert now r hnew).rows.map recordId = plane.rows.map recordId ++ [r.recordId] := by
  rw [MemoryPlane.insert,List.map_append,cleared_ids]
  rfl

theorem checkpoint_fresh {e : Env} {s : ExecutionSession} {plane : MemoryPlane} (hdisk : e.disk n = true)
    (hvalid : Valid s) (hfresh : Fresh plane s) (written : List Saved) (reason : String) :
    ∃ p, checkpoint e ⟨s,plane,written⟩ n reason = .ok ⟨noted e s n reason,p,written ++ [⟨p,noted e s n reason,true⟩]⟩ ∧
      Fresh p (noted e s n reason) ∧ Backed p (noted e s n reason) := by
  have hnew : (checkpointRow (noted e s n reason) (checkpointId s)).recordId ∉ plane.rows.map recordId :=
    hfresh (s.checkpoints.length + 1) (Nat.lt_succ_self _)
  have hsession : s.sessionId ≠ "" := by
    intro h
    exact hvalid.sessionId (by rw [h]; decide)
  have hrecord : checkpointId s ≠ "" := by
    intro h
    have hnil := congrArg String.toList h
    rw [checkpointId,String.toList_append,String.toList_append] at hnil
    exact absurd (List.append_eq_nil_iff.mp (List.append_eq_nil_iff.mp hnil).1).2 (by decide)
  have hput : plane.put e.digest (e.clock (3 * n + 2)) (checkpointRow (noted e s n reason) (checkpointId s)) =
      .ok (plane.insert (e.clock (3 * n + 2)) (checkpointRow (noted e s n reason) (checkpointId s)) hnew,true) := by
    have hgiven : ¬((checkpointRow (noted e s n reason) (checkpointId s)).recordId = "" ∨
        (checkpointRow (noted e s n reason) (checkpointId s)).space = "" ∨
        (checkpointRow (noted e s n reason) (checkpointId s)).key = "") := by
      rintro (h | h | h)
      · exact hrecord h
      · exact absurd (show SESSION_NAMESPACE = "" from h) (by decide)
      · exact hsession h
    rw [MemoryPlane.put,if_neg hgiven,dif_neg hnew]
  refine ⟨plane.insert (e.clock (3 * n + 2)) (checkpointRow (noted e s n reason) (checkpointId s)) hnew,?_,?_,?_⟩
  · rw [checkpoint,persist,if_neg (by rw [hdisk]; exact Bool.noConfusion)]
    simp only [hput]
  · intro m hm
    have hlonger : (noted e s n reason).checkpoints.length = s.checkpoints.length + 1 := List.length_append
    rw [hlonger] at hm
    rw [insert_ids,List.mem_append,List.mem_singleton]
    rintro (hold | hlast)
    · exact hfresh m (by omega) hold
    · have heq : m = s.checkpoints.length + 1 := recordIdOf_inj (show recordIdOf s.sessionId m = recordIdOf s.sessionId _ from hlast)
      omega
  · intro now quoted t hresume
    have hvalid' : Valid (noted e s n reason) := hvalid.frame (noted_frame e s n reason)
    rw [resume_put hput,hvalid'.postInit] at hresume
    cases hresume
    exact ⟨rfl,rfl,rfl,rfl,rfl,rfl,rfl⟩

/-! ### Conditions -/

def Careful (s : ExecutionSession) : SessionOp → Prop
  | .completeStep stepId _ _ _ => ∀ step, Completable s stepId step →
    (∃ x ∈ others stepId s.steps, x.status = .pending) ∨ ∀ x ∈ others stepId s.steps, x.status = .completed
  | .failStep stepId _ _ => ∀ step, s.findStep stepId = some step → step.status ≠ .completed
  | .resumeFromFailure failure _ _ _ => ∃ step, Resumable s failure.stepId step ∧
    (step.committed = true → ∃ x ∈ others failure.stepId s.steps, x.status ≠ .completed) ∧
    (step.committed = false → Unfinished s.steps failure.stepId)
  | _ => True

/-- A session that can be restarted from its checkpoint: the constructor finds it a cursor that is
not on a completed step. -/
def Restartable (s : ExecutionSession) : Prop :=
  s.currentStep = none → s.firstPending = none → ∃ first rest, s.steps = first :: rest ∧ first.status ≠ .completed

structure State where
  session : ExecutionSession
  plane : MemoryPlane

/-- A careful operation, which may raise, or a crash, after the last checkpoint or a checkpoint in
the course of an operation. -/
inductive Step : State → State → Prop
  | perform {st : State} {e : Env} {op : SessionOp} : (∀ n, e.disk n = true) → Careful st.session op →
    Step st ⟨(afterwards (perform e st.session st.plane op)).session,(afterwards (perform e st.session st.plane op)).plane⟩
  | crash {st : State} {now : ℚ} {quoted : String → String} {t : ExecutionSession} : Restartable st.session →
    resume now quoted st.session.sessionId st.plane = .ok t → Step st ⟨t,st.plane⟩
  | crashDuring {st : State} {e : Env} {op : SessionOp} {saved : Saved} {now : ℚ} {quoted : String → String}
    {t : ExecutionSession} : (∀ n, e.disk n = true) → Careful st.session op →
    saved ∈ (afterwards (perform e st.session st.plane op)).written → Restartable saved.session →
    resume now quoted st.session.sessionId saved.plane = .ok t → Step st ⟨t,saved.plane⟩

/-! ### One step -/

structure Sound (s : ExecutionSession) (plane : MemoryPlane) : Prop where
  valid : Valid s
  consistent : Consistent s
  fresh : Fresh plane s
  backed : Backed plane s

/-- What an operation on the session leaves: a sound state, now and in each of its checkpoints. -/
structure Settles (s : ExecutionSession) (w : World) : Prop where
  sound : Sound w.session w.plane
  kept : Kept s w.session
  sessionId : w.session.sessionId = s.sessionId
  written : ∀ saved ∈ w.written,
    Sound saved.session saved.plane ∧ Kept s saved.session ∧ saved.session.sessionId = s.sessionId

theorem Kept.of_steps {s : ExecutionSession} (h : t.steps = s.steps) : Kept s t := by
  rw [Kept,h]
  exact Kept.refl s

theorem checkpoint_settles {e : Env} {s : ExecutionSession} {plane : MemoryPlane} (written : List Saved)
    (hdisk : ∀ n, e.disk n = true) (hvalid : Valid t) (hconsistent : Consistent t) (hfresh : Fresh plane t) (hkept : Kept s t)
    (hid : t.sessionId = s.sessionId) (reason : String)
    (hwritten : ∀ saved ∈ written,
      Sound saved.session saved.plane ∧ Kept s saved.session ∧ saved.session.sessionId = s.sessionId) :
    ∃ w, checkpoint e ⟨t,plane,written⟩ n reason = .ok w ∧ Settles s w := by
  obtain ⟨p,hresult,hfresh',hbacked⟩ := checkpoint_fresh (e := e) (hdisk n) hvalid hfresh written reason
  have hsound : Sound (noted e t n reason) p :=
    ⟨hvalid.frame (noted_frame e t n reason),hconsistent.noted n reason,hfresh',hbacked⟩
  have hkept' : Kept s (noted e t n reason) := hkept
  refine ⟨_,hresult,hsound,hkept',hid,fun saved hsaved => ?_⟩
  rcases List.mem_append.mp hsaved with hold | hlast
  · exact hwritten saved hold
  · rw [List.mem_singleton.mp hlast]
    exact ⟨hsound,hkept',hid⟩

section Performed
variable {e : Env} {s : ExecutionSession} {plane : MemoryPlane} (hdisk : ∀ n, e.disk n = true) (hsound : Sound s plane)
include hdisk hsound

variable {stepId : String} {step : StepRecord}

theorem completeStep_settles (hstep : Completable s stepId step)
    (hothers : (∃ x ∈ others stepId s.steps, x.status = .pending) ∨ ∀ x ∈ others stepId s.steps, x.status = .completed)
    (modelId : Option String) (tokensUsed : ℤ) (evidenceReceipt : Option String) :
    ∃ w, Except.bind (commitStep e ⟨s.bindModel modelId,plane,[]⟩ stepId step) (fun w =>
      checkpoint e {w with session := finishStep e w.session stepId modelId tokensUsed evidenceReceipt} 1
        ("step_completed:" ++ stepId)) = .ok w ∧ Settles s w := by
  have hopen : step.status ≠ .completed := by
    rw [hstep.pending]
    exact StepStatus.noConfusion
  have hfind : (s.bindModel modelId).findStep stepId = some step := by
    rw [findStep,bindModel_steps]
    exact hstep.found
  -- what the first part of the operation leaves
  have hcommit : ∃ w, commitStep e ⟨s.bindModel modelId,plane,[]⟩ stepId step = .ok w ∧
      Valid w.session ∧ Consistent w.session ∧ Fresh w.plane w.session ∧ Kept s w.session ∧
      w.session.sessionId = s.sessionId ∧ ∀ saved ∈ w.written,
        Sound saved.session saved.plane ∧ Kept s saved.session ∧ saved.session.sessionId = s.sessionId := by
    have hvalid := hsound.valid.frame (bindModel_frame s modelId)
    have hconsistent := hsound.consistent.bindModel modelId
    have hid := (bindModel_frame s modelId).sessionId
    have hfresh : Fresh plane (s.bindModel modelId) := hsound.fresh.of_eq hid (by cases modelId <;> rfl)
    have hkept : Kept s (s.bindModel modelId) := .of_steps (bindModel_steps s modelId)
    rw [commitStep]
    split
    · have hchanged : Kept (s.bindModel modelId) (commitFirst (s.bindModel modelId) stepId) :=
        changeFirst_kept hfind ⟨rfl,rfl,fun _ => rfl,id,fun _ _ h => h⟩
      obtain ⟨w,hresult,hsettles⟩ := checkpoint_settles (e := e) (n := 0) [] hdisk
        (hvalid.frame (commitFirst_frame _ stepId)) (hconsistent.commitFirst hfind hopen)
        (hfresh.of_eq rfl rfl) (hkept.trans hchanged) hid ("step_committed:" ++ stepId) fun _ h => absurd h not_mem_nil
      exact ⟨w,hresult,hsettles.sound.valid,hsettles.sound.consistent,hsettles.sound.fresh,hsettles.kept,
        hsettles.sessionId,hsettles.written⟩
    · exact ⟨_,rfl,hvalid,hconsistent,hfresh,hkept,hid,fun _ h => absurd h not_mem_nil⟩
  obtain ⟨w,hresult,hvalid,hconsistent,hfresh,hkept,hid,hwritten⟩ := hcommit
  obtain ⟨⟨committed,hfind'⟩,hsame⟩ := commitStep_ok e hfind hresult
  have hothers' : (∃ x ∈ others stepId w.session.steps, x.status = .pending) ∨
      ∀ x ∈ others stepId w.session.steps, x.status = .completed := by
    rw [hsame,bindModel_steps]
    exact hothers
  have hfinished : Kept w.session (finishStep e w.session stepId modelId tokensUsed evidenceReceipt) := by
    have hchanged := changeFirst_kept hfind' (f := fun step => {step with
        status := .completed
        completedAt := some (e.clock 6)
        modelId := w.session.orModel modelId
        tokensUsed := tokensUsed
        evidenceReceipt := evidenceReceipt})
      ⟨rfl,rfl,id,fun _ => rfl,fun _ _ _ => StepStatus.noConfusion⟩
    rw [finishStep]
    split
    · exact hchanged
    · exact hchanged
  have hcheckpoints : (finishStep e w.session stepId modelId tokensUsed evidenceReceipt).checkpoints = w.session.checkpoints := by
    rw [finishStep]
    split <;> rfl
  have hframe := finishStep_frame e w.session stepId modelId tokensUsed evidenceReceipt
  rw [hresult]
  exact checkpoint_settles w.written hdisk (hvalid.frame hframe) (hconsistent.finishStep hfind' hothers' modelId tokensUsed evidenceReceipt)
    (hfresh.of_eq hframe.sessionId hcheckpoints) (hkept.trans hfinished) (hframe.sessionId.trans hid) _ hwritten

theorem start_settles (hstate : s.state ≠ .completed) (modelId : Option String) :
    ∃ w, checkpoint e ⟨started s modelId,plane,[]⟩ 0 "started" = .ok w ∧ Settles s w := by
  have hframe := started_frame s modelId
  have hsteps : (started s modelId).steps = s.steps := by cases modelId <;> rfl
  have hcheckpoints : (started s modelId).checkpoints = s.checkpoints := by cases modelId <;> rfl
  exact checkpoint_settles [] hdisk (hsound.valid.frame hframe) (hsound.consistent.started hstate modelId)
    (hsound.fresh.of_eq hframe.sessionId hcheckpoints) (.of_steps hsteps) hframe.sessionId _
    fun _ h => absurd h not_mem_nil

theorem failStep_settles (hfind : s.findStep stepId = some step)
    (hopen : step.status ≠ .completed) (error : String) (modelId : Option String) :
    ∃ w, checkpoint e ⟨failFirst e s stepId error modelId,plane,[]⟩ 0 ("step_failed:" ++ stepId) = .ok w ∧ Settles s w := by
  have hframe := failFirst_frame e s stepId error modelId
  have hkept : Kept s (failFirst e s stepId error modelId) :=
    changeFirst_kept hfind ⟨rfl,rfl,id,fun h => absurd h hopen,fun _ _ _ => StepStatus.noConfusion⟩
  exact checkpoint_settles [] hdisk (hsound.valid.frame hframe) (hsound.consistent.failFirst hfind hopen error modelId)
    (hsound.fresh.of_eq rfl rfl) hkept hframe.sessionId _ fun _ h => absurd h not_mem_nil

theorem resumeFromFailure_settles {failure : FailureEntry} (hstep : Resumable s failure.stepId step)
    (hcommitted : step.committed = true → ∃ x ∈ others failure.stepId s.steps, x.status ≠ .completed)
    (huncommitted : step.committed = false → Unfinished s.steps failure.stepId) (model passport : Option String)
    (reason : String) :
    ∃ w, checkpoint e ⟨rearm e (logFailure s failure model passport) failure.stepId step,plane,[]⟩ 0 reason = .ok w ∧
      Settles s w := by
  have hlogged := logFailure_frame s failure model passport
  have hconsistent := hsound.consistent.logFailure failure model passport
  have hfind : (logFailure s failure model passport).findStep failure.stepId = some step := by
    rw [logFailure_findStep]
    exact hstep.found
  have hframe := hlogged.trans (rearm_frame e (logFailure s failure model passport) failure.stepId step)
  have hcheckpoints : (rearm e (logFailure s failure model passport) failure.stepId step).checkpoints = s.checkpoints := by
    rw [rearm]
    split
    · cases model <;> rfl
    · cases model <;> rfl
  have hsame : Kept s (logFailure s failure model passport) := .of_steps (logFailure_steps s failure model passport)
  have hrearmed : Consistent (rearm e (logFailure s failure model passport) failure.stepId step) ∧
      Kept (logFailure s failure model passport) (rearm e (logFailure s failure model passport) failure.stepId step) := by
    by_cases hc : step.committed = true
    · refine ⟨hconsistent.rearm_committed hfind hc (by rw [logFailure_steps]; exact hcommitted hc),?_⟩
      rw [rearm,if_pos hc]
      exact changeFirst_kept hfind ⟨rfl,rfl,id,fun _ => rfl,fun _ _ _ => StepStatus.noConfusion⟩
    · refine ⟨hconsistent.rearm_uncommitted hfind hc
        (by rw [logFailure_steps]; exact huncommitted (Bool.eq_false_iff.mpr hc)),?_⟩
      rw [rearm,if_neg hc]
      split
      · rename_i hfailed
        exact changeFirst_kept hfind ⟨rfl,rfl,id,fun h => absurd (hfailed.symm.trans h) StepStatus.noConfusion,
          fun h => absurd h hc⟩
      · exact Kept.refl (logFailure s failure model passport)
  exact checkpoint_settles [] hdisk (hsound.valid.frame hframe) hrearmed.1 (hsound.fresh.of_eq hframe.sessionId hcheckpoints)
    (hsame.trans hrearmed.2) hframe.sessionId _ fun _ h => absurd h not_mem_nil

theorem perform_settles {op : SessionOp} (hcareful : Careful s op) :
    (∃ fault, perform e s plane op = .error (fault,⟨s,plane,[]⟩)) ∨ ∃ w, perform e s plane op = .ok w ∧ Settles s w := by
  cases op with
  | checkpoint reason =>
    exact .inr (checkpoint_settles [] hdisk hsound.valid hsound.consistent hsound.fresh (Kept.refl s) rfl reason
      fun _ h => absurd h not_mem_nil)
  | start modelId =>
    rcases start_cases e ⟨s,plane,[]⟩ modelId with ⟨fault,hresult⟩ | ⟨-,hstate,hresult⟩
    · exact .inl ⟨_,hresult⟩
    · rw [perform,hresult]
      exact .inr (start_settles hdisk hsound hstate modelId)
  | completeStep stepId modelId tokensUsed evidenceReceipt =>
    rcases completeStep_cases e ⟨s,plane,[]⟩ stepId modelId tokensUsed evidenceReceipt with
      ⟨fault,hresult⟩ | ⟨step,hstep,hresult⟩
    · exact .inl ⟨_,hresult⟩
    · rw [perform,hresult]
      exact .inr (completeStep_settles hdisk hsound hstep (hcareful step hstep) modelId tokensUsed evidenceReceipt)
  | failStep stepId error modelId =>
    rcases failStep_cases e ⟨s,plane,[]⟩ stepId error modelId with ⟨fault,hresult⟩ | ⟨step,hfind,hresult⟩
    · exact .inl ⟨_,hresult⟩
    · rw [perform,hresult]
      exact .inr (failStep_settles hdisk hsound hfind (hcareful step hfind) error modelId)
  | resumeFromFailure failure model passport reason =>
    obtain ⟨step,hstep,hcommitted,huncommitted⟩ := hcareful
    rcases resumeFromFailure_cases e ⟨s,plane,[]⟩ failure model passport reason with ⟨hnone,-⟩ | ⟨step',hstep',hresult⟩
    · exact absurd hstep (hnone step)
    · cases hstep.found.symm.trans hstep'.found
      rw [perform,hresult]
      exact .inr (resumeFromFailure_settles hdisk hsound hstep hcommitted huncommitted model passport reason)
  | recordArtifact name value =>
    have hsound' : Sound (recordArtifact e s name value) plane :=
      ⟨⟨hsound.valid.sessionId,hsound.valid.schemaVersion,hsound.valid.steps⟩,
        ⟨hsound.consistent.listed,hsound.consistent.finished,hsound.consistent.cursor⟩,hsound.fresh,
        fun now quoted t hresume => by
          obtain ⟨hsteps,hcompleted,hstate,hcheckpoints,hid,hversion,hcursor⟩ := hsound.backed now quoted t hresume
          exact ⟨hsteps,hcompleted,hstate,hcheckpoints,hid,hversion,hcursor⟩⟩
    exact .inr ⟨_,rfl,hsound',Kept.refl s,rfl,fun _ h => absurd h not_mem_nil⟩

end Performed

theorem Sound.crash {s : ExecutionSession} {plane : MemoryPlane} (h : Sound s plane) (hrestart : Restartable s)
    {quoted : String → String} (hresume : resume now quoted s.sessionId plane = .ok t) : Sound t plane ∧ Kept s t := by
  have hrestored := h.backed now quoted t hresume
  refine ⟨⟨⟨?_,?_,?_⟩,⟨?_,?_,?_⟩,h.fresh.of_eq hrestored.sessionId hrestored.checkpoints,?_⟩,.of_steps hrestored.steps⟩
  · rw [hrestored.sessionId]
    exact h.valid.sessionId
  · exact hrestored.schemaVersion.trans h.valid.schemaVersion
  · rw [hrestored.steps]
    exact h.valid.steps
  · rw [hrestored.steps,hrestored.completedSteps]
    exact h.consistent.listed
  · rw [hrestored.steps,hrestored.state]
    exact h.consistent.finished
  · rw [hrestored.steps,hrestored.cursor]
    intro stepId hcursor
    rw [filledCursor] at hcursor
    split at hcursor
    · rename_i hsome
      exact h.consistent.cursor stepId (hsome.trans hcursor)
    · rename_i hnone
      split at hcursor
      · rename_i hpending
        exact firstPending_unfinished (hpending.trans hcursor)
      · rename_i hno
        obtain ⟨first,rest,hsteps,hopen⟩ := hrestart hnone hno
        rw [hsteps] at hcursor ⊢
        exact ⟨first,mem_cons_self,Option.some.inj hcursor,hopen⟩
  · intro now' quoted' t' hresume'
    rw [hrestored.sessionId] at hresume'
    have hagain := h.backed now' quoted' t' hresume'
    have hfilled : filledCursor t = filledCursor s := by
      obtain ⟨stepId,hstep⟩ := Option.ne_none_iff_exists'.mp (filledCursor_ne_none h.valid.steps)
      rw [filledCursor,hrestored.cursor,hstep]
    exact ⟨hagain.steps.trans hrestored.steps.symm,hagain.completedSteps.trans hrestored.completedSteps.symm,
      hagain.state.trans hrestored.state.symm,hagain.checkpoints.trans hrestored.checkpoints.symm,
      hagain.sessionId.trans hrestored.sessionId.symm,hagain.schemaVersion.trans hrestored.schemaVersion.symm,
      hagain.cursor.trans hfilled.symm⟩

variable {st st' : State}

theorem Step.sound (h : Step st st') (hsound : Sound st.session st.plane) :
    Sound st'.session st'.plane ∧ Kept st.session st'.session := by
  cases h with
  | @perform e op hdisk hcareful =>
    rcases perform_settles hdisk hsound hcareful with ⟨fault,hresult⟩ | ⟨w,hresult,hsettles⟩
    · rw [hresult]
      exact ⟨hsound,Kept.refl st.session⟩
    · rw [hresult]
      exact ⟨hsettles.sound,hsettles.kept⟩
  | crash hrestart hresume => exact hsound.crash hrestart hresume
  | @crashDuring e op saved now quoted t hdisk hcareful hsaved hrestart hresume =>
    rcases perform_settles hdisk hsound hcareful with ⟨fault,hresult⟩ | ⟨w,hresult,hsettles⟩
    · rw [hresult] at hsaved
      exact absurd hsaved not_mem_nil
    · rw [hresult] at hsaved
      obtain ⟨hsound',hkept,hid⟩ := hsettles.written saved hsaved
      rw [← hid] at hresume
      obtain ⟨hcrashed,hsame⟩ := hsound'.crash hrestart hresume
      exact ⟨hcrashed,hkept.trans hsame⟩

theorem run_sound (h : Relation.ReflTransGen Step st st') (hsound : Sound st.session st.plane) :
    Sound st'.session st'.plane ∧ Kept st.session st'.session := by
  induction h with
  | refl => exact ⟨hsound,Kept.refl st.session⟩
  | tail _ hstep ih =>
    obtain ⟨hnext,hkept⟩ := hstep.sound ih.1
    exact ⟨hnext,ih.2.trans hkept⟩

/-! ### Runs of a new session -/

structure NewId (plane : MemoryPlane) (sessionId : String) : Prop where
  ids : ∀ n, recordIdOf sessionId n ∉ plane.rows.map recordId
  key : ∀ now, plane.get now SESSION_NAMESPACE sessionId = none

theorem newSession_sound {e : Env} {taskSpec : Fields} {steps : List (String × String × SideEffectKind)}
    {modelId : Option String} {s : ExecutionSession} {plane : MemoryPlane}
    (h : newSession e sessionId taskSpec steps modelId = .ok s) (hnew : NewId plane sessionId) : Sound s plane := by
  obtain ⟨hid,first,rest,rfl,rfl⟩ := newSession_ok h
  have hpending : ∀ step ∈ (first :: rest).map fun step : String × String × SideEffectKind =>
      ({stepId := step.1, name := step.2.1, status := .pending, startedAt := e.clock 6, sideEffectKind := step.2.2} : StepRecord),
      step.status ≠ .completed := by
    intro step hstep
    obtain ⟨given,-,rfl⟩ := List.mem_map.mp hstep
    exact StepStatus.noConfusion
  refine ⟨⟨hid,rfl,List.cons_ne_nil _ _⟩,⟨⟨List.nodup_nil,fun stepId => ?_⟩,?_,fun stepId hcursor => ?_⟩,
    fun n _ => hnew.ids n,fun now quoted t hresume => ?_⟩
  · refine iff_of_false not_mem_nil ?_
    rintro ⟨step,hstep,-,hcompleted⟩
    exact hpending step hstep hcompleted
  · exact iff_of_false SessionState.noConfusion fun hall => hpending _ mem_cons_self (hall _ mem_cons_self)
  · cases hcursor
    exact ⟨_,mem_cons_self,rfl,StepStatus.noConfusion⟩
  · rw [resume,hnew.key now] at hresume
    cases hresume

/-- In every state of a careful run of a new session: the session is consistent, what was completed
or has an irreversible effect stays so in every later state, and a careful operation that raises
leaves the session as it was. -/
theorem completed_work_kept {e : Env} {sessionId : String} {taskSpec : Fields}
    {steps : List (String × String × SideEffectKind)} {modelId : Option String} {s : ExecutionSession}
    {plane : MemoryPlane} {st : State} (hcreate : newSession e sessionId taskSpec steps modelId = .ok s)
    (hnew : NewId plane sessionId) (hrun : Relation.ReflTransGen Step ⟨s,plane⟩ st) : Consistent st.session
    ∧ (∀ st', Relation.ReflTransGen Step st st' → Kept st.session st'.session) ∧ ∀ (e' : Env)
    (op : SessionOp) (fault : Fault) (w : World), (∀ n, e'.disk n = true) → Careful st.session op → perform
    e' st.session st.plane op = .error (fault,w) → w.session = st.session := by
  obtain ⟨hsound,-⟩ := run_sound hrun (newSession_sound hcreate hnew)
  refine ⟨hsound.consistent,fun st' hlater => (run_sound hlater hsound).2,fun e' op fault w hdisk hcareful hraised => ?_⟩
  rcases perform_settles hdisk hsound hcareful with ⟨fault',hresult⟩ | ⟨w',hresult,-⟩
  · cases hresult.symm.trans hraised
    rfl
  · cases hresult.symm.trans hraised

theorem steady_step (st : ExecutionSession × MemoryPlane) {op : SessionOp} (hcareful : Careful st.1 op) :
    Step ⟨st.1,st.2⟩ ⟨(performed st op).1,(performed st op).2⟩ :=
  .perform (fun _ => rfl) hcareful

theorem careful_build : Careful (performed (twoSteps,{}) (.start (some "m1"))).1 (.completeStep "build" none 40 (some "r1")) := by
  have hpending : ∃ x ∈ others "build" (performed (twoSteps,{}) (.start (some "m1"))).1.steps, x.status = .pending := by
    decide +kernel
  exact fun _ _ => .inl hpending

theorem careful_takeUp : Careful failedDeploy.1 takeUp := by
  have hdeploy : (failedDeploy.1.findStep "deploy").map (fun step => (step.committed,step.status)) = some (false,.failed) := by
    decide +kernel
  have hunfinished : ∃ x ∈ failedDeploy.1.steps, x.stepId = "deploy" ∧ x.status ≠ .completed := by decide +kernel
  obtain ⟨step,hfound,hstep⟩ := Option.map_eq_some_iff.mp hdeploy
  have hfree : step.committed = false := congrArg Prod.fst hstep
  refine ⟨step,⟨hfound,fun h => ?_⟩,fun h => ?_,fun _ => hunfinished⟩
  · cases hfree.symm.trans h.1
  · cases hfree.symm.trans h

/-- A step is completed, the next one fails and is taken up, and the process crashes. -/
theorem crashed_deploy_consistent : ∃ t, resume 2 id "run" (performed failedDeploy takeUp).2 = .ok t ∧ Consistent t ∧
    ∀ st', Relation.ReflTransGen Step ⟨t,(performed failedDeploy takeUp).2⟩ st' → Kept t st'.session := by
  have hnew : NewId {} "run" := ⟨fun n => not_mem_nil,fun now => rfl⟩
  have hfail : Careful (performed (performed (twoSteps,{}) (.start (some "m1"))) (.completeStep "build" none 40 (some "r1"))).1
      (.failStep "deploy" "timeout" none) := by
    have hpending : ((performed (performed (twoSteps,{}) (.start (some "m1"))) (.completeStep "build" none 40 (some "r1"))).1.findStep
        "deploy").map StepRecord.status = some .pending := by
      decide +kernel
    intro step hfound hcompleted
    rw [hfound] at hpending
    cases hcompleted.symm.trans (Option.some.inj hpending)
  have hid : (performed failedDeploy takeUp).1.sessionId = "run" := by decide +kernel
  have hcursor : (performed failedDeploy takeUp).1.currentStep = some "deploy" := by decide +kernel
  have hresume : ∃ t, resume 2 id "run" (performed failedDeploy takeUp).2 = .ok t := by
    have hok : (resume 2 id "run" (performed failedDeploy takeUp).2).isOk = true := by decide +kernel
    cases h : resume 2 id "run" (performed failedDeploy takeUp).2 with
    | ok t => exact ⟨t,rfl⟩
    | error fault => simp [h,Except.isOk,Except.toBool] at hok
  obtain ⟨t,ht⟩ := hresume
  have hrestart : Restartable (performed failedDeploy takeUp).1 := fun hnone => nomatch hcursor.symm.trans hnone
  have hcrash : Step ⟨(performed failedDeploy takeUp).1,(performed failedDeploy takeUp).2⟩ ⟨t,(performed failedDeploy takeUp).2⟩ :=
    .crash hrestart (by rw [hid]; exact ht)
  have hstart : Careful twoSteps (.start (some "m1")) := trivial
  have hrun := ((((Relation.ReflTransGen.single (steady_step (twoSteps,{}) hstart)).tail (steady_step _ careful_build)).tail
    (steady_step _ hfail)).tail (steady_step _ careful_takeUp)).tail hcrash
  obtain ⟨hconsistent,hkept,-⟩ := completed_work_kept twoSteps_new hnew hrun
  exact ⟨t,ht,hconsistent,hkept⟩

/-- A completed step can be failed, and an unknown step's failure is logged before it is refused. -/
theorem completed_step_failed :
    (¬∀ (s : ExecutionSession) (e : Env) (plane : MemoryPlane) (op : SessionOp), Reached s → op.Finite →
      Kept s (afterwards (perform e s plane op)).session) ∧
    ¬∀ (s : ExecutionSession) (e : Env) (plane : MemoryPlane) (op : SessionOp) (fault : Fault) (w : World), Reached s →
      op.Finite → perform e s plane op = .error (fault,w) → w.session.failureLog = s.failureLog := by
  constructor
  · intro hall
    have hreached : Reached (afterwards (perform steady oneStep {} (.completeStep "build" none 0 none))).session :=
      .perform oneStep_reached trivial
    have hkept := hall _ steady {} (.failStep "build" "late" none) hreached trivial
    have hbefore : ((afterwards (perform steady oneStep {} (.completeStep "build" none 0 none))).session.steps.map
        StepRecord.status) = [.completed] := by
      decide +kernel
    have hafter : ((afterwards (perform steady (afterwards (perform steady oneStep {} (.completeStep "build" none 0 none))).session
        {} (.failStep "build" "late" none))).session.steps.map StepRecord.status) = [.failed] := by
      decide +kernel
    obtain ⟨before,hbefore',hcompleted⟩ := List.map_eq_singleton_iff.mp hbefore
    obtain ⟨after,hafter',hfailed⟩ := List.map_eq_singleton_iff.mp hafter
    rw [Kept,hbefore',hafter'] at hkept
    cases hkept with
    | cons hstep _ => cases hfailed.symm.trans (hstep.completed hcompleted)
  · intro hall
    have hsame := hall oneStep steady {} (.resumeFromFailure ⟨"deploy","p","m","Timeout","late",1,none,none,none⟩ none none "failover")
      _ _ oneStep_reached trivial rfl
    exact absurd hsame (by decide +kernel)

end Verdict.Session

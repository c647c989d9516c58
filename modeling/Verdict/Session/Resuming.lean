import Verdict.Session.Operations

/-! # Resuming a session

After an operation that has checkpointed, the session that is resumed is the live one, unless
the operation has left the cursor empty: the constructor fills it.
-/
namespace Verdict.Session
open ExecutionSession

/-! ### Sessions that are reached -/

def SessionOp.Finite : SessionOp → Prop
  | .recordArtifact _ value => value.hasNan = false
  | _ => True

/-- A session that was created and operated on, with any plane at each operation; an operation
may also have raised. -/
inductive Reached : ExecutionSession → Prop
  | create {e : Env} {sessionId : String} {taskSpec : Fields} {steps : List (String × String × SideEffectKind)}
      {modelId : Option String} {s : ExecutionSession} :
      Json.Finite taskSpec → newSession e sessionId taskSpec steps modelId = .ok s → Reached s
  | perform {s : ExecutionSession} {e : Env} {plane : MemoryPlane} {op : SessionOp} :
      Reached s → op.Finite → Reached (afterwards (perform e s plane op)).session

variable {s : ExecutionSession}

theorem Whole.frame {t : ExecutionSession} (h : Whole s) (hframe : Frame s t) : Whole t where
  toValid := h.toValid.frame hframe
  taskSpec := hframe.taskSpec ▸ h.taskSpec
  artifacts := hframe.artifacts ▸ h.artifacts

theorem Whole.perform {e : Env} {s : ExecutionSession} (h : Whole s) (plane : MemoryPlane) {op : SessionOp} (hop : op.Finite) :
    Whole (afterwards (perform e s plane op)).session := by
  cases op with
  | recordArtifact name value => exact ⟨⟨h.sessionId,h.schemaVersion,h.steps⟩,h.taskSpec,h.artifacts.put hop⟩
  | _ => exact h.frame (perform_frame s plane fun _ _ => SessionOp.noConfusion)

variable {e : Env}

theorem newSession_ok {sessionId : String} {taskSpec : Fields} {steps : List (String × String × SideEffectKind)}
    {modelId : Option String} (h : newSession e sessionId taskSpec steps modelId = .ok s) :
    Admission.strip sessionId ≠ "" ∧ ∃ first rest, steps = first :: rest ∧ s = {
      sessionId := sessionId
      taskSpec := taskSpec
      steps := steps.map fun step => {
        stepId := step.1, name := step.2.1, status := .pending, startedAt := e.clock 6, sideEffectKind := step.2.2}
      currentStep := some first.1
      modelId := modelId
      createdAt := e.clock 6
      updatedAt := e.clock 6 } := by
  rw [newSession,postInit] at h
  split at h
  · cases h
  · rename_i hid
    rw [if_neg (not_not.mpr rfl)] at h
    cases steps with
    | nil => cases h
    | cons first rest =>
      cases h
      exact ⟨hid,first,rest,rfl,rfl⟩

theorem Reached.whole (h : Reached s) : Whole s := by
  induction h with
  | create hspec hcreate =>
    obtain ⟨hid,first,rest,hsteps,rfl⟩ := newSession_ok hcreate
    exact ⟨⟨hid,rfl,by rw [hsteps]; exact List.cons_ne_nil _ _⟩,hspec,rfl⟩
  | perform _ hop ih => exact ih.perform _ hop

/-! ### The cursor after an operation -/

def LeavesNoCursor (s : ExecutionSession) : SessionOp → Prop
  | .start _ => s.currentStep = none ∧ s.firstPending = none
  | .completeStep stepId _ _ _ => ∀ step ∈ others stepId s.steps, step.status ≠ .pending
  | .resumeFromFailure failure _ _ _ =>
    (∃ step, s.findStep failure.stepId = some step ∧ step.committed = true) ∧
      ∀ step ∈ others failure.stepId s.steps, step.status ≠ .pending
  | _ => s.currentStep = none

theorem started_cursor (modelId : Option String) :
    (started s modelId).currentStep = none ↔ s.currentStep = none ∧ s.firstPending = none := by
  rw [started]
  cases hcursor : s.currentStep with
  | none => exact (and_iff_right rfl).symm
  | some step => exact ⟨fun h => absurd h (Option.some_ne_none step),fun h => absurd h.1 (Option.some_ne_none step)⟩

variable {stepId : String} {step : StepRecord}

theorem finishStep_cursor (e : Env) (h : s.findStep stepId = some step)
    (modelId : Option String) (tokensUsed : ℤ) (evidenceReceipt : Option String) :
    (finishStep e s stepId modelId tokensUsed evidenceReceipt).currentStep = none ↔
      ∀ step ∈ others stepId s.steps, step.status ≠ .pending := by
  rw [finishStep]
  split
  · rename_i hnone
    refine iff_of_true rfl fun x hx => ?_
    exact firstPending_eq_none.mp hnone x ((mem_changeFirst h x).mpr (Or.inr hx))
  · rename_i next hnext
    obtain ⟨x,hx,-,hpending⟩ := firstPending_eq_some hnext
    refine iff_of_false (Option.some_ne_none next) fun hall => ?_
    rcases (mem_changeFirst h x).mp hx with rfl | hx
    · cases hpending
    · exact hall x hx hpending

theorem rearm_cursor (e : Env) (h : s.findStep stepId = some step) :
    (rearm e s stepId step).currentStep = none ↔
      step.committed = true ∧ ∀ step ∈ others stepId s.steps, step.status ≠ .pending := by
  rw [rearm]
  split
  · rename_i hcommitted
    rw [firstPending_eq_none,and_iff_right hcommitted]
    constructor
    · exact fun hall x hx => hall x ((mem_changeFirst h x).mpr (Or.inr hx))
    · intro hall x hx hpending
      rcases (mem_changeFirst h x).mp hx with rfl | hx
      · cases hpending
      · exact hall x hx hpending
  · rename_i hcommitted
    exact iff_of_false (Option.some_ne_none stepId) fun hboth => hcommitted hboth.1

variable {w : World}

theorem checkpoint_last {w' : World} {n : ℕ} {reason : String} (h : checkpoint e w n reason = .ok w') :
    w'.session = noted e w.session n reason ∧ ∃ appended,
      w.plane.put e.digest (e.clock (3 * n + 2)) (checkpointRow w'.session (checkpointId w.session)) = .ok (w'.plane,appended) ∧
      w'.written.getLast? = some ⟨w'.plane,w'.session,appended⟩ := by
  rcases checkpoint_cases e w n reason with ⟨fault,hresult,-⟩ | ⟨plane,appended,hresult,hput⟩
  · cases hresult.symm.trans h
  · cases hresult.symm.trans h
    exact ⟨rfl,appended,hput,List.getLast?_concat⟩

theorem perform_last {plane : MemoryPlane} {op : SessionOp}
    (h : perform e s plane op = .ok w) (hwritten : w.written ≠ []) :
    ∃ before n reason, checkpoint e before n reason = .ok w ∧ (before.session.currentStep = none ↔ LeavesNoCursor s op) := by
  cases op with
  | checkpoint reason => exact ⟨_,0,reason,h,Iff.rfl⟩
  | start modelId =>
    rcases start_cases e ⟨s,plane,[]⟩ modelId with ⟨fault,hresult⟩ | ⟨-,-,hresult⟩
    · cases hresult.symm.trans h
    · exact ⟨_,0,_,hresult.symm.trans h,started_cursor modelId⟩
  | completeStep stepId modelId tokensUsed evidenceReceipt =>
    rcases completeStep_cases e ⟨s,plane,[]⟩ stepId modelId tokensUsed evidenceReceipt with
      ⟨fault,hresult⟩ | ⟨step,hstep,hresult⟩
    · cases hresult.symm.trans h
    · have hboth := hresult.symm.trans h
      cases hw : commitStep e ⟨s.bindModel modelId,plane,[]⟩ stepId step with
      | error fault =>
        rw [hw] at hboth
        cases hboth
      | ok w' =>
        rw [hw] at hboth
        have hfind : (s.bindModel modelId).findStep stepId = some step := by
          rw [findStep,bindModel_steps]
          exact hstep.found
        obtain ⟨⟨committed,hfind'⟩,hothers⟩ := commitStep_ok e hfind hw
        refine ⟨_,1,_,hboth,(finishStep_cursor e hfind' modelId tokensUsed evidenceReceipt).trans ?_⟩
        rw [hothers,bindModel_steps]
        rfl
  | failStep stepId error modelId =>
    rcases failStep_cases e ⟨s,plane,[]⟩ stepId error modelId with ⟨fault,hresult⟩ | ⟨step,-,hresult⟩
    · cases hresult.symm.trans h
    · exact ⟨_,0,_,hresult.symm.trans h,Iff.rfl⟩
  | resumeFromFailure failure model passport reason =>
    rcases resumeFromFailure_cases e ⟨s,plane,[]⟩ failure model passport reason with ⟨-,fault,hresult⟩ | ⟨step,hstep,hresult⟩
    · cases hresult.symm.trans h
    · have hfind : (logFailure s failure model passport).findStep failure.stepId = some step := by
        rw [logFailure_findStep]
        exact hstep.found
      refine ⟨_,0,_,hresult.symm.trans h,(rearm_cursor e hfind).trans ?_⟩
      rw [logFailure_steps]
      constructor
      · exact fun hboth => ⟨⟨step,hstep.found,hboth.1⟩,hboth.2⟩
      · rintro ⟨⟨step',hfound,hcommitted⟩,hall⟩
        cases hstep.found.symm.trans hfound
        exact ⟨hcommitted,hall⟩
  | recordArtifact name value =>
    cases h
    exact absurd rfl hwritten

/-- After an operation whose last checkpoint was appended, the session that is resumed equals the
live one exactly when the operation has not left the cursor empty. -/
theorem resume_exact {e : Env} {s : ExecutionSession} {plane : MemoryPlane} {op : SessionOp} {w : World} {last : Saved}
    (hreached : Reached s) (hop : op.Finite) (h : perform e s plane op = .ok w) (hlast : w.written.getLast? = some last)
    (happended : last.appended = true) (now : ℚ) (quoted : String → String) :
    (∃ t, resume now quoted s.sessionId w.plane = .ok t ∧ SameSession w.session t) ↔ ¬LeavesNoCursor s op := by
  have hwritten : w.written ≠ [] := by
    intro hnil
    rw [hnil] at hlast
    cases hlast
  have hnotArtifact : ∀ name value, op ≠ .recordArtifact name value := by
    rintro name value rfl
    cases h
    exact hwritten rfl
  have hwhole : Whole w.session := by
    have hwhole := hreached.whole.perform (e := e) plane hop
    rwa [h] at hwhole
  have hid : w.session.sessionId = s.sessionId := by
    have hframe := perform_frame (e := e) s plane hnotArtifact
    rw [h] at hframe
    exact hframe.sessionId
  obtain ⟨before,n,reason,hcheckpoint,hcursor⟩ := perform_last h hwritten
  obtain ⟨hsession,appended,hput,hsaved⟩ := checkpoint_last hcheckpoint
  cases hsaved.symm.trans hlast
  cases happended
  have hresume : resume now quoted s.sessionId w.plane = .ok {settled w.session with currentStep := filledCursor w.session} := by
    rw [← hid,resume_put hput,hwhole.postInit]
  have hsame := same_filled hwhole
  rw [hresume,← hcursor]
  have hkept : w.session.currentStep = before.session.currentStep := by
    rw [hsession]
    rfl
  rw [← hkept]
  constructor
  · rintro ⟨t,ht,hequal⟩
    cases ht
    exact hsame.mp hequal
  · exact fun hsome => ⟨_,rfl,hsame.mpr hsome⟩

def steady : Env where
  clock _ := 1
  disk _ := true
  digest := Json.print
  quoted text := "'" ++ text ++ "'"

def oneStep : ExecutionSession where
  sessionId := "run"
  taskSpec := [("goal",.str "ship")]
  steps := [⟨"build","Build",.pending,1,none,none,0,none,none,.readOnly,false⟩]
  currentStep := some "build"
  createdAt := 1
  updatedAt := 1

theorem oneStep_reached : Reached oneStep := by
  have hcreate : newSession steady "run" [("goal",.str "ship")] [("build","Build",.readOnly)] none = .ok oneStep := by
    decide +kernel
  have hspec : Json.Finite [("goal",.str "ship")] := rfl
  exact .create hspec hcreate

/-! A session whose second step fails and is taken up by another model. -/

def twoSteps : ExecutionSession :=
  {oneStep with steps := oneStep.steps ++ [⟨"deploy","Deploy",.pending,1,none,none,0,none,none,.reversible,false⟩]}

theorem twoSteps_new : newSession steady "run" [("goal",.str "ship")]
    [("build","Build",.readOnly),("deploy","Deploy",.reversible)] none = .ok twoSteps := by
  decide +kernel

def performed (st : ExecutionSession × MemoryPlane) (op : SessionOp) : ExecutionSession × MemoryPlane :=
  ((afterwards (perform steady st.1 st.2 op)).session,(afterwards (perform steady st.1 st.2 op)).plane)

def untilFailure : List SessionOp :=
  [.start (some "m1"),.completeStep "build" none 40 (some "r1"),.failStep "deploy" "timeout" none]

def failedDeploy : ExecutionSession × MemoryPlane := untilFailure.foldl performed (twoSteps,{})

def takeUp : SessionOp := .resumeFromFailure ⟨"deploy","p","m1","Timeout","late",1,some 504,none,some "m2"⟩ (some "m2") (some "key") "failover"

theorem failedDeploy_reached : Reached failedDeploy.1 := by
  have hspec : Json.Finite [("goal",.str "ship")] := rfl
  have hcreated : Reached twoSteps := .create hspec twoSteps_new
  have hstarted : Reached (performed (twoSteps,{}) (.start (some "m1"))).1 := .perform hcreated trivial
  have hbuilt : Reached (performed (performed (twoSteps,{}) (.start (some "m1"))) (.completeStep "build" none 40 (some "r1"))).1 :=
    .perform hstarted trivial
  exact .perform hbuilt trivial

theorem eq_afterwards {o : Op} (h : o.isOk = true) : o = .ok (afterwards o) := by
  cases o with
  | ok w => rfl
  | error e => cases h

theorem deploy_taken_up : ∃ t, resume 2 id "run" (performed failedDeploy takeUp).2 = .ok t ∧
    SameSession (performed failedDeploy takeUp).1 t := by
  have hwritten : (afterwards (perform steady failedDeploy.1 failedDeploy.2 takeUp)).written.getLast?.map Saved.appended = some true := by
    decide +kernel
  obtain ⟨last,hlast,happended⟩ := Option.map_eq_some_iff.mp hwritten
  have hok : (perform steady failedDeploy.1 failedDeploy.2 takeUp).isOk = true := by decide +kernel
  have hid : failedDeploy.1.sessionId = "run" := by decide +kernel
  have hfree : (failedDeploy.1.findStep "deploy").map StepRecord.committed = some false := by decide +kernel
  have hcursor : ¬LeavesNoCursor failedDeploy.1 takeUp := by
    rintro ⟨⟨step,hfound,hcommitted⟩,-⟩
    rw [hfound] at hfree
    exact absurd hcommitted (by rw [Option.some.inj hfree]; decide)
  have hfinite : takeUp.Finite := trivial
  have hresumed := (resume_exact failedDeploy_reached hfinite (eq_afterwards hok) hlast happended 2 id).mpr hcursor
  rwa [hid] at hresumed

/-- Resuming a completed session fills its cursor with the completed step. -/
theorem completed_session_cursor_filled : ¬∀ (e : Env) (s : ExecutionSession) (plane : MemoryPlane) (op : SessionOp) (w : World)
    (last : Saved), Reached s → op.Finite → perform e s plane op = .ok w → w.written.getLast? = some last →
    last.appended = true → ∃ t, resume 2 id s.sessionId w.plane = .ok t ∧ SameSession w.session t := by
  intro hall
  have hwritten : (afterwards (perform steady oneStep {} (.completeStep "build" none 0 none))).written.getLast?.map
      Saved.appended = some true := by
    decide +kernel
  obtain ⟨last,hlast,happended⟩ := Option.map_eq_some_iff.mp hwritten
  obtain ⟨t,hresume,hsame⟩ := hall steady oneStep {} (.completeStep "build" none 0 none) _ last oneStep_reached trivial rfl
    hlast happended
  have hfilled : (resume 2 id "run" (afterwards (perform steady oneStep {} (.completeStep "build" none 0 none))).plane).map
      ExecutionSession.currentStep = .ok (some "build") := by
    decide +kernel
  have hcursor := congrArg ExecutionSession.currentStep hsame.fields
  have hresumed := hresume ▸ hfilled
  cases (hcursor.symm.trans (Except.ok.inj hresumed) : none = some "build")

end Verdict.Session

import Verdict.Admission.Evidence
import Verdict.Session.Plane
import Verdict.Session.Record

/-! # The execution session

`ExecutionSession` and its operations. An operation changes the live object and writes
checkpoints to the plane; when it raises, the object is left as it is at that point. The world
of an operation holds the object, the plane, and what each checkpoint of the operation has
saved: a crash can strike after any of them.
-/
namespace Verdict.Session
open JsonCodec

structure ExecutionSession where
  sessionId : String
  taskSpec : Fields
  steps : List StepRecord
  currentStep : Option String := none
  completedSteps : List String := []
  checkpoints : List CheckpointRecord := []
  artifacts : Fields := []
  attempts : List (String × ℤ) := []
  failureLog : List FailureEntry := []
  state : SessionState := .created
  modelId : Option String := none
  boundPassportKey : Option String := none
  (createdAt updatedAt : ℚ)
  schemaVersion : String := "1"
  deriving DecidableEq

/-- What an operation reads from its surroundings: the clock, at each reading, whether each write to
the database succeeds, the digest of a content, and the printed form of a text. -/
structure Env where
  clock : ℕ → ℚ
  disk : ℕ → Bool
  digest : Json → String
  quoted : String → String

inductive Fault
  | session (e : SessionError)
  | plane (e : PlaneError)

/-- A checkpoint that was put: the plane after it, the session, and whether a record was appended. -/
structure Saved where
  plane : MemoryPlane
  session : ExecutionSession
  appended : Bool

structure World where
  session : ExecutionSession
  plane : MemoryPlane
  written : List Saved := []

abbrev Op := Except (Fault × World) World

namespace ExecutionSession

variable (s : ExecutionSession)

/-- A missing cursor becomes the first pending step, else the first one. -/
def postInit : Except SessionError ExecutionSession :=
  if Admission.strip s.sessionId = "" then .error (.execution "session_id must be a non-empty string")
  else if s.schemaVersion ≠ "1" then .error (.execution "schema_version must be '1'")
  else match s.steps with
    | [] => .error (.execution "a session requires at least one step")
    | first :: _ =>
      if s.currentStep = none then
        .ok {s with currentStep := some (((s.steps.find? fun step => step.status = .pending).map StepRecord.stepId).getD first.stepId)}
      else .ok s

/-! ### Serialization -/

def entries (s : ExecutionSession) : List (String × Option Json) :=
  [field "schema_version" string s.schemaVersion,field "session_id" string s.sessionId,
    field "task_spec" object s.taskSpec,
    ("steps",some (.arr (s.steps.map fun step => .obj step.toDict))),
    field "current_step" nullableString s.currentStep,field "completed_steps" (JsonCodec.list string) s.completedSteps,
    ("checkpoints",some (.arr (s.checkpoints.map fun c => .obj c.toDict))),
    field "artifacts" object s.artifacts,field "attempts" (JsonCodec.entries integer) s.attempts,
    ("failure_log",some (.arr (s.failureLog.map fun f => .obj f.toDict))),
    field "state" stateCodec s.state,field "created_at" number s.createdAt,field "updated_at" number s.updatedAt,
    field "model_id" nullableString s.modelId,field "bound_passport_key" nullableString s.boundPassportKey]

def toDict : Fields := record s.entries

def required : List String :=
  ["schema_version","session_id","task_spec","steps","current_step","completed_steps","checkpoints","artifacts",
    "attempts","failure_log","state","created_at","updated_at"]

def optional : List String := ["model_id","bound_passport_key"]

def records {α : Type} (read : Json → Except SessionError α) (key : String) (payload : Fields) :
    Except SessionError (List α) := match payload.lookup key with
  | some (.arr xs) => xs.mapM read
  | _ => .error .illTyped

def fromDict (value : Json) : Except SessionError ExecutionSession := do
  let payload ← strictMapping required optional "execution_session" value
  let schemaVersion ← typed (need string "schema_version" payload)
  let sessionId ← typed (need string "session_id" payload)
  let taskSpec ← typed (need object "task_spec" payload)
  let steps ← records StepRecord.fromDict "steps" payload
  let currentStep ← typed (need nullableString "current_step" payload)
  let completedSteps ← typed (need (JsonCodec.list string) "completed_steps" payload)
  let checkpoints ← records CheckpointRecord.fromDict "checkpoints" payload
  let artifacts ← typed (need object "artifacts" payload)
  let attempts ← typed (need (JsonCodec.entries integer) "attempts" payload)
  let failureLog ← records FailureEntry.fromDict "failure_log" payload
  let state ← typed (need stateCodec "state" payload)
  let modelId ← typed (find nullableString "model_id" payload)
  let boundPassportKey ← typed (find nullableString "bound_passport_key" payload)
  let createdAt ← typed (need number "created_at" payload)
  let updatedAt ← typed (need number "updated_at" payload)
  postInit {
    schemaVersion := schemaVersion, sessionId := sessionId, taskSpec := taskSpec, steps := steps
    currentStep := currentStep, completedSteps := completedSteps, checkpoints := checkpoints
    artifacts := artifacts, attempts := attempts, failureLog := failureLog, state := state
    modelId := modelId.join, boundPassportKey := boundPassportKey.join
    createdAt := createdAt, updatedAt := updatedAt }

/-! ### Steps -/

def findStep (stepId : String) : Option StepRecord := s.steps.find? fun step => step.stepId = stepId

def changeFirst (stepId : String) (f : StepRecord → StepRecord) : List StepRecord → List StepRecord
  | [] => []
  | step :: rest => if step.stepId = stepId then f step :: rest else step :: changeFirst stepId f rest

def firstPending : Option String :=
  (s.steps.find? fun step => step.status = .pending).map StepRecord.stepId

/-- `model_id or self.model_id`. -/
def orModel (modelId : Option String) : Option String := match modelId with
  | some model => if model = "" then s.modelId else some model
  | none => s.modelId

def bindModel (modelId : Option String) : ExecutionSession := match modelId with
  | some model => {s with modelId := some model}
  | none => s

end ExecutionSession
open ExecutionSession

/-! ### Operations -/

section
variable (e : Env)

def SESSION_NAMESPACE : String := "execution_sessions"

variable (w : World)

def unknownStep (stepId : String) : Op :=
  .error (.session (.execution ("unknown step " ++ e.quoted stepId)),w)

variable (s : ExecutionSession)

def checkpointRow (recordId : String) : MemoryRecord where
  recordId := recordId
  space := SESSION_NAMESPACE
  key := s.sessionId
  content := Json.canon (.obj s.toDict)
  createdAt := s.updatedAt
  updatedAt := s.updatedAt

/-- `_persist`, as the operation's write number `n`. -/
def persist (n : ℕ) (recordId : String) : Op :=
  if e.disk n = false then .error (.plane .storage,w)
  else match w.plane.put e.digest (e.clock (3 * n + 2)) (checkpointRow w.session recordId) with
    | .error fault => .error (.plane fault,w)
    | .ok (plane,appended) => .ok {w with plane := plane, written := w.written ++ [⟨plane,w.session,appended⟩]}

def checkpointId : String :=
  s.sessionId ++ ":ckpt:" ++ toString (s.checkpoints.length + 1)

def noted (n : ℕ) (reason : String) : ExecutionSession :=
  {s with
    checkpoints := s.checkpoints ++ [⟨s.checkpoints.length + 1,reason,e.clock (3 * n),checkpointId s,"checkpointed"⟩]
    updatedAt := e.clock (3 * n + 1)}

def checkpoint (n : ℕ) (reason : String) : Op :=
  persist e {w with session := noted e w.session n reason} n (checkpointId w.session)

def started (modelId : Option String) : ExecutionSession :=
  {s.bindModel modelId with
    state := .running
    currentStep := match s.currentStep with
      | some step => some step
      | none => s.firstPending }

def start (w : World) (modelId : Option String) : Op :=
  if w.session.state = .running ∨ w.session.state = .completed then
    .error (.session (.execution ("cannot start session in state " ++ e.quoted w.session.state.text)),w)
  else checkpoint e {w with session := started w.session modelId} 0 "started"

def commitFirst (stepId : String) : ExecutionSession :=
  {s with steps := changeFirst stepId (fun step => {step with committed := true}) s.steps}

/-- The first checkpoint of `complete_step`. -/
def commitStep (stepId : String) (step : StepRecord) : Op :=
  if step.committed = false ∧ step.sideEffectKind ≠ .readOnly then
    checkpoint e {w with session := commitFirst w.session stepId} 0 ("step_committed:" ++ stepId)
  else .ok w

/-- The last part of `complete_step`: the step is completed and the cursor moves on. -/
def finishStep (stepId : String) (modelId : Option String) (tokensUsed : ℤ)
    (evidenceReceipt : Option String) : ExecutionSession :=
  let steps := changeFirst stepId (fun step => {step with
    status := .completed
    completedAt := some (e.clock 6)
    modelId := s.orModel modelId
    tokensUsed := tokensUsed
    evidenceReceipt := evidenceReceipt }) s.steps
  let s := {s with
    steps := steps
    completedSteps := if stepId ∈ s.completedSteps then s.completedSteps else s.completedSteps ++ [stepId] }
  match s.firstPending with
  | none => {s with state := .completed, currentStep := none}
  | some next => {s with state := .checkpointed, currentStep := some next}

def completeStep (stepId : String) (modelId : Option String) (tokensUsed : ℤ)
    (evidenceReceipt : Option String) : Except (Fault × World) World := match w.session.findStep stepId with
  | none => unknownStep e w stepId
  | some step =>
    if step.status ≠ .pending then
      .error (.session (.execution ("step " ++ e.quoted stepId ++ " already " ++ step.status.text)),w)
    else if step.committed = true ∧ step.sideEffectKind = .irreversible then
      .error (.session (.execution ("irreversible step " ++ e.quoted stepId ++ " already committed")),w)
    else do
      let w ← commitStep e {w with session := w.session.bindModel modelId} stepId step
      checkpoint e {w with session := finishStep e w.session stepId modelId tokensUsed evidenceReceipt} 1
        ("step_completed:" ++ stepId)

def failFirst (stepId error : String) (modelId : Option String) : ExecutionSession :=
  {s with
    steps := changeFirst stepId (fun step => {step with
      status := .failed
      error := some error
      completedAt := some (e.clock 6)
      modelId := s.orModel modelId }) s.steps
    state := .failed }

def failStep (stepId : String) (error : String) (modelId : Option String) : Op :=
  match w.session.findStep stepId with
  | none => unknownStep e w stepId
  | some _ => checkpoint e {w with session := failFirst e w.session stepId error modelId} 0 ("step_failed:" ++ stepId)

def logFailure (failure : FailureEntry) (model passport : Option String) : ExecutionSession :=
  let s := {s with
    failureLog := s.failureLog ++ [failure]
    attempts := Dict.put failure.stepId ((s.attempts.lookup failure.stepId).getD 0 + 1) s.attempts }
  match model with
  | some model => {s with modelId := some model, boundPassportKey := passport}
  | none => s

def rearm (stepId : String) (step : StepRecord) : ExecutionSession :=
  if step.committed = true then
    let s := {s with
      steps := changeFirst stepId (fun step => {step with
        status := .completed, error := none, completedAt := some (e.clock 6)}) s.steps
      completedSteps := if stepId ∈ s.completedSteps then s.completedSteps else s.completedSteps ++ [stepId]
      state := .running }
    {s with currentStep := s.firstPending}
  else
    let steps := if step.status = .failed then changeFirst stepId (fun step => {step with
      status := .pending, error := none, completedAt := none}) s.steps else s.steps
    {s with steps := steps, state := .running, currentStep := some stepId}

def resumeFromFailure (failure : FailureEntry) (model passport : Option String) (reason : String) : Op :=
  let w := {w with session := logFailure w.session failure model passport}
  match w.session.findStep failure.stepId with
  | none => unknownStep e w failure.stepId
  | some step =>
    if step.committed = true ∧ step.sideEffectKind = .irreversible then
      .error (.session (.execution ("irreversible step " ++ e.quoted failure.stepId ++ " already committed")),w)
    else checkpoint e {w with session := rearm e w.session failure.stepId step} 0 reason

def recordArtifact (name : String) (value : Json) : ExecutionSession :=
  {s with artifacts := Dict.put name value s.artifacts, updatedAt := e.clock 0}

/-- The session that `create` makes, with the side effects that the caller declares for the steps. -/
def newSession (sessionId : String) (taskSpec : Fields) (steps : List (String × String × SideEffectKind))
    (modelId : Option String) : Except SessionError ExecutionSession :=
  ExecutionSession.postInit {
    sessionId := sessionId
    taskSpec := taskSpec
    steps := steps.map fun step => {
      stepId := step.1, name := step.2.1, status := .pending, startedAt := e.clock 6, sideEffectKind := step.2.2}
    modelId := modelId
    createdAt := e.clock 6
    updatedAt := e.clock 6 }

/-- The new session, and its first checkpoint when there is a plane. -/
def create (plane : MemoryPlane) (sessionId : String) (taskSpec : Fields) (steps : List (String × String × SideEffectKind))
    (modelId : Option String) : Except Fault World :=
  match newSession e sessionId taskSpec steps modelId with
  | .error fault => .error (.session fault)
  | .ok s => match checkpoint e ⟨s,plane,[]⟩ 0 "created" with
    | .ok w => .ok w
    | .error (fault,_) => .error fault

def resume (now : ℚ) (quoted : String → String) (sessionId : String) (plane : MemoryPlane) :
    Except SessionError ExecutionSession := match plane.get now SESSION_NAMESPACE sessionId with
  | none => .error (.execution ("no checkpoint found for session " ++ quoted sessionId))
  | some row => ExecutionSession.fromDict row.content

inductive SessionOp
  | checkpoint (reason : String)
  | start (modelId : Option String)
  | completeStep (stepId : String) (modelId : Option String) (tokensUsed : ℤ) (evidenceReceipt : Option String)
  | failStep (stepId error : String) (modelId : Option String)
  | resumeFromFailure (failure : FailureEntry) (model passport : Option String) (reason : String)
  | recordArtifact (name : String) (value : Json)

def perform (s : ExecutionSession) (plane : MemoryPlane) : SessionOp → Op
  | .checkpoint reason => checkpoint e ⟨s,plane,[]⟩ 0 reason
  | .start modelId => start e ⟨s,plane,[]⟩ modelId
  | .completeStep stepId modelId tokensUsed evidenceReceipt =>
    completeStep e ⟨s,plane,[]⟩ stepId modelId tokensUsed evidenceReceipt
  | .failStep stepId error modelId => failStep e ⟨s,plane,[]⟩ stepId error modelId
  | .resumeFromFailure failure model passport reason => resumeFromFailure e ⟨s,plane,[]⟩ failure model passport reason
  | .recordArtifact name value => .ok ⟨recordArtifact e s name value,plane,[]⟩

def afterwards : Op → World
  | .ok w => w
  | .error (_,w) => w

end
end Verdict.Session

import Mathlib.Data.List.Sort
import Verdict.Basics.JsonCodec
import Verdict.Basics.Raising

/-! # The records of an execution session

`StepRecord`, `CheckpointRecord` and `FailureEntry`, as they are written into a checkpoint and
read back. Fields with their default value are left out, and the reader fills them in, so
that each record comes back as it was.
-/
namespace Verdict.Session
open JsonCodec
open Raising
open Prod (fst)

/-- An `ExecutionSessionError` with its message, or the use of a stored value of another type. -/
inductive SessionError
  | execution (message : String)
  | illTyped
  deriving DecidableEq

inductive StepStatus
  | pending | completed | failed
  deriving DecidableEq

inductive SessionState
  | created | running | checkpointed | failed | completed
  deriving DecidableEq

inductive SideEffectKind
  | readOnly | idempotent | reversible | irreversible
  deriving DecidableEq

def StepStatus.text : StepStatus → String
  | .pending => "pending"
  | .completed => "completed"
  | .failed => "failed"

def SessionState.text : SessionState → String
  | .created => "created"
  | .running => "running"
  | .checkpointed => "checkpointed"
  | .failed => "failed"
  | .completed => "completed"

def SideEffectKind.text : SideEffectKind → String
  | .readOnly => "read-only"
  | .idempotent => "idempotent"
  | .reversible => "reversible"
  | .irreversible => "irreversible"

def named {α : Type} (text : α → String) (all : List α) (h : ∀ a, all.find? (fun b => text b = text a) = some a) :
    Codec α where
  encode a := .str (text a)
  decode
    | .str s => all.find? fun b => text b = s
    | _ => none
  settled := id
  roundTrip := h

def statusCodec : Codec StepStatus := named StepStatus.text [.pending,.completed,.failed] fun a => by cases a <;> rfl

def stateCodec : Codec SessionState :=
  named SessionState.text [.created,.running,.checkpointed,.failed,.completed] fun a => by cases a <;> rfl

def kindCodec : Codec SideEffectKind :=
  named SideEffectKind.text [.readOnly,.idempotent,.reversible,.irreversible] fun a => by cases a <;> rfl

@[simp] theorem settled_named {α : Type} (text : α → String) (all : List α)
    (h : ∀ a, all.find? (fun b => text b = text a) = some a) : (named text all h).settled = id := rfl

@[simp] theorem settled_statusCodec : statusCodec.settled = id := rfl
@[simp] theorem settled_stateCodec : stateCodec.settled = id := rfl
@[simp] theorem settled_kindCodec : kindCodec.settled = id := rfl

def listed (names : List String) : String := ", ".intercalate (names.insertionSort (· ≤ ·))

def strictMapping (required optional : List String) (fieldName : String) : Json → Except SessionError Fields
  | .obj fs =>
    if missingKeys required fs ≠ [] then
      .error (.execution (fieldName ++ " missing field(s): " ++ listed (missingKeys required fs)))
    else if unknownKeys required optional fs ≠ [] then
      .error (.execution (fieldName ++ " has unknown field(s): " ++ listed (unknownKeys required optional fs)))
    else .ok fs
  | _ => .error (.execution (fieldName ++ " must be an object"))

def typed {α : Type} : Option α → Except SessionError α
  | some a => .ok a
  | none => .error .illTyped

section
variable {α : Type} {es : List (String × Option Json)} (hnodup : (es.map fst).Nodup)
include hnodup

theorem strictMapping_record {required optional : List String} {fieldName : String}
    (hrequired : required.all (fun key => (es.lookup key).join.isSome) = true) (hknown : ∀ key ∈ es.map fst, key ∈ required ∨ key ∈ optional) :
    strictMapping required optional fieldName (Json.canon (.obj (record es))) = .ok (Json.canonFields (record es)) := by
  have hmissing : ∀ key ∈ required, (record es).lookup key ≠ none := by
    intro key hkey
    obtain ⟨j,hj⟩ := Option.isSome_iff_exists.mp (List.all_eq_true.mp hrequired key hkey)
    rw [lookup_record hnodup (Dict.lookup_some_mem (Option.join_eq_some_iff.mp hj))]
    exact Option.some_ne_none j
  rw [Json.canon,strictMapping,missingKeys_eq_nil hmissing,unknownKeys_eq_nil fun e he => hknown e.1 (mem_record he)]
  rfl

variable {c : Codec α} {key : String}

theorem need_record {a : α} (i : ℕ) (h : es[i]? = some (field key c a)) :
    typed (need c key (Json.canonFields (record es))) = .ok (c.settled a) := by
  rw [need_canonFields (lookup_record hnodup (List.mem_of_getElem? h))]
  rfl

theorem find_record {o : Option α} (i : ℕ) (h : es[i]? = some (fieldIf key c o)) :
    typed (find c key (Json.canonFields (record es))) = .ok (o.map c.settled) := by
  rw [find_canonFields (lookup_record hnodup (List.mem_of_getElem? h))]
  rfl

end

/-! ### Steps -/

structure StepRecord where
  (stepId name : String)
  status : StepStatus
  startedAt : ℚ
  completedAt : Option ℚ := none
  modelId : Option String := none
  tokensUsed : ℤ := 0
  evidenceReceipt : Option String := none
  error : Option String := none
  sideEffectKind : SideEffectKind := .readOnly
  committed : Bool := false
  deriving DecidableEq

def nonDefault {α : Type} [DecidableEq α] (default a : α) : Option α := if a = default then none else some a

theorem nonDefault_getD {α : Type} [DecidableEq α] (default a : α) : (nonDefault default a).getD default = a := by
  rw [nonDefault]
  split
  · rename_i h
    exact h.symm
  · rfl

namespace StepRecord

variable (s : StepRecord)

def entries : List (String × Option Json) :=
  [field "step_id" string s.stepId,field "name" string s.name,field "status" statusCodec s.status,
    field "started_at" number s.startedAt,fieldIf "completed_at" number s.completedAt,
    fieldIf "model_id" string s.modelId,fieldIf "tokens_used" integer (nonDefault 0 s.tokensUsed),
    fieldIf "evidence_receipt" string s.evidenceReceipt,fieldIf "error" string s.error,
    fieldIf "side_effect_kind" kindCodec (nonDefault .readOnly s.sideEffectKind),
    fieldIf "committed" boolean (nonDefault false s.committed)]

def toDict : Fields := record s.entries

def required : List String := ["step_id","name","status","started_at"]

def optional : List String :=
  ["completed_at","model_id","tokens_used","evidence_receipt","error","side_effect_kind","committed"]

def fromDict (value : Json) : Except SessionError StepRecord := do
  let payload ← strictMapping required optional "step_record" value
  let stepId ← typed (need string "step_id" payload)
  let name ← typed (need string "name" payload)
  let status ← typed (need statusCodec "status" payload)
  let startedAt ← typed (need number "started_at" payload)
  let completedAt ← typed (find number "completed_at" payload)
  let modelId ← typed (find string "model_id" payload)
  let tokensUsed ← typed (find integer "tokens_used" payload)
  let evidenceReceipt ← typed (find string "evidence_receipt" payload)
  let error ← typed (find string "error" payload)
  let sideEffectKind ← typed (find kindCodec "side_effect_kind" payload)
  let committed ← typed (find boolean "committed" payload)
  return {
    stepId := stepId, name := name, status := status, startedAt := startedAt
    completedAt := completedAt, modelId := modelId, tokensUsed := tokensUsed.getD 0
    evidenceReceipt := evidenceReceipt, error := error
    sideEffectKind := sideEffectKind.getD .readOnly, committed := committed.getD false }

theorem fromDict_toDict : fromDict (Json.canon (.obj s.toDict)) = .ok s := by
  have hnodup : (s.entries.map fst).Nodup := by
    show (required ++ optional).Nodup
    decide
  have hknown : ∀ key ∈ s.entries.map fst, key ∈ required ∨ key ∈ optional :=
    fun key hkey => List.mem_append.mp (show key ∈ required ++ optional from hkey)
  rw [fromDict,toDict,strictMapping_record hnodup rfl hknown]
  simp only [bind,Except.bind,need_record hnodup 0 rfl,need_record hnodup 1 rfl,need_record hnodup 2 rfl,
    need_record hnodup 3 rfl,find_record hnodup 4 rfl,find_record hnodup 5 rfl,find_record hnodup 6 rfl,
    find_record hnodup 7 rfl,find_record hnodup 8 rfl,find_record hnodup 9 rfl,find_record hnodup 10 rfl]
  simp only [settled_string,settled_statusCodec,settled_number,settled_integer,settled_kindCodec,settled_boolean,
    Option.map_id,id,nonDefault_getD]
  rfl

end StepRecord

/-! ### Checkpoints -/

structure CheckpointRecord where
  seq : ℤ
  reason : String
  createdAt : ℚ
  recordId : String
  state : String := "checkpointed"
  deriving DecidableEq

namespace CheckpointRecord

def entries (c : CheckpointRecord) : List (String × Option Json) :=
  [field "seq" integer c.seq,field "reason" string c.reason,field "created_at" number c.createdAt,
    field "record_id" string c.recordId,field "state" string c.state]

def toDict (c : CheckpointRecord) : Fields := record c.entries

def required : List String := ["seq","reason","created_at","record_id"]
def optional : List String := ["state"]

def fromDict (value : Json) : Except SessionError CheckpointRecord := do
  let payload ← strictMapping required optional "checkpoint_record" value
  let seq ← typed (need integer "seq" payload)
  let reason ← typed (need string "reason" payload)
  let createdAt ← typed (need number "created_at" payload)
  let recordId ← typed (need string "record_id" payload)
  let state ← typed (find string "state" payload)
  return {seq := seq, reason := reason, createdAt := createdAt, recordId := recordId, state := state.getD "checkpointed"}

theorem fromDict_toDict (c : CheckpointRecord) : fromDict (Json.canon (.obj c.toDict)) = .ok c := by
  have hnodup : (c.entries.map fst).Nodup := by
    show (required ++ optional).Nodup
    decide
  have hknown : ∀ key ∈ c.entries.map fst, key ∈ required ∨ key ∈ optional :=
    fun key hkey => List.mem_append.mp (show key ∈ required ++ optional from hkey)
  have hstate : (c.entries)[4]? = some (fieldIf "state" string (some c.state)) := rfl
  rw [fromDict,toDict,strictMapping_record hnodup rfl hknown]
  simp only [bind,Except.bind,need_record hnodup 0 rfl,need_record hnodup 1 rfl,need_record hnodup 2 rfl,
    need_record hnodup 3 rfl,find_record hnodup 4 hstate]
  rfl

end CheckpointRecord

/-! ### Failures -/

structure FailureEntry where
  (stepId provider modelId errorClass message : String)
  createdAt : ℚ
  statusCode : Option ℤ := none
  quarantineModel : Option String := none
  replacementModel : Option String := none
  deriving DecidableEq

namespace FailureEntry

variable (f : FailureEntry)

def entries : List (String × Option Json) :=
  [field "step_id" string f.stepId,field "provider" string f.provider,field "model_id" string f.modelId,
    field "error_class" string f.errorClass,field "message" string f.message,field "created_at" number f.createdAt,
    fieldIf "status_code" integer f.statusCode,fieldIf "quarantine_model" string f.quarantineModel,
    fieldIf "replacement_model" string f.replacementModel]

def toDict : Fields := record f.entries

def required : List String := ["step_id","provider","model_id","error_class","message","created_at"]
def optional : List String := ["status_code","quarantine_model","replacement_model"]

def fromDict (value : Json) : Except SessionError FailureEntry := do
  let payload ← strictMapping required optional "failure_entry" value
  let stepId ← typed (need string "step_id" payload)
  let provider ← typed (need string "provider" payload)
  let modelId ← typed (need string "model_id" payload)
  let errorClass ← typed (need string "error_class" payload)
  let message ← typed (need string "message" payload)
  let createdAt ← typed (need number "created_at" payload)
  let statusCode ← typed (find integer "status_code" payload)
  let quarantineModel ← typed (find string "quarantine_model" payload)
  let replacementModel ← typed (find string "replacement_model" payload)
  return {
    stepId := stepId, provider := provider, modelId := modelId, errorClass := errorClass, message := message
    createdAt := createdAt, statusCode := statusCode, quarantineModel := quarantineModel
    replacementModel := replacementModel }

theorem fromDict_toDict : fromDict (Json.canon (.obj f.toDict)) = .ok f := by
  have hnodup : (f.entries.map fst).Nodup := by
    show (required ++ optional).Nodup
    decide
  have hknown : ∀ key ∈ f.entries.map fst, key ∈ required ∨ key ∈ optional :=
    fun key hkey => List.mem_append.mp (show key ∈ required ++ optional from hkey)
  rw [fromDict,toDict,strictMapping_record hnodup rfl hknown]
  simp only [bind,Except.bind,need_record hnodup 0 rfl,need_record hnodup 1 rfl,need_record hnodup 2 rfl,
    need_record hnodup 3 rfl,need_record hnodup 4 rfl,need_record hnodup 5 rfl,find_record hnodup 6 rfl,
    find_record hnodup 7 rfl,find_record hnodup 8 rfl]
  simp only [settled_string,settled_number,settled_integer,Option.map_id,id]
  rfl

end FailureEntry
end Verdict.Session

import Verdict.Basics.JsonText
import Verdict.Basics.PyJson
import Verdict.Basics.Run
import Verdict.Basics.TextLines

/-! # The ledger of model attempts

One JSON object a line in a file that is only appended to. A call reads the rows that parse,
drops the records whose key is already among them and appends the rest; an exclusive lock
keeps calls apart, but a crash can cut the bytes of the last write anywhere.
-/
namespace Verdict.Outcome
open Json

structure AttemptRecord where
  (ts taskKind harness model outcome failureClass source : String)
  effort : Option String := none
  durationS : Option Scalar := none
  tokensIn : Option ℤ := none
  tokensOut : Option ℤ := none
  costUsd : Option Scalar := none
  storyId : Option String := none
  requestId : Option String := none
  decisionId : Option String := none
  runId : Option String := none
  nodeId : Option String := none
  attemptId : Option String := none
  taskFamily : Option String := none
  profileDigest : Option String := none
  recordKind : Option String := none
  checkerDigest : Option String := none
  qualityCredit : Option Scalar := none
  effectiveParameters : Option Fields := none
  evidenceLevel : Option String := none

namespace AttemptRecord

def text : Option String → Json
  | some s => .str s
  | none => .null

def count : Option ℤ → Json
  | some n => .int n
  | none => .null

def number : Option Scalar → Json
  | some s => .scalar s
  | none => .null

variable (r : AttemptRecord)

/-- `record.to_dict()`: the level of evidence is left out when there is none. -/
def toDict : Fields :=
  [("ts",.str r.ts),("task_kind",.str r.taskKind),("harness",.str r.harness),("model",.str r.model),
   ("outcome",.str r.outcome),("failure_class",.str r.failureClass),("source",.str r.source),
   ("effort",text r.effort),("duration_s",number r.durationS),("tokens_in",count r.tokensIn),
   ("tokens_out",count r.tokensOut),("cost_usd",number r.costUsd),("story_id",text r.storyId),
   ("request_id",text r.requestId),("decision_id",text r.decisionId),("run_id",text r.runId),
   ("node_id",text r.nodeId),("attempt_id",text r.attemptId),("task_family",text r.taskFamily),
   ("profile_digest",text r.profileDigest),("record_kind",text r.recordKind),
   ("checker_digest",text r.checkerDigest),("quality_credit",number r.qualityCredit),
   ("effective_parameters",(r.effectiveParameters.map Json.obj).getD .null)] ++
  (r.evidenceLevel.map fun level => ("evidence_level",Json.str level)).toList

/-- `record.key()`: one terminal row, and one checker row for each digest. -/
def key : List Json :=
  [r.runId,r.nodeId,r.attemptId,r.requestId,r.recordKind,r.checkerDigest].map text

def row : Json := canon (.obj r.toDict)

def HasKind : Prop := (text r.recordKind).truthy = true

instance (r : AttemptRecord) : Decidable r.HasKind := inferInstanceAs (Decidable (_ = _))

end AttemptRecord

/-! ### Reading -/

def universalNewlines : List Char → List Char
  | '\r' :: '\n' :: cs => '\n' :: universalNewlines cs
  | '\r' :: cs => '\n' :: universalNewlines cs
  | c :: cs => c :: universalNewlines cs
  | [] => []

/-- The lines of a text, after what is already read of the first one; the last one may lack
its newline. -/
def splitLines : List Char → List Char → List (List Char)
  | cur, [] => if cur = [] then [] else [cur]
  | cur, c :: cs => if c = '\n' then cur :: splitLines [] cs else splitLines (cur ++ [c]) cs

def fileText (file : List UInt8) : Option (List Char) := do
  let (s,cs) ← Utf8.decode .start file
  let rest ← Utf8.finish s
  return cs ++ rest

variable (t : JsonText.Library)

def rowsOf (text : List Char) : List Json := (splitLines [] (universalNewlines text)).filterMap t.read

def keyFields : List String := ["run_id","node_id","attempt_id","request_id","record_kind","checker_digest"]

def rowKey : Json → Option (List Json)
  | .obj fs => some (keyFields.map (get fs))
  | _ => none

/-- Only the rows that say what kind they are. -/
def rowKeys (rows : List Json) : List (List Json) :=
  (rows.filter fun row => (get row.fields "record_kind").truthy).filterMap rowKey

def hashable : Json → Bool
  | .scalar _ => true
  | _ => false

inductive Raised
  | unicodeDecodeError
  | typeError

def seenKeys (file : List UInt8) : Except Raised (List (List Json)) :=
  match fileText file with
  | none => .error .unicodeDecodeError
  | some text =>
    let keys := rowKeys (rowsOf t text)
    if keys.all (·.all hashable) then .ok keys else .error .typeError

def newRecords (file : List UInt8) (records : List AttemptRecord) : Except Raised (List AttemptRecord) :=
  match seenKeys t file with
  | .error e => .error e
  | .ok seen => .ok (records.filter fun r => r.key ∉ seen)

/-! ### Writing -/

def line (r : AttemptRecord) : List Char := t.dumps r.row ++ ['\n']

def payload (records : List AttemptRecord) : List UInt8 := Utf8.encode (records.flatMap (line t))

def surviving (bytes : List UInt8) : Option ℕ → List UInt8
  | none => bytes
  | some n => bytes.take n

/-- A call of some process, with the place where a crash cuts its write, if one does. -/
inductive Op
  | write (record : AttemptRecord) (cut : Option ℕ)
  | appendNew (records : List AttemptRecord) (cut : Option ℕ)

/-- The file, the records of the `append_new_attempt_records` calls that returned, and the
keys that were given to `write_attempt_record`. -/
structure State where
  file : List UInt8 := []
  returned : List AttemptRecord := []
  written : List (List Json) := []

def Op.pending (s : State) : Op → Except Raised (List AttemptRecord)
  | .write r _ => .ok [r]
  | .appendNew records _ => newRecords t s.file records

def Op.cut : Op → Option ℕ
  | .write _ cut => cut
  | .appendNew _ cut => cut

def Op.records : Op → List AttemptRecord
  | .write r _ => [r]
  | .appendNew records _ => records

/-- The file after `_append_lines`; a call that raises has written nothing. -/
def appendLines (s : State) (op : Op) : List UInt8 :=
  match op.pending t s with
  | .error _ => s.file
  | .ok new => s.file ++ surviving (payload t new) op.cut

def Op.returns (t : JsonText.Library) (s : State) (op : Op) : Bool := (op.pending t s).isOk && op.cut.isNone

def step (s : State) (op : Op) : State where
  file := appendLines t s op
  returned := match op with
    | .write _ _ => s.returned
    | .appendNew records _ => if op.returns t s then s.returned ++ records else s.returned
  written := match op with
    | .write r _ => s.written ++ [r.key]
    | .appendNew _ _ => s.written

def next (s : State) (op : Op) : Option State := some (step t s op)

/-! ### What the ledger promises -/

def storedKeys (file : List UInt8) : List (List Json) :=
  ((fileText file).elim [] (rowsOf t)).filterMap rowKey

structure KeepsRows (t : JsonText.Library) (s : State) : Prop where
  readable : (fileText s.file).isSome
  stored : ∀ r ∈ s.returned, r.key ∈ storedKeys t s.file
  single : ∀ k, k ∉ s.written → (storedKeys t s.file).count k ≤ 1
  settled : ∀ records, (∀ r ∈ records, r ∈ s.returned) → newRecords t s.file records = .ok []

/-- The record's text reads back, is one line, and cut short it is no JSON text. -/
structure Printed (t : JsonText.Library) (r : AttemptRecord) : Prop where
  nonempty : t.dumps r.row ≠ []
  loads : t.read (t.dumps r.row) = some r.row
  oneLine : ∀ c ∈ t.dumps r.row, c ≠ '\n' ∧ c ≠ '\r'
  whole : ∀ text, text <+: t.dumps r.row → text ≠ t.dumps r.row → t.read text = none

def EndsLine (file : List UInt8) : Prop := ∀ text, fileText file = some text → ∀ c, text.getLast? = some c → c = '\n'

/-- What a call needs so that every row stays readable and single: each record it was given
to append once says its kind, no two new records share a key, a torn last line is not written
on, and a crash leaves whole characters. -/
structure Careful (t : JsonText.Library) (s : State) (op : Op) : Prop where
  kinds : ∀ records cut, op = .appendNew records cut → ∀ r ∈ records, r.HasKind
  distinct : ∀ new, op.pending t s = .ok new → (new.map AttemptRecord.key).Nodup
  endsLine : ∀ new, op.pending t s = .ok new → new ≠ [] → EndsLine s.file
  characters : ∀ new, op.pending t s = .ok new → (fileText (surviving (payload t new) op.cut)).isSome

end Verdict.Outcome

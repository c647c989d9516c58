import Mathlib.Data.List.Infix
import Verdict.Basics.PyJson
import Verdict.Contracts.Path

/-! # Reading the output of a review

The review runner writes one JSON file, and five interpreters look at it: one for skipped
and empty reviews, one for failed items, one for the model that reviewed, one for the
comments and one for the version. The file may hold anything; what `json.loads` made of it
is where this starts.
-/
namespace Verdict.Review
open Json (get truthy)

/-- Operations on text that rest on Unicode tables, and `str` of values that are no texts. -/
structure TextOps where
  lower : String → String
  isDigit : Char → Bool
  str : Json → String
  /-- `int` of a text. -/
  int : String → Option ℤ

def strip (text : String) : String := String.ofList (Path.strip text.toList)

def contains (text part : String) : Bool := decide (part.toList <:+: text.toList)

/-- `text.removeprefix(p)`. -/
def removePrefix (p text : String) : String :=
  if p.toList <+: text.toList then String.ofList (text.toList.drop p.toList.length) else text

inductive IntError
  | value | type | overflow

section
variable (ops : TextOps)

/-- `str(value)`. -/
def pyStr : Json → String
  | .str s => s
  | j => ops.str j

/-- `int(value)`. -/
def pyInt : Json → Except IntError ℤ
  | .int n => .ok n
  | .bool b => .ok (if b then 1 else 0)
  | .float q => .ok (if q < 0 then q.ceil else q.floor)
  | .scalar .negZero => .ok 0
  | .str s => match ops.int s with
    | some n => .ok n
    | none => .error .value
  | .scalar .nan => .error .value
  | .scalar .inf => .error .overflow
  | .scalar .negInf => .error .overflow
  | _ => .error .type

/-- `str(value or "")`. -/
def textOr (j : Json) : String := if truthy j then pyStr ops j else ""

end

/-! ### Results -/

inductive Status
  | pass | fail | error
  deriving DecidableEq

/-- `ReviewFinding`. -/
structure Finding where
  (severity category file : String)
  line : Option ℤ
  message : String

def Finding.blocking (f : Finding) : Bool := f.severity = "critical" || f.severity = "high"

structure ReviewResult where
  status : Status
  (reviewer routeId : String)
  findings : List Finding := []
  rawRef : String := ""
  detail : String := ""
  observedModel : String := ""

structure OcrRun where
  exitCode : ℤ
  stdout : String := ""
  stderr : String := ""
  timedOut : Bool := false
  idleTimedOut : Bool := false

def reviewerPrefix : String := "open-code-review"

def severityMap : List (String × String) :=
  [("critical","critical"),("blocker","critical"),("fatal","critical"),("high","high"),("error","high"),("major","high"),
   ("medium","medium"),("moderate","medium"),("warning","medium"),("warn","medium"),("low","low"),("minor","low"),
   ("info","info"),("informational","info"),("note","info"),("notice","info"),("suggestion","info")]

section
variable (ops : TextOps) (payload : Fields)

def normalizeSeverity (raw : Json) : String :=
  (severityMap.lookup (ops.lower (strip (textOr ops raw)))).getD "info"

def observedModel : Option String :=
  let model := get (get (get payload "manifest").fields "execution").fields "model"
  if truthy model then
    let text := strip (pyStr ops model)
    if text = "" then none else some text
  else none

/-- `payload.get("manifest").get("coverage")`, where both are objects. -/
def coverage : Fields := (get (get payload "manifest").fields "coverage").fields

/-- `len(value) > 0` of a list. -/
def filled : Json → Bool
  | .arr xs => !xs.isEmpty
  | _ => false

/-- `summary["files_reviewed"]`, where it is there. -/
def filesReviewed : Option Json := (get payload "summary").fields.lookup "files_reviewed"

def positiveCount : Bool := filesReviewed payload |>.any fun j => match pyInt ops j with
  | .ok count => decide (0 < count)
  | .error _ => false

def emptyReviewReason : Option String :=
  if [get payload "status",get (get payload "manifest").fields "terminal_state"].any
      (fun value => ops.lower (strip (pyStr ops value)) = "skipped") then some "review skipped: no items reviewed"
  else if get (coverage payload) "selected" = .arr [] then some "review skipped: no items selected"
  else match (filesReviewed payload).map (pyInt ops) with
    | some (.error _) => some "review coverage invalid: files_reviewed is not a count"
    | some (.ok count) =>
      if count ≤ 0 then some "review skipped: zero files reviewed"
      else none
    | none =>
      if filled (get (coverage payload) "selected") || filled (get (coverage payload) "completed") then none
      else some "review coverage missing"

def everyItemFailed : Bool := match get (coverage payload) "selected",get (coverage payload) "failed" with
  | .arr selected,.arr failed => decide (selected ≠ [] ∧ selected.length ≤ failed.length)
  | _,_ => false

def findingLine (item : Fields) : Except IntError (Option ℤ) :=
  match (item.lookup "start_line").getD (get item "line") with
  | .scalar .null => .ok none
  | raw => match pyInt ops raw with
    | .ok n => .ok (some n)
    | .error .overflow => .error .overflow
    | .error _ => .ok none

def finding (item : Fields) : Except IntError Finding :=
  (findingLine ops item).map fun line => {
    severity := normalizeSeverity ops (get item "severity")
    category := textOr ops (get item "category")
    file := textOr ops ((item.lookup "path").getD (get item "file"))
    line := line
    message := textOr ops ((item.lookup "content").getD (get item "message")) }

def parseFindings : Except IntError (List Finding) :=
  ((get payload "comments").items.filter Json.isObj).mapM fun item => finding ops item.fields

def firstLine (text : String) : List Char := (Path.strip text.toList).takeWhile fun c => !isBreak c
where
  /-- The characters at which `splitlines` ends a line. -/
  isBreak (c : Char) : Bool :=
    let n := c.toNat
    (10 ≤ n && n ≤ 13) || (28 ≤ n && n ≤ 30) || n == 0x85 || n == 0x2028 || n == 0x2029

/-- `text.split()`. -/
def splitBlanks (text : List Char) : List (List Char) := (text.splitBy fun a b => Path.isSpace a == Path.isSpace b).filter
  fun part => !part.any Path.isSpace

/-- `_probe_version`, by what the probe printed. -/
def probeVersion (run : OcrRun) : String :=
  let parts := splitBlanks (firstLine (if run.stdout = "" then run.stderr else run.stdout))
  let version := parts.find? fun token => match token with
    | 'v' :: c :: _ => ops.isDigit c
    | _ => false
  match version,parts.getLast? with
  | some token,_ => String.ofList token
  | none,some token => String.ofList token
  | none,none => "unknown"

/-- `_reviewer_label`; without a version in the payload the runner is asked for its own. -/
def reviewerLabel (probe : OcrRun) : String :=
  let version := get (get (get payload "manifest").fields "execution").fields "ocr_version"
  strip (reviewerPrefix ++ " " ++ if truthy version then pyStr ops version else probeVersion ops probe)

end

/-! ### The interpretation -/

/-- What `json.loads(raw_path.read_text())` makes of the output file. -/
inductive RawFile
  /-- An `OSError`. -/
  | unreadable (why : String)
  /-- Any other error that reading raises; it is not caught. -/
  | undecodable
  /-- A `JSONDecodeError`. -/
  | unparseable (why : String)
  | value (j : Json)

structure Settings where
  (rawRef idleSeconds : String)

section
variable (ops : TextOps) (settings : Settings)

def errorResult (routeId detail : String) : ReviewResult where
  status := .error
  reviewer := reviewerPrefix
  routeId := routeId
  rawRef := settings.rawRef
  detail := detail

def runFault (run : OcrRun) : Option String :=
  if contains run.stderr "ocr review cleanup UNKNOWN" then some run.stderr
  else if contains run.stderr "ocr review stopped after cancellation" then some run.stderr
  else if run.exitCode = 125 ∧ (contains run.stderr "owned worker launch refused"
      ∨ contains run.stderr "owned review launch refused") then some run.stderr
  else if run.timedOut then some "ocr review timed out"
  else if run.idleTimedOut then some ("ocr review timed out: no progress for " ++ settings.idleSeconds ++ "s")
  else if run.exitCode ≠ 0 then some ("ocr review exited " ++ toString run.exitCode)
  else none

def sameRoute (routeId observed : String) : Bool :=
  removePrefix "omniroute/" observed = removePrefix "omniroute/" routeId

def payloadFault (routeId : String) (payload : Fields) : Option String :=
  match emptyReviewReason ops payload with
  | some reason => some reason
  | none =>
    if everyItemFailed payload then some "every reviewed item failed"
    else match observedModel ops payload with
      | some observed =>
        if sameRoute routeId observed then none
        else some ("identity_mismatch: selected " ++ routeId ++ ", observed " ++ observed)
      | none => none

def judge (routeId : String) (probe : OcrRun) (payload : Fields) (findings : List Finding) : ReviewResult where
  status := if findings.any Finding.blocking then .fail else .pass
  reviewer := reviewerLabel ops payload probe
  routeId := routeId
  findings := findings
  rawRef := settings.rawRef
  observedModel := (observedModel ops payload).getD ""

/-- `_interpret`; an exception has no result. -/
def interpret (run : OcrRun) (raw : Option RawFile) (routeId : String) (probe : OcrRun) : Option ReviewResult :=
  match runFault settings run with
  | some detail => some (errorResult settings routeId detail)
  | none => match raw with
    | none => some (errorResult settings routeId "ocr output file missing")
    | some .undecodable => none
    | some (.unreadable why) => some (errorResult settings routeId ("unparseable ocr output: " ++ why))
    | some (.unparseable why) => some (errorResult settings routeId ("unparseable ocr output: " ++ why))
    | some (.value (.obj payload)) => match payloadFault ops routeId payload with
      | some detail => some (errorResult settings routeId detail)
      | none => match parseFindings ops payload with
        | .error _ => none
        | .ok findings => some (judge ops settings routeId probe payload findings)
    | some (.value _) => some (errorResult settings routeId "ocr output was not an object")

end
end Verdict.Review

import Verdict.Basics.Regex
import Verdict.ReceiptStore.Redaction
import Verdict.Runtime.NodeRun

/-! # Reset hints in an error text

How long a route asks to be left alone, read out of the prose of its error: the four patterns of
`RETRY_AFTER_PATTERNS`, tried in order, and the durations of the last. Letters are compared
without their case, so that a unit may be spelled with a letter the table of units does not have.
-/
namespace Verdict.Recovery
open Regex
open ReceiptStore (sameLetter)

/-- A number of seconds, as a float has it. -/
inductive Seconds
  | num (q : ℚ)
  | inf
  | negInf
  | nan
  deriving DecidableEq

namespace Seconds

/-- `bool(value)`. -/
def truthy (s : Seconds) : Bool := s != num 0

/-- `value > 0`. -/
def positive : Seconds → Bool
  | num q => decide (0 < q)
  | inf => true
  | _ => false

/-- `min(value, bound)`. -/
def capped (bound : ℚ) : Seconds → Seconds
  | num q => num (min q bound)
  | inf => num bound
  | s => s

/-- `value or other`. -/
def orElse (s other : Seconds) : Seconds := if s.truthy then s else other

def Within (bound : ℚ) : Seconds → Prop
  | num q => 0 ≤ q ∧ q ≤ bound
  | _ => False

instance (bound : ℚ) : (s : Seconds) → Decidable (s.Within bound)
  | num _ => inferInstanceAs (Decidable (_ ∧ _))
  | inf | negInf | nan => isFalse id

theorem capped_within {bound : ℚ} {s : Seconds} (hb : 0 ≤ bound) (h : s.positive = true) : (s.capped bound).Within bound := by
  cases s with
  | num q => exact ⟨le_min (of_decide_eq_true h).le hb,min_le_right q bound⟩
  | inf => exact ⟨hb,le_rfl⟩
  | negInf => cases h
  | nan => cases h

theorem orElse_within {bound : ℚ} {s other : Seconds} (h : other.Within bound) : (s.orElse other).Within bound ↔ s.Within bound := by
  rw [orElse]
  split
  · rfl
  · rename_i hs
    have hzero : s = num 0 := by simpa [truthy] using hs
    subst hzero
    refine ⟨fun _ => ⟨le_rfl,?_⟩,fun _ => h⟩
    cases other with
    | num q => exact h.1.trans h.2
    | inf => exact h.elim
    | negInf => exact h.elim
    | nan => exact h.elim

end Seconds

structure Outside where
  lower : List Char → List Char
  (isWord isDigit : Char → Bool)
  float : List Char → Seconds
  plus : Seconds → Seconds → Seconds
  times : Seconds → ℕ → Seconds

/-- 24 hours. -/
def MAX_COOLDOWN_SECONDS : ℚ := 86400

def DURATION_UNITS : List (List Char × ℕ) :=
  [("d",86400),("day",86400),("days",86400),
    ("h",3600),("hr",3600),("hrs",3600),("hour",3600),("hours",3600),
    ("m",60),("min",60),("mins",60),("minute",60),("minutes",60),
    ("s",1),("sec",1),("secs",1),("second",1),("seconds",1)].map fun e => (e.1.toList,e.2)

/-- `KeyError` of the table of units. -/
structure UnknownUnit where
  unit : List Char

section
variable (o : Outside)

def text (w : String) : Pattern := word sameLetter w.toList

/-- `[a-z]` without regard to case. -/
def letter (c : Char) : Bool := "abcdefghijklmnopqrstuvwxyz".toList.any (sameLetter · c)

def space : Pattern := .one Path.isSpace

/-- `\d+`. -/
def digits : Pattern := some₁ (.one o.isDigit)

/-- `\d+(?:\.\d+)?`. -/
def number : Pattern := .seq (digits o) (maybe (.seq (text ".") (digits o)))

/-- `days?|d|hours?|hrs?|h|minutes?|mins?|m|seconds?|secs?|s`. -/
def unit : Pattern := oneOf [.seq (text "day") (maybe (text "s")),text "d",.seq (text "hour") (maybe (text "s")),
  .seq (text "hr") (maybe (text "s")),text "h",.seq (text "minute") (maybe (text "s")),.seq (text "min") (maybe (text "s")),text "m",
  .seq (text "second") (maybe (text "s")),.seq (text "sec") (maybe (text "s")),text "s"]

/-- A number, blanks, a unit and a border. -/
def durationPart : List Pattern := [number o,.most space,unit,border o.isWord]

/-- `(?:resets?|try again|retry(?:-after| after)?|available again|reset)\s*(?:in|after)?\s*`. -/
def hintLead : Pattern := seqs [oneOf [.seq (text "reset") (maybe (text "s")),text "try again",
    .seq (text "retry") (maybe (.alt (text "-after") (text " after"))),text "available again",text "reset"],
  .most space,maybe (.alt (text "in") (text "after")),.most space]

/-- `(?:\d+(?:\.\d+)?\s*(?:...)\b[\s,and]*)+`. -/
def hintDurations : Pattern := some₁ (seqs [number o,.most space,unit,border o.isWord,
  .most (.one fun c => Path.isSpace c || [',','a','n','d'].any (sameLetter · c))])

end

def parseDuration (o : Outside) (duration : List Char) : Except UnknownUnit (Option Seconds) :=
  (findall (durationPart o) duration).foldlM (fun total groups => match groups with
    | [number,_,unit,_] => match DURATION_UNITS.lookup (o.lower unit) with
      | some size => .ok (some (o.plus (total.getD (.num 0)) (o.times (o.float number) size)))
      | none => .error ⟨o.lower unit⟩
    | _ => .ok total) none

/-- An instant with an offset is taken to be an hour away. -/
def parseIso8601 (stamp : List Char) : Option Seconds :=
  if 'T' ∈ stamp then
    let ts := Substitute.sub (Substitute.literal ['Z'] "+00:00".toList) stamp
    if '+' ∈ ts ∨ 2 < ts.count '-' then some (.num 3600) else none
  else none

/-- `RETRY_AFTER_PATTERNS`, each with what its converter makes of the groups. -/
def RETRY_AFTER_PATTERNS (o : Outside) : List (List Pattern × (List (List Char) → Except UnknownUnit (Option Seconds))) :=
  [([.seq (text "retry-after:") (.most space),digits o,border o.isWord,.notAhead (.seq (.most space) (.one letter))],
      fun groups => .ok (groups[1]?.map o.float)),
    ([text "retry after ",digits o,text " seconds"],fun groups => .ok (groups[1]?.map o.float)),
    ([.seq (text "reset") (maybe (text "s")),text " at ",
        some₁ (.one fun c => o.isDigit c || ['-','t',':','.','z','+'].any (sameLetter · c))],
      fun groups => .ok (groups[2]?.bind parseIso8601)),
    ([hintLead,hintDurations o],fun groups => match groups[1]? with
      | some duration => parseDuration o duration
      | none => .ok none)]

def firstHint (error : List Char) :
    List (List Pattern × (List (List Char) → Except UnknownUnit (Option Seconds))) → Except UnknownUnit (Option Seconds)
  | [] => .ok none
  | (pattern,converter) :: rest => match search pattern error with
    | none => firstHint error rest
    | some groups => match converter groups with
      | .error e => .error e
      | .ok (some result) => if result.positive then .ok (some (result.capped MAX_COOLDOWN_SECONDS)) else firstHint error rest
      | .ok none => firstHint error rest

def parseResetHint (o : Outside) (error : List Char) : Except UnknownUnit (Option Seconds) :=
  if error = [] then .ok none else firstHint error (RETRY_AFTER_PATTERNS o)

theorem firstHint_within {error : List Char} {patterns : List (List Pattern × (List (List Char) → Except UnknownUnit (Option Seconds)))}
    {s : Seconds} (h : firstHint error patterns = .ok (some s)) : s.Within MAX_COOLDOWN_SECONDS := by
  induction patterns with
  | nil => cases h
  | cons entry rest ih =>
    simp only [firstHint] at h
    split at h
    · exact ih h
    · split at h
      · cases h
      · split at h
        · rename_i hpos
          cases h
          exact Seconds.capped_within (by decide) hpos
        · exact ih h
      · exact ih h

theorem parseResetHint_within {o : Outside} {error : List Char} {s : Seconds} (h : parseResetHint o error = .ok (some s)) :
    s.Within MAX_COOLDOWN_SECONDS := by
  rw [parseResetHint] at h
  split at h
  · cases h
  · exact firstHint_within h

/-! ### Secrets -/

def secretChars : Pattern := some₁ (.one fun c => letter c || c.isDigit || ['.','_','-'].contains c)

/-- Up to 300 characters without keys and tokens. -/
def sanitizeError (error : List Char) : List Char :=
  let redacted (p : Pattern) := Substitute.sub (asMatcher p "REDACTED".toList)
  let sanitized := redacted (seqs [text "bearer",some₁ space,secretChars]) error
  let sanitized := redacted (.seq (text "sk-") (some₁ (.one fun c => letter c || c.isDigit))) sanitized
  let key := seqs [text "api",maybe (.one fun c => c = '_' || c = '-'),text "key"]
  let sanitized := redacted (seqs [oneOf [key,text "token",text "secret"],
    some₁ (.one fun c => c = '=' || c = ':' || Path.isSpace c),secretChars]) sanitized
  sanitized.take 300

end Verdict.Recovery

/-! ## Classifying a failed worker

`FailureIntelligence.classify`: the status code decides first, then the prose of the error. The
cooldown is the one that the executor reports, else the one that the error asks for, else the
default of the category.
-/
namespace Verdict.Recovery
open Runtime (Action Scope)

structure WorkerTerminal where
  ok : Bool
  output : String := ""
  stopReason : String := ""
  error : String := ""
  statusCode : Option ℤ := none
  retryAfterSeconds : Option Seconds := none

structure FailureClassification where
  category : String
  action : Action
  cooldownSeconds : Seconds
  scope : Scope
  evidence : List Char := []

/-- `any(marker in text for marker in markers)`. -/
def mentions (text : List Char) (markers : List String) : Bool := markers.any fun marker => decide (marker.toList <:+: text)

def MODEL_SCOPED_403_MARKERS : List String :=
  ["this model","for model","model not allowed","model is not allowed","not allowed to use model",
    "does not have access to model","no access to model","model access","blocked model","model is blocked"]

def CONTEXT_LENGTH_MARKERS : List String :=
  ["input is too long","prompt is too long","context length","context_length_exceeded","maximum context",
    "context window","too many tokens"]

def QUOTA_INDICATORS : List String :=
  ["quota","exceeded your","usage limit","insufficient_quota","weekly limit","monthly limit","daily limit"]

def MODEL_SCOPED_QUOTA_MARKERS : List String := ["for this model","model usage limit","per-model"]

def MODEL_MISSING_MARKERS : List String := ["model not found","unknown model","does not exist"]
def TIMEOUT_MARKERS : List String := ["timeout","timed out"]
def CONNECTION_MARKERS : List String := ["connection refused","connection reset","transport"]

/-- `_GATEWAY_BUSY_RE`. -/
def GATEWAY_BUSY : Regex.Pattern := Regex.oneOf [text "chat_admission_busy",
  .seq (text "admission capacity is ") (.alt (text "temporarily unavailable") (text "busy")),
  text "structurally heavy chat request capacity is busy"]

def isContextLengthError (o : Outside) (error : List Char) : Bool := mentions (o.lower error) CONTEXT_LENGTH_MARKERS

variable (o : Outside)
variable (error : List Char)

def unparked (category : String) (action : Action) : FailureClassification :=
  ⟨category,action,.num 0,.none,sanitizeError error⟩

def parked (cooldown : Seconds) (category : String) (scope : Scope) (default : ℚ) : FailureClassification :=
  ⟨category,.reroute,cooldown.orElse (.num default),scope,sanitizeError error⟩

variable (t : WorkerTerminal)

def taskFeedback : Option FailureClassification :=
  let error := t.error.toList
  if "worker_blocked:".toList <+: error then some (unparked error "worker_blocked" .correctImplementation)
  else if "harness_configuration:".toList <+: error then some (unparked error "harness_configuration" .block)
  else if "ownership_refused:".toList <+: error ∨ t.statusCode = some 125 then some (unparked error "ownership_refused" .block)
  else if t.statusCode ∈ [some 400,some 413,none] ∧ isContextLengthError o error = true then
    some (unparked error "context_length_exceeded" .reroute)
  else none

def cooldownOf : Except UnknownUnit Seconds :=
  let cooldown := t.retryAfterSeconds.getD (.num 0)
  if cooldown.truthy then .ok cooldown
  else match parseResetHint o t.error.toList with
    | .ok hint => .ok (hint.getD cooldown)
    | .error e => .error e

def byStatus (cooldown : Seconds) (status : ℤ) : Option FailureClassification :=
  let parked := parked error cooldown
  let lower := o.lower error
  if status = 429 then
    if mentions lower QUOTA_INDICATORS then
      some (parked "quota_exhausted" (if mentions lower MODEL_SCOPED_QUOTA_MARKERS then .route else .provider) 3600)
    else some (parked "rate_limited" .provider 60)
  else if status = 401 then some (parked "authentication" .provider 3600)
  else if status = 402 then some (parked "payment_required" .provider 3600)
  else if status = 403 then
    some (parked "permission" (if mentions lower MODEL_SCOPED_403_MARKERS then .route else .provider) 3600)
  else if status = 400 then
    if mentions lower ["unsupported","not supported"] then some (parked "unsupported" .route 86400)
    else some (parked "bad_request" .route 120)
  else if status = 404 then some (parked "model_unavailable" .route 3600)
  else if status = 410 then some (parked "gone" .route MAX_COOLDOWN_SECONDS)
  else if 500 ≤ status ∧ status < 600 then some (parked "upstream_temporary" .route 60)
  else none

def byText (cooldown : Seconds) : FailureClassification :=
  let error := t.error.toList
  let parked := parked error cooldown
  let lower := o.lower error
  if mentions lower MODEL_MISSING_MARKERS then parked "model_unavailable" .route 3600
  else if t.stopReason = "timeout" ∨ mentions lower TIMEOUT_MARKERS = true then parked "timeout" .route 120
  else if mentions lower CONNECTION_MARKERS then parked "transport_temporary" .route 60
  else if t.error = "no_final_answer" ∨ t.stopReason ∉ ["stop","end_turn",""] then parked "no_final_answer" .route 300
  else if mentions lower ["malformed"] then parked "malformed_response" .route 300
  else if t.error = "model_mismatch" then parked "model_mismatch" .route 3600
  else if "verification_failed".toList <+: error then unparked error "verification_failed" .correctImplementation
  else if "ownership_violation".toList <+: error then unparked error "ownership_violation" .rehydrate
  else parked "unknown" .route 120

/-- `classify` of a failure, with its cooldown known. -/
def classifyFailure (cooldown : Seconds) : FailureClassification :=
  let error := t.error.toList
  if Regex.occurs GATEWAY_BUSY error then ⟨"gateway_busy",.retryInfra,cooldown.orElse (.num 15),.none,sanitizeError error⟩
  else ((t.statusCode.bind (byStatus o error cooldown))).getD (byText o t cooldown)

/-- `FailureIntelligence.classify`. -/
def classify : Except UnknownUnit FailureClassification :=
  if t.ok then
    if Path.strip t.output.toList = [] then
      .ok ⟨"empty_output",.reroute,.num 300,.route,sanitizeError "ok but empty output".toList⟩
    else .ok ⟨"success",.block,.num 0,.none,[]⟩
  else match taskFeedback o t with
    | some classification => .ok classification
    | none => (cooldownOf o t).map (classifyFailure o t)

theorem classify_failed {t : WorkerTerminal} (h : t.ok = false) :
    classify o t = (taskFeedback o t).elim ((cooldownOf o t).map (classifyFailure o t)) .ok := by
  rw [classify,if_neg (by rw [h]; exact Bool.false_ne_true)]
  cases taskFeedback o t <;> rfl

theorem cooldownOf_hint {t : WorkerTerminal} (h : t.retryAfterSeconds = none) :
    cooldownOf o t = (parseResetHint o t.error.toList).map fun hint => hint.getD (.num 0) := by
  simp only [cooldownOf,h,Option.getD_none]
  cases parseResetHint o t.error.toList <;> rfl

end Verdict.Recovery

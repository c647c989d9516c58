import Verdict.Admission.Evidence
import Verdict.Basics.PyJson
import Verdict.Basics.Raising
import Verdict.Basics.Sse
import Verdict.Basics.TextLines

/-! # The stream parser

`SSETerminalParser`: bytes come in chunks, are decoded, cut into lines, gathered into events, and
each event moves the terminal state of the stream. A call that raises leaves the parser as it was
there, so an error carries the parser's state. Two kinds of error leave a call: the protocol error
the parser raises after it has recorded the outcome, and any error it does not catch.
-/
namespace Verdict.Stream
open Sse (Text newline)
open Json (get)

inductive Surface
  | chat
  | responses
  deriving DecidableEq

inductive StreamState
  | success | failed | incomplete | aborted | protocolError | abruptEof | transportError
  deriving DecidableEq

structure StreamOutcome where
  state : StreamState
  surface : Surface
  finishReasons : List String := []
  usage : Option Fields := none
  terminalEvent : Option String := none
  servedModel : Option String := none
  detail : Option String := none
  cleanupError : Option String := none

/-- What `json.loads` does with a text: it returns a value, raises the error for a text that
is not JSON, or raises another error, as it does when values are nested too deeply. -/
inductive Loaded
  | value (j : Json)
  | invalid
  | raised
  deriving DecidableEq

structure Settings where
  surface : Surface
  (maxBytes maxBuffer maxEvents : ℕ)
  loads : Text → Loaded
  str : Json → String

structure EventLog where
  eventData : List Text := []
  pending : ℕ := 0
  events : ℕ := 0
  done : Bool := false
  finishReasons : List String := []
  usage : Option Fields := none
  models : List String := []
  responsesTerminal : Option String := none
  outcome : Option StreamOutcome := none

structure SSETerminalParser extends EventLog where
  decoder : Utf8.State := .start
  buffer : Text := []
  bytes : ℕ := 0

/-- The error that leaves a call: `StreamProtocolError`, or one the parser does not catch. -/
inductive Raised
  | protocol (message : String)
  | uncaught

/-- A call on an object of type `σ`, with the object as it is when the call returns or raises. -/
abbrev Call (σ : Type) := Except (Raised × σ) σ

def left {σ : Type} : Call σ → σ
  | .ok s => s
  | .error (_,s) => s

section Calls
variable (k : Settings)
variable (log : EventLog)

/-- The first failure is the outcome. -/
def EventLog.fail (message : String) : Call EventLog :=
  let outcome : StreamOutcome := {
    state := .protocolError
    surface := k.surface
    finishReasons := log.finishReasons
    usage := log.usage
    servedModel := log.models.getLast?
    detail := some message }
  .error (.protocol message,{log with outcome := some (log.outcome.getD outcome)})

def responsesTerminalTypes : List String := ["response.completed","response.failed","response.incomplete"]

variable (fields : Fields)

/-- `usage` of an event replaces the one so far if it is an object. -/
def readUsage (usage : Option Fields) : Option Fields := match get fields "usage" with
  | .obj fs => some fs
  | _ => usage

/-- The type of a responses event is looked up in a set of texts, which raises for a value
that cannot be hashed. -/
def EventLog.readResponses : Call EventLog := match get fields "type" with
  | .arr _ | .obj _ => .error (.uncaught,log)
  | .str type =>
    if type ∈ responsesTerminalTypes then
      .ok {log with responsesTerminal := some type, usage := readUsage fields log.usage}
    else .ok log
  | _ => .ok log

def readModel (models : List String) : List String := match get fields "model" with
  | .str model => if Admission.strip model ≠ "" then models ++ [model] else models
  | _ => models

def choiceReason : Json → Option Json
  | .obj choice => if get choice "finish_reason" = .null then none else some (get choice "finish_reason")
  | _ => none

def finishReasonsOf : List String := match get fields "choices" with
  | .arr choices => (choices.filterMap choiceReason).map k.str
  | _ => []

def EventLog.readChat : EventLog :=
  {log with
    models := readModel fields log.models
    usage := readUsage fields log.usage
    finishReasons := log.finishReasons ++ finishReasonsOf k fields}

def doneText : Text := ['[','D','O','N','E',']']

def EventLog.finishEvent : Call EventLog :=
  let data := Sse.joined log.eventData
  let log := {log with eventData := [], pending := 0, events := log.events + 1}
  if log.events > k.maxEvents then log.fail k "stream exceeded its event limit"
  else if log.done = true ∨ log.responsesTerminal ≠ none then
    log.fail k "stream emitted data after its terminal event"
  else if k.surface = .chat ∧ data = doneText then
    let log := {log with done := true}
    if log.finishReasons = [] then log.fail k "chat stream ended with [DONE] but no finish_reason"
    else .ok log
  else match k.loads data with
    | .raised => .error (.uncaught,log)
    | .invalid => log.fail k "stream event was not valid JSON"
    | .value (.obj fields) => match k.surface with
      | .responses => log.readResponses fields
      | .chat => .ok (log.readChat k fields)
    | .value _ => log.fail k "stream event must be a JSON object"

def EventLog.consumeLine (line : Text) : Call EventLog :=
  if line = [] then
    if log.eventData ≠ [] then log.finishEvent k else .ok log
  else if line.head? = some ':' then .ok log
  else if Sse.dataKey.isPrefixOf line then
    let value := Sse.dataValue line
    if log.pending + value.length > k.maxBuffer then log.fail k "stream aggregate event exceeded its limit"
    else .ok {log with eventData := log.eventData ++ [value], pending := log.pending + value.length}
  else .ok log

variable (p : SSETerminalParser)

def SSETerminalParser.lift : Call EventLog → Call SSETerminalParser
  | .ok log => .ok {p with toEventLog := log}
  | .error (raised,log) => .error (raised,{p with toEventLog := log})

def SSETerminalParser.fail (p : SSETerminalParser) (message : String) : Call SSETerminalParser :=
  p.lift (p.toEventLog.fail k message)

/-- The loop of `_feed_text`: `line` has no newline, and `rest` is what has not been looked at. -/
def drain (line : Text) : Text → SSETerminalParser → Call SSETerminalParser
  | [], p => .ok {p with buffer := line}
  | c :: rest, p =>
    if c = newline then
      let p := {p with buffer := rest}
      if rest.length > k.maxBuffer then p.fail k "stream event buffer exceeded its limit"
      else match p.lift (p.toEventLog.consumeLine k (Sse.rstripReturn line)) with
        | .ok p => drain [] rest p
        | .error e => .error e
    else drain (line ++ [c]) rest p

def SSETerminalParser.feedText (text : Text) : Call SSETerminalParser :=
  let p := {p with buffer := p.buffer ++ text}
  if p.buffer.length > k.maxBuffer then p.fail k "stream event buffer exceeded its limit"
  else drain k [] p.buffer p

inductive Chunk
  | bytes (bs : List UInt8)
  | other
  deriving DecidableEq

def SSETerminalParser.feedChunk : Chunk → Call SSETerminalParser
  | .other =>
    if p.outcome ≠ none then p.fail k "stream already reached its terminal outcome"
    else p.fail k "upstream stream yielded a non-byte chunk"
  | .bytes chunk =>
    if p.outcome ≠ none then p.fail k "stream already reached its terminal outcome"
    else
      let p := {p with bytes := p.bytes + chunk.length}
      if p.bytes > k.maxBytes then p.fail k "stream exceeded the aggregate byte limit"
      else match Utf8.decode p.decoder chunk with
        | none => p.fail k "stream contained invalid UTF-8"
        | some (decoder,text) => {p with decoder := decoder}.feedText k text

def EventLog.ending : StreamState × Option String × Option String := match k.surface with
  | .chat =>
    if log.done then (.success,none,some "chat_done")
    else (.abruptEof,some "stream ended without a terminal event",none)
  | .responses => match log.responsesTerminal with
    | none => (.abruptEof,some "stream ended without a terminal event",none)
    | some type =>
      let state : StreamState :=
        if type = "response.completed" then .success
        else if type = "response.failed" then .failed
        else if type = "response.incomplete" then .incomplete
        else .abruptEof
      (state,none,some type)

/-- The last part of `finalize`: the outcome is recorded, and an end without a terminal raises. -/
def EventLog.conclude : Call EventLog :=
  let (state,detail,terminalEvent) := log.ending k
  let outcome : StreamOutcome := {
    state := state
    surface := k.surface
    finishReasons := log.finishReasons
    usage := log.usage
    terminalEvent := terminalEvent
    servedModel := log.models.getLast?
    detail := detail }
  let log := {log with outcome := some outcome}
  match detail with
  | none => .ok log
  | some message => .error (.protocol message,log)

/-- `if text: self._feed_text(text)`. -/
def SSETerminalParser.feedRest (text : Text) : Call SSETerminalParser :=
  if text ≠ [] then p.feedText k text else .ok p

/-- `if self._event_data: self._finish_event()`. -/
def SSETerminalParser.finishOpen : Call SSETerminalParser :=
  if p.eventData ≠ [] then p.lift (p.toEventLog.finishEvent k) else .ok p

def SSETerminalParser.finalize : Except (Raised × SSETerminalParser) SSETerminalParser :=
  if p.outcome ≠ none then .ok p
  else match Utf8.finish p.decoder with
    | none => p.fail k "stream contained invalid UTF-8"
    | some text => do
      let p ← {p with decoder := .start}.feedRest k text
      let p ← p.finishOpen k
      p.lift (p.toEventLog.conclude k)

/-- The semantic end has been seen. -/
def SSETerminalParser.terminal : Bool := match k.surface with
  | .chat => p.done
  | .responses => p.responsesTerminal.isSome

variable (chunks : List (List UInt8))

def feedAll : Except (Raised × SSETerminalParser) SSETerminalParser :=
  chunks.foldlM (fun p chunk => p.feedChunk k (.bytes chunk)) p

def drive : Except (Raised × SSETerminalParser) SSETerminalParser := do
  let p ← feedAll k {} chunks
  p.finalize k

def ended : Option StreamOutcome := (left (drive k chunks)).outcome

end Calls
end Verdict.Stream

/-! ## Reading character by character

As long as the line buffer stays within its limit, feeding a text is reading its characters
one after the other, and reading a text in two parts is reading it in one. The text of a
chunk, its bytes and the unfinished line before it decide whether it is read at all.
-/
namespace Verdict.Stream
open Sse (Text newline)
open Raising

section Reading
variable (k : Settings)
variable (s : Text × EventLog)

def readChar (c : Char) : Except (Raised × EventLog) (Text × EventLog) :=
  if c = newline then match s.2.consumeLine k (Sse.rstripReturn s.1) with
    | .ok log => .ok ([],log)
    | .error e => .error e
  else .ok (s.1 ++ [c],s.2)

def view : Call SSETerminalParser → Except (Raised × EventLog) (Text × EventLog)
  | .ok p => .ok (p.buffer,p.toEventLog)
  | .error (raised,p) => .error (raised,p.toEventLog)

variable {k}

theorem readChar_newline (line : Text) (log : EventLog) :
    readChar k (line,log) newline = match log.consumeLine k (Sse.rstripReturn line) with
      | .ok log => .ok ([],log)
      | .error e => .error e := if_pos rfl

theorem readChar_char {c : Char} (hc : c ≠ newline) : readChar k s c = .ok (s.1 ++ [c],s.2) :=
  if_neg hc

theorem read_line (line text : Text) (log : EventLog) (h : newline ∉ text) :
    text.foldlM (readChar k) (line,log) = .ok (line ++ text,log) := by
  induction text generalizing line with
  | nil =>
    rw [List.append_nil]
    rfl
  | cons c text ih =>
    have hc : c ≠ newline := fun e => h (e ▸ List.mem_cons_self)
    rw [List.foldlM_cons,readChar_char _ hc]
    have hrest := ih (line ++ [c]) fun hm => h (List.mem_cons_of_mem _ hm)
    rw [List.append_assoc,List.singleton_append] at hrest
    exact hrest

/-- The loop of `_feed_text` reads the characters that are left. -/
theorem drain_view (line rest : Text) (p : SSETerminalParser) (h : rest.length ≤ k.maxBuffer) :
    view (drain k line rest p) = rest.foldlM (readChar k) (line,p.toEventLog) := by
  induction rest generalizing line p with
  | nil => rfl
  | cons c rest ih =>
    have hrest : rest.length ≤ k.maxBuffer := le_trans (Nat.le_succ _) h
    rw [List.foldlM_cons,drain]
    by_cases hc : c = newline
    · subst hc
      rw [if_pos rfl,readChar_newline]
      simp only
      rw [if_neg (Nat.not_lt.mpr hrest)]
      cases hline : p.toEventLog.consumeLine k (Sse.rstripReturn line) with
      | ok log => exact ih [] _ hrest
      | error e => rfl
    · rw [if_neg hc,readChar_char _ hc]
      exact ih (line ++ [c]) p hrest

theorem drain_transport {line rest : Text} {p p' : SSETerminalParser} (h : drain k line rest p = .ok p') :
    p'.decoder = p.decoder ∧ p'.bytes = p.bytes := by
  induction rest generalizing line p with
  | nil =>
    cases h
    exact ⟨rfl,rfl⟩
  | cons c rest ih =>
    rw [drain] at h
    split at h
    · simp only at h
      split at h
      · cases h
      · cases hline : p.toEventLog.consumeLine k (Sse.rstripReturn line) with
        | ok log =>
          simp only [hline,SSETerminalParser.lift] at h
          have hrest := ih h
          exact hrest
        | error e =>
          simp only [hline,SSETerminalParser.lift] at h
          cases h
    · exact ih h

theorem feedText_view {p : SSETerminalParser} {text : Text} (hbuffer : newline ∉ p.buffer)
    (h : p.buffer.length + text.length ≤ k.maxBuffer) :
    view (p.feedText k text) = text.foldlM (readChar k) (p.buffer,p.toEventLog) := by
  have hlen : (p.buffer ++ text).length ≤ k.maxBuffer := by
    rw [List.length_append]
    exact h
  rw [SSETerminalParser.feedText]
  simp only
  rw [if_neg (Nat.not_lt.mpr hlen),drain_view _ _ _ hlen,List.foldlM_append,read_line _ _ _ hbuffer]
  rfl

theorem feedText_transport {p p' : SSETerminalParser} {text : Text} (h : p.feedText k text = .ok p') :
    p'.decoder = p.decoder ∧ p'.bytes = p.bytes := by
  rw [SSETerminalParser.feedText] at h
  simp only at h
  split at h
  · cases h
  · have hdrain := drain_transport h
    exact hdrain

theorem read_newline_free {s s' : Text × EventLog} {text : Text} (hs : newline ∉ s.1)
    (h : text.foldlM (readChar k) s = .ok s') : newline ∉ s'.1 := by
  refine foldlM_preserves (P := fun s => newline ∉ s.1) ?_ hs h
  intro s c s' _ hs hstep
  by_cases hc : c = newline
  · subst hc
    rw [readChar_newline] at hstep
    split at hstep
    · cases hstep
      exact List.not_mem_nil
    · cases hstep
  · rw [readChar_char s hc] at hstep
    cases hstep
    intro hm
    rcases List.mem_append.mp hm with hm | hm
    · exact hs hm
    · exact hc (List.mem_singleton.mp hm).symm

end Reading
end Verdict.Stream

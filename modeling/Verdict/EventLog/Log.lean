import Mathlib.Data.List.DropRight
import Verdict.Basics.Run
import Verdict.Basics.TextLines
import Verdict.Contracts.Path
import Verdict.EventLog.Event

/-! # The torn tail of an event log

A crash in the middle of an append leaves part of a line behind the last line end. Opening a log
cuts it off.
-/
namespace Verdict.EventLog

abbrev Bytes := List UInt8

def newline : UInt8 := 10

variable (raw : Bytes)

/-- The file is cut behind its last line end. -/
def repairTornTail : Bytes :=
  if raw = [] ∨ raw.getLast? = some newline then raw else raw.rdropWhile (· ≠ newline)

def TornTail : Prop := raw ≠ [] ∧ raw.getLast? ≠ some newline

instance (raw : Bytes) : Decidable (TornTail raw) := inferInstanceAs (Decidable (_ ∧ _))

theorem repairTornTail_eq_rdropWhile : repairTornTail raw = raw.rdropWhile (· ≠ newline) := by
  rw [repairTornTail]
  split
  · rename_i hwhole
    refine (List.rdropWhile_eq_self_iff.mpr fun hne => ?_).symm
    rcases hwhole with rfl | hlast
    · exact absurd rfl hne
    · rw [List.getLast?_eq_some_getLast hne] at hlast
      simp [Option.some.inj hlast]
  · rfl

theorem repairTornTail_eq_self_iff {raw : Bytes} : repairTornTail raw = raw ↔ ¬ TornTail raw := by
  rw [repairTornTail_eq_rdropWhile,List.rdropWhile_eq_self_iff,TornTail,not_and_not_right]
  refine forall_congr' fun hne => ?_
  rw [List.getLast?_eq_some_getLast hne]
  simp

theorem repairTornTail_idempotent : repairTornTail (repairTornTail raw) = repairTornTail raw := by
  simp only [repairTornTail_eq_rdropWhile,List.rdropWhile_idempotent]

theorem repairTornTail_of_notMem {raw : Bytes} (h : newline ∉ raw) : repairTornTail raw = [] := by
  rw [repairTornTail_eq_rdropWhile,List.rdropWhile_eq_nil_iff]
  exact fun b hb => decide_eq_true fun hnew => h (hnew ▸ hb)

theorem repairTornTail_append (whole : Bytes) {tail : Bytes} (htail : newline ∉ tail) :
    repairTornTail (whole ++ [newline] ++ tail) = whole ++ [newline] := by
  rw [repairTornTail_eq_rdropWhile]
  induction tail using List.reverseRecOn with
  | nil => rw [List.append_nil,List.rdropWhile_concat_neg _ _ _ (by simp)]
  | append_singleton tail b ih =>
    rw [List.mem_append,List.mem_singleton,not_or] at htail
    have hb : decide (b ≠ newline) = true := decide_eq_true (Ne.symm htail.2)
    rw [← List.append_assoc,List.rdropWhile_concat_pos (· ≠ newline) _ b hb]
    exact ih htail.1

end Verdict.EventLog

/-! ## The event log on disk

`EventLog` keeps one line for each event. The process may die at any byte of an append; the next
one that opens the log cuts the torn line off, reads the events that are there and goes on
behind the last of them.
-/
namespace Verdict.EventLog
open PyText JsonValue JsonText TextLines
variable {φ : Type}

inductive ReadError
  | decode
  | corrupt (number : ℕ)
  | order (number : ℕ) (seq last : ℤ)
  | overflow

/-- Why an emit raises: an `OrchestrationError`, or the `ValueError` of a number with too many digits. -/
inductive Raised
  | orchestration (message : Text)
  | value

structure Call (φ : Type) where
  type : Text
  nodeId : Text := []
  data : List (Text × Raw φ) := []
  time : Text

section
variable (env : Env φ)

def readLines : ℕ → ℤ → List (List Char) → Except ReadError (List (RunEvent φ))
  | _, _, [] => .ok []
  | number, last, line :: lines =>
    if line.all Path.isSpace then readLines (number + 1) last lines
    else match fromLine env line with
      | .error .corrupt => .error (.corrupt number)
      | .error .overflow => .error .overflow
      | .ok event =>
        if event.seq ≤ last then .error (.order number event.seq last)
        else (readLines (number + 1) event.seq lines).map (event :: ·)

/-- `EventLog.read`; there may be no file. -/
def read : Option Bytes → Except ReadError (List (RunEvent φ))
  | none => .ok []
  | some raw => match readText raw with
    | none => .error .decode
    | some text => readLines env 1 0 (splitlines text)

def lastSeq (events : List (RunEvent φ)) : ℤ := (events.getLast?.map RunEvent.seq).getD 0

/-- `EventLog(path)`: the file as it is left, and the last sequence number. -/
def openLog (file : Option Bytes) : Except ReadError (Option Bytes × ℤ) :=
  (read env (file.map repairTornTail)).map fun events => (file.map repairTornTail,lastSeq events)

/-- `EventLog.emit` up to the append: the event and the bytes of its line. -/
def prepare (seq : ℤ) (call : Call φ) : Except Raised (RunEvent φ × Bytes) := do
  let data ← (cleanMapping env.float env.scrubSecrets (call.type ++ lit ".data") []
    (call.data.map fun e => (.str e.1,e.2))).mapError .orchestration
  let event ← (RunEvent.make env (seq + 1) call.time call.type call.nodeId data).mapError .orchestration
  match event.line env.float with
  | some line => return (event,Utf8.encode (line ++ ['\n']))
  | none => .error .value

/-! ### Processes that come and go -/

/-- The file, the sequence number of the log that is open, the events that emits have returned,
and with them those whose lines a crash let through. -/
structure System (φ : Type) where
  file : Option Bytes := none
  seq : Option ℤ := none
  returned : List (RunEvent φ) := []
  stored : List (RunEvent φ) := []

inductive Action (φ : Type)
  | reopen
  | emit (call : Call φ)
  /-- The process dies when so many bytes of the append are written. -/
  | crash (call : Call φ) (written : ℕ)
  | stop

def step (s : System φ) : Action φ → Option (System φ)
  | .reopen => some (match openLog env s.file with
    | .ok (file,seq) => {s with file := file, seq := some seq}
    | .error _ => {s with file := s.file.map repairTornTail, seq := none})
  | .emit call => s.seq.map (fun seq => match prepare env seq call with
    | .ok (event,bytes) =>
      {file := some (s.file.getD [] ++ bytes), seq := some event.seq, returned := s.returned ++ [event], stored := s.stored ++ [event]}
    | .error _ => s)
  | .crash call written => s.seq.map (fun seq => match prepare env seq call with
    | .ok (event,bytes) =>
      -- the event is in the log when its whole line is written, although no emit has returned
      let stored := if bytes.length ≤ written then s.stored ++ [event] else s.stored
      {s with file := some (s.file.getD [] ++ bytes.take written), seq := none, stored := stored}
    | .error _ => {s with seq := none})
  | .stop => some {s with seq := none}

def Short (s : System φ) : Action φ → Prop
  | .crash call written => ∀ seq event bytes, s.seq = some seq → prepare env seq call = .ok (event,bytes) → written < bytes.length
  | _ => True

end

/-! ### Reading what was written -/

section
variable {env : Env φ} {events : List (RunEvent φ)}

def lineText (F : FloatText φ) (e : RunEvent φ) : List Char := (e.line F).getD []

def logBytes (F : FloatText φ) (events : List (RunEvent φ)) : Bytes := Utf8.encode (ended (events.map (lineText F)))

def Ascending (events : List (RunEvent φ)) : Prop := (0 :: events.map RunEvent.seq).IsChain (· < ·)

structure Writes (env : Env φ) (e : RunEvent φ) : Prop where
  clean : Clean env.float (.obj e.data)
  line : (e.line env.float).isSome

theorem Writes.fromLine {e : RunEvent φ} (h : Writes env e) : fromLine env (lineText env.float e) = .ok
    e.settled ∧ (∀ c ∈ lineText env.float e, Printable c) ∧ (lineText env.float e).all Path.isSpace = false
    := by
  obtain ⟨text,htext⟩ := Option.isSome_iff_exists.mp h.line
  obtain ⟨hread,hprintable,hhead⟩ := RunEvent.fromLine_line h.clean htext
  rw [lineText,htext,Option.getD_some]
  refine ⟨hread,hprintable,?_⟩
  cases text with
  | nil => cases hhead
  | cons c text =>
    cases hhead
    rfl

theorem lineBreak_of_printable {c : Char} (h : Printable c) : lineBreak c = false := by
  obtain ⟨hlow,hhigh⟩ := h
  simp only [lineBreak,Bool.or_eq_false_iff,Bool.and_eq_false_iff,decide_eq_false_iff_not,beq_eq_false_iff_ne]
  omega

theorem readText_logBytes (h : ∀ e ∈ events, Writes env e) :
    readText (logBytes env.float events) = some (ended (events.map (lineText env.float))) := by
  refine readText_encode fun c hc => ?_
  obtain ⟨line,hline,hc⟩ := List.mem_flatMap.mp hc
  obtain ⟨e,he,rfl⟩ := List.mem_map.mp hline
  rcases List.mem_append.mp hc with hc | hc
  · rintro rfl
    exact absurd ((h e he).fromLine.2.1 _ hc) (by decide)
  · rw [List.mem_singleton.mp hc]
    decide

theorem splitlines_logText (h : ∀ e ∈ events, Writes env e) :
    splitlines (ended (events.map (lineText env.float))) = events.map (lineText env.float) := by
  refine splitlines_ended fun line hline c hc => ?_
  obtain ⟨e,he,rfl⟩ := List.mem_map.mp hline
  exact lineBreak_of_printable ((h e he).fromLine.2.1 c hc)

theorem readLines_written (h : ∀ e ∈ events, Writes env e) {last : ℤ} (hseq : (last :: events.map RunEvent.seq).IsChain (· < ·))
    (number : ℕ) : readLines env number last (events.map (lineText env.float)) = .ok (events.map RunEvent.settled) := by
  induction events generalizing last number with
  | nil => rfl
  | cons e events ih =>
    obtain ⟨he,hevents⟩ := List.forall_mem_cons.mp h
    obtain ⟨hlt,hchain⟩ := List.isChain_cons_cons.mp hseq
    obtain ⟨hread,-,hblank⟩ := he.fromLine
    rw [List.map_cons,readLines,if_neg (ne_true_of_eq_false hblank),hread]
    simp only [show e.settled.seq = e.seq from rfl,if_neg (not_le.mpr hlt),ih hevents hchain]
    rfl

theorem read_logBytes (h : ∀ e ∈ events, Writes env e) (hseq : Ascending events) :
    read env (some (logBytes env.float events)) = .ok (events.map RunEvent.settled) := by
  rw [read,readText_logBytes h]
  simp only [splitlines_logText h,readLines_written h hseq]

theorem lastSeq_settled (events : List (RunEvent φ)) : lastSeq (events.map RunEvent.settled) = lastSeq events := by
  rw [lastSeq,List.getLast?_map,Option.map_map]
  rfl

end

end Verdict.EventLog

import Verdict.EventLog.Log
import Verdict.Evidence.Directory

/-! # Verification on the bytes of a run directory

To rebuild the receipt, `verify_run_receipt` opens the event log, and opening a log cuts an
unfinished last line off its file. What JSON and UTF-8 decoding make of the bytes is left open.
-/
namespace Verdict.Evidence
open Json EventLog

structure Disk where
  name : String
  events : Option Bytes := none
  graph : Option Bytes := none
  review : Option Bytes := none
  receipt : Option Bytes := none

structure Decoder where
  sha256 : Bytes → String
  lines : Bytes → Except Raised (List Line)
  graph : Bytes → Except Raised GraphFile
  object : Bytes → Except Raised Fields

section
variable (env : Env) (dec : Decoder)

def Decoder.log (raw : Bytes) : Except Raised (List Line) := if raw = [] then .ok [] else dec.lines raw

def Disk.view (d : Disk) (lines : List Line) (torn : Bool) : RunDir where
  name := d.name
  events := some ⟨lines,torn⟩
  graph := d.graph.map dec.graph
  review := d.review.map dec.object
  receipt := d.receipt.map dec.object

/-- `build_run_receipt`, and the files behind it. -/
def buildOnDisk (d : Disk) : Except Raised Fields × Disk := match d.events with
  | none => (.error (.orchestration "missing events.jsonl"),d)
  | some raw =>
    let repaired := repairTornTail raw
    let receipt := do
      let lines ← dec.log repaired
      buildRunReceipt env (fun _ => dec.sha256 repaired) (d.view dec lines false)
    (receipt,{d with events := some repaired})

/-- The problems of a stored receipt, given what the log held when its digest was taken and what the
receipt is rebuilt to. -/
def report (stored : Fields) (raw : Bytes) (built : Except Raised Fields) : Except Raised (List String) :=
  let schema := if get stored "schema" ≠ .str receiptSchema then
    ["unexpected schema " ++ env.repr (get stored "schema")] else []
  let digest := if get stored "events_digest" ≠ .str (dec.sha256 raw) then
    ["events_digest mismatch: events.jsonl changed after receipt was written"] else []
  match built with
  | .error (.orchestration message) => .ok (schema ++ digest ++ ["cannot rebuild receipt: " ++ message])
  | .error e => .error e
  | .ok fresh => .ok (schema ++ digest ++ mismatches fresh stored)

/-- `verify_run_receipt`, and the files behind it. -/
def verifyOnDisk (d : Disk) : Except Raised (List String) × Disk := match d.receipt.map dec.object with
  | none => (.ok ["missing receipt.json"],d)
  | some (.error (.orchestration message)) => (.ok [message],d)
  | some (.error e) => (.error e,d)
  | some (.ok stored) => match d.events with
    | none =>
      let schema := if get stored "schema" ≠ .str receiptSchema then
        ["unexpected schema " ++ env.repr (get stored "schema")] else []
      (.ok (schema ++ ["missing events.jsonl"]),d)
    | some raw =>
      -- the digest is taken first, the log is opened and repaired for the rebuild
      let (built,d) := buildOnDisk env dec d
      (report env dec stored raw built,d)

structure Opens (d : Disk) (raw : Bytes) (stored : Fields) : Prop where
  receipt : d.receipt.map dec.object = some (.ok stored)
  events : d.events = some raw

end

section
variable {env : Env} {dec : Decoder} {d : Disk} {raw : Bytes} {stored : Fields}

theorem verifyOnDisk_disk (env : Env) (dec : Decoder) (d : Disk) :
    ((∀ raw stored, ¬ Opens dec d raw stored) ∧ (verifyOnDisk env dec d).2 = d) ∨ ∃ raw stored, Opens dec d
    raw stored ∧ (verifyOnDisk env dec d).2 = {d with events := some (repairTornTail raw)} := by
  unfold verifyOnDisk
  split
  · rename_i hnone
    exact .inl ⟨fun raw stored h => (nomatch hnone.symm.trans h.receipt),rfl⟩
  · rename_i message herror
    exact .inl ⟨fun raw stored h => (nomatch herror.symm.trans h.receipt),rfl⟩
  · rename_i e _ herror
    exact .inl ⟨fun raw stored h => (nomatch herror.symm.trans h.receipt),rfl⟩
  · rename_i stored hstored
    cases hevents : d.events with
    | none => exact .inl ⟨fun raw stored h => (nomatch hevents.symm.trans h.events),rfl⟩
    | some raw =>
      refine .inr ⟨raw,stored,⟨hstored,hevents⟩,?_⟩
      simp only [buildOnDisk,hevents]

theorem verifyOnDisk_opens (env : Env) (h : Opens dec d raw stored) : verifyOnDisk env dec d =
    (report env dec stored raw (buildOnDisk env dec d).1,{d with events := some (repairTornTail raw)}) := by
  simp only [verifyOnDisk,h.receipt,h.events,buildOnDisk]

theorem buildOnDisk_repaired (env : Env) (dec : Decoder) (h : d.events = some raw) :
    (buildOnDisk env dec {d with events := some (repairTornTail raw)}).1 = (buildOnDisk env dec d).1 := by
  simp only [buildOnDisk,h,repairTornTail_idempotent]
  rfl

theorem Opens.repaired (h : Opens dec d raw stored) :
    Opens dec {d with events := some (repairTornTail raw)} (repairTornTail raw) stored := ⟨h.receipt,rfl⟩

theorem Opens.unique {other : Bytes} {fields : Fields} (h : Opens dec d raw stored) (h' : Opens dec d other fields) :
    other = raw ∧ fields = stored := by
  obtain ⟨hreceipt,hevents⟩ := h'
  cases h.events.symm.trans hevents
  cases h.receipt.symm.trans hreceipt
  exact ⟨rfl,rfl⟩

theorem report_eq_iff {other : Bytes} {built : Except Raised Fields} : report env dec stored raw built = report env dec stored other built
    ↔ (∃ what, built = .error (.other what))
      ∨ (get stored "events_digest" = .str (dec.sha256 raw) ↔ get stored "events_digest" = .str (dec.sha256 other)) := by
  cases built with
  | error e =>
    cases e with
    | other what => exact iff_of_true rfl (.inl ⟨what,rfl⟩)
    | orchestration message =>
      by_cases hraw : get stored "events_digest" = .str (dec.sha256 raw) <;>
        by_cases hother : get stored "events_digest" = .str (dec.sha256 other) <;>
        simp [report,hraw,hother]
  | ok fresh =>
    by_cases hraw : get stored "events_digest" = .str (dec.sha256 raw) <;>
      by_cases hother : get stored "events_digest" = .str (dec.sha256 other) <;>
      simp [report,hraw,hother]

theorem verifyOnDisk_unchanged_iff (env : Env) (dec : Decoder) (d : Disk) :
    (verifyOnDisk env dec d).2 = d ↔ ∀ raw stored, Opens dec d raw stored → ¬ TornTail raw := by
  rcases verifyOnDisk_disk env dec d with ⟨hclosed,hsame⟩ | ⟨raw,stored,hopens,hrepaired⟩
  · exact iff_of_true hsame fun raw stored h => absurd h (hclosed raw stored)
  · rw [hrepaired]
    constructor
    · intro hsame other fields h
      obtain ⟨rfl,rfl⟩ := hopens.unique h
      have hevents : some (repairTornTail other) = d.events := congrArg Disk.events hsame
      exact repairTornTail_eq_self_iff.mp (Option.some.inj (hevents.trans hopens.events))
    · intro hwhole
      rw [repairTornTail_eq_self_iff.mpr (hwhole raw stored hopens),← hopens.events]

/-- A second verification changes nothing more, and what it reports differs from the first report
exactly when the first one repairs a log whose digest the repair changes for the receipt. -/
theorem verifyOnDisk_again (env : Env) (dec : Decoder) (d : Disk) :
    (verifyOnDisk env dec (verifyOnDisk env dec d).2).2 = (verifyOnDisk env dec d).2
      ∧ ((verifyOnDisk env dec (verifyOnDisk env dec d).2).1 = (verifyOnDisk env dec d).1
        ↔ ∀ raw stored, Opens dec d raw stored → (∃ what, (buildOnDisk env dec d).1 = .error (.other what))
          ∨ (get stored "events_digest" = .str (dec.sha256 (repairTornTail raw))
            ↔ get stored "events_digest" = .str (dec.sha256 raw))) := by
  rcases verifyOnDisk_disk env dec d with ⟨hclosed,hsame⟩ | ⟨raw,stored,hopens,-⟩
  · rw [hsame]
    exact ⟨hsame,iff_of_true rfl fun raw stored h => absurd h (hclosed raw stored)⟩
  · rw [verifyOnDisk_opens env hopens,verifyOnDisk_opens env hopens.repaired,buildOnDisk_repaired env dec hopens.events]
    refine ⟨by simp only [repairTornTail_idempotent],report_eq_iff.trans ⟨fun h other fields hother => ?_,fun h => h raw stored hopens⟩⟩
    obtain ⟨rfl,rfl⟩ := hopens.unique hother
    exact h

/-- Verifying changes no file and reports the same again exactly when it does not open a log that
ends in the middle of a line. Only the log is ever changed, a second verification changes nothing
more, and its report is the first one unless the repair settles what the digest says. -/
theorem verification_keeps_evidence_iff (env : Env) (dec : Decoder) (d : Disk) :
    ((verifyOnDisk env dec d).2 = d ∧ (verifyOnDisk env dec (verifyOnDisk env dec d).2).1 = (verifyOnDisk env dec d).1
        ↔ ∀ raw stored, Opens dec d raw stored → ¬ TornTail raw)
      ∧ {(verifyOnDisk env dec d).2 with events := d.events} = d
      ∧ (verifyOnDisk env dec (verifyOnDisk env dec d).2).2 = (verifyOnDisk env dec d).2
      ∧ ((verifyOnDisk env dec (verifyOnDisk env dec d).2).1 = (verifyOnDisk env dec d).1
        ↔ ∀ raw stored, Opens dec d raw stored → (∃ what, (buildOnDisk env dec d).1 = .error (.other what))
          ∨ (get stored "events_digest" = .str (dec.sha256 (repairTornTail raw))
            ↔ get stored "events_digest" = .str (dec.sha256 raw))) := by
  refine ⟨⟨fun h => (verifyOnDisk_unchanged_iff env dec d).mp h.1,fun hwhole => ?_⟩,?_,verifyOnDisk_again env dec d⟩
  · have hsame := (verifyOnDisk_unchanged_iff env dec d).mpr hwhole
    rw [hsame]
    exact ⟨rfl,rfl⟩
  · rcases verifyOnDisk_disk env dec d with ⟨-,hsame⟩ | ⟨raw,stored,-,hrepaired⟩
    · rw [hsame]
    · rw [hrepaired]

end

def ascii (text : String) : Bytes := text.toList.map fun c => UInt8.ofNat c.toNat

def blockedLog : Bytes :=
  ascii "\x7b\"at\":\"t1\",\"data\":\x7b\x7d,\"node_id\":\"\",\"seq\":1,\"type\":\"run_started\"\x7d\n"
    ++ ascii "\x7b\"at\":\"t2\",\"data\":\x7b\"outcome\":\"BLOCKED\"\x7d,\"node_id\":\"\",\"seq\":2,\"type\":\"run_finished\"\x7d"
    ++ [newline]

def blockedLines : List Line :=
  [.event ⟨1,"t1",.runStarted,"",[]⟩,.event ⟨2,"t2",.runFinished,"",[("outcome",.str "BLOCKED")]⟩]

def lengthOf (raw : Bytes) : String := "sha256:" ++ toString raw.length

/-- The receipt as it is read back behind `write_run_receipt`. -/
def blockedReceipt : Fields := match buildRunReceipt plainEnv (fun _ => lengthOf blockedLog) {name := "r1", events := some ⟨blockedLines,false⟩} with
  | .ok receipt => canonFields receipt
  | .error _ => []

def blockedDecoder : Decoder where
  sha256 := lengthOf
  lines raw := if raw = blockedLog then .ok blockedLines else .error (.orchestration "corrupt event")
  graph _ := .ok {}
  object _ := .ok blockedReceipt

def extendedDisk : Disk := {name := "r1", events := some (blockedLog ++ ascii "x"), receipt := some (ascii "receipt")}

/-- The first verification reports the addition and removes it from the log; the second one finds
no problem. -/
theorem addition_reported_once :
    (verifyOnDisk plainEnv blockedDecoder extendedDisk).1
        = .ok ["events_digest mismatch: events.jsonl changed after receipt was written"]
      ∧ (verifyOnDisk plainEnv blockedDecoder extendedDisk).2.events = some blockedLog
      ∧ (verifyOnDisk plainEnv blockedDecoder (verifyOnDisk plainEnv blockedDecoder extendedDisk).2).1 = .ok []
      ∧ (verifyOnDisk plainEnv blockedDecoder extendedDisk).2 ≠ extendedDisk := by
  have hopens : Opens blockedDecoder extendedDisk (blockedLog ++ ascii "x") blockedReceipt := ⟨rfl,rfl⟩
  have hrepaired : repairTornTail (blockedLog ++ ascii "x") = blockedLog := repairTornTail_append _ (by decide +kernel)
  have hagain := hopens.repaired
  have hbuilt := buildOnDisk_repaired plainEnv blockedDecoder hopens.events
  rw [hrepaired] at hagain hbuilt
  obtain ⟨hfirst,hsecond⟩ : report plainEnv blockedDecoder blockedReceipt (blockedLog ++ ascii "x")
        (buildOnDisk plainEnv blockedDecoder extendedDisk).1
        = .ok ["events_digest mismatch: events.jsonl changed after receipt was written"]
      ∧ report plainEnv blockedDecoder blockedReceipt blockedLog (buildOnDisk plainEnv blockedDecoder extendedDisk).1 = .ok [] := by
    decide +kernel
  rw [verifyOnDisk_opens plainEnv hopens,hrepaired,verifyOnDisk_opens plainEnv hagain,hbuilt]
  have hlonger : some blockedLog ≠ extendedDisk.events := by simp [extendedDisk,ascii]
  exact ⟨hfirst,rfl,hsecond,fun h => hlonger (congrArg Disk.events h)⟩

end Verdict.Evidence

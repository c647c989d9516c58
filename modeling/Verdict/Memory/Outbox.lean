import Mathlib.Data.List.Sort
import Verdict.Memory.Sanitize

/-! # The outbox

`MemoryOutbox`: a table with one row for each idempotency key. An event is enqueued at most
once; workers copy the rows that are due and mark them later, each mark only while the row is
still pending. A call that raises rolls its transaction back.
-/
namespace Verdict.Memory
open Raising

inductive OutboxState
  | pending | acked | deadLetter
  deriving DecidableEq

structure Row where
  idempotencyKey : String
  eventJson : Fields
  state : OutboxState
  attempts : ℕ
  (nextAttemptAt createdAt updatedAt : ℚ)
  errorCode : Option String := none
  safeError : Option String := none
  externalId : Option String := none

structure Table where
  rows : List Row := []
  keys : (rows.map Row.idempotencyKey).Nodup := by exact List.nodup_nil

/-- What `_from_row` gives to a worker. -/
structure OutboxEvent (sha : Sha) where
  idempotencyKey : String
  event : LifecycleEvent sha
  attempts : ℕ

inductive EnqueueError
  | event (e : EventError)
  | conflict (sourceEventId existing new : String)
  | queueFull

namespace Table

def find (t : Table) (key : String) : Option Row := t.rows.find? fun row => row.idempotencyKey = key

def pending (t : Table) : ℕ := t.rows.countP fun row => row.state = .pending

theorem find_none {t : Table} {key : String} (h : t.find key = none) : key ∉ t.rows.map Row.idempotencyKey := by
  intro hmem
  obtain ⟨row,hrow,rfl⟩ := List.mem_map.mp hmem
  exact List.find?_eq_none.mp h row hrow (decide_eq_true rfl)

def insert (t : Table) (row : Row) (hnew : row.idempotencyKey ∉ t.rows.map Row.idempotencyKey) : Table where
  rows := t.rows ++ [row]
  keys := by
    rw [List.map_append]
    refine List.nodup_append.mpr ⟨t.keys,List.nodup_singleton _,fun a ha b hb => ?_⟩
    rw [List.mem_singleton.mp hb]
    exact fun h => hnew (h ▸ ha)

/-- `UPDATE ... WHERE idempotency_key=? AND state='pending'`. -/
def update (t : Table) (key : String) (change : Row → Row) (hkey : ∀ row, (change row).idempotencyKey = row.idempotencyKey) : Table where
  rows := t.rows.map fun row => if row.idempotencyKey = key ∧ row.state = .pending then change row else row
  keys := by
    have hsame : (fun row => (if row.idempotencyKey = key ∧ row.state = .pending then change row else row).idempotencyKey) =
        Row.idempotencyKey := by
      funext row
      split
      · exact hkey row
      · rfl
    rw [List.map_map]
    show (t.rows.map fun row => (if row.idempotencyKey = key ∧ row.state = .pending then change row else row).idempotencyKey).Nodup
    rw [hsame]
    exact t.keys

end Table

/-! ### Enqueueing -/

section
variable (sha : Sha)

/-- The arguments of an `enqueue` call: the policy and the bound of the instance, the clock, the event. -/
structure Call where
  policy : LifecycleEvent sha → Except EventError Bool
  maxPending : ℤ
  now : ℚ
  event : LifecycleEvent sha

def newRow (now : ℚ) (e : LifecycleEvent sha) : Row where
  idempotencyKey := e.idempotencyKey
  eventJson := Json.canonFields e.toDict
  state := .pending
  attempts := 0
  nextAttemptAt := now
  createdAt := now
  updatedAt := now

def rowFingerprint (row : Row) : Except EventError String := fromDict sha row.eventJson >>= fun e => e.contentFingerprint sha

/-- The transaction of `enqueue`, for a sanitised event and its fingerprint. -/
def insertOnce (c : Call sha) (e : LifecycleEvent sha) (fingerprint : String) (t : Table) : Except EnqueueError (Option Row × Table) :=
  match hfind : t.find e.idempotencyKey with
  | some row => match rowFingerprint sha row with
    | .error fault => .error (.event fault)
    | .ok existing =>
      if existing ≠ fingerprint then
        .error (.conflict ((e.identity.sourceEventId.filter (· ≠ "")).getD e.idempotencyKey) existing fingerprint)
      else .ok (some row,t)
  | none =>
    if c.maxPending ≤ t.pending then .error .queueFull
    else .ok (some (newRow sha c.now e),t.insert (newRow sha c.now e) (Table.find_none hfind))

def prepared (c : Call sha) : Except EventError (Option (LifecycleEvent sha × String)) := do
  let eligible ← c.policy c.event
  if eligible = false then return none
  let event ← sanitizeEvent sha c.event
  let fingerprint ← event.contentFingerprint sha
  return some (event,fingerprint)

def enqueue (c : Call sha) (t : Table) : Except EnqueueError (Option Row × Table) := match prepared sha c with
  | .error fault => .error (.event fault)
  | .ok none => .ok (none,t)
  | .ok (some (event,fingerprint)) => insertOnce sha c event fingerprint t

/-! ### Delivering -/

def fromRow (row : Row) : Except EventError (OutboxEvent sha) :=
  (fromDict sha row.eventJson).map fun event => ⟨row.idempotencyKey,event,row.attempts⟩

def earlier (a b : Row) : Prop := a.createdAt < b.createdAt ∨ (a.createdAt = b.createdAt ∧ a.idempotencyKey ≤ b.idempotencyKey)

instance : DecidableRel earlier := fun a b => inferInstanceAs (Decidable (_ ∨ _))

/-- The rows that `due` selects. -/
def dueRows (t : Table) (limit : ℕ) (now : ℚ) : List Row :=
  ((t.rows.filter fun row => decide (row.state = .pending ∧ row.nextAttemptAt ≤ now)).insertionSort earlier).take limit

def due (t : Table) (limit : ℕ) (now : ℚ) : Except EventError (List (OutboxEvent sha)) := (dueRows t limit now).mapM (fromRow sha)

end

variable (t : Table)

def markAcked (key externalId : String) (now : ℚ) : Table :=
  t.update key (fun row => {row with
    state := .acked, attempts := row.attempts + 1, updatedAt := now, errorCode := none, safeError := none
    externalId := some externalId}) fun _ => rfl

def markRetry (key errorCode safeError : String) (delaySeconds now : ℚ) : Table :=
  t.update key (fun row => {row with
    attempts := row.attempts + 1, nextAttemptAt := now + max 0 delaySeconds, updatedAt := now
    errorCode := some errorCode, safeError := some (redactSecrets safeError)}) fun _ => rfl

def markDeadLetter (key errorCode safeError : String) (now : ℚ) : Table :=
  t.update key (fun row => {row with
    state := .deadLetter, attempts := row.attempts + 1, updatedAt := now, errorCode := some errorCode
    safeError := some (redactSecrets safeError)}) fun _ => rfl

end Verdict.Memory

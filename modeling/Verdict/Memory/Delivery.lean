import Mathlib.Tactic.Linarith
import Verdict.Memory.Outbox

/-! # Delivering from the outbox

`MemoryMirrorWorker`s drain one outbox. Each works on copies of rows, without leases: it puts a
copy's event to the provider, and then marks the row by one statement, whatever the others
have done meanwhile. A row settles at most once, and as the outcome of a put of its event.
-/
namespace Verdict.Memory
open Raising

inductive ProviderErrorCode
  | notConfigured | authFailed | unreachable | timeout | rateLimited | schemaIncompatible | protocolIncompatible
  | invalidRequest | serverError | degraded | queueFull | malformed | conflict | unknown
  deriving DecidableEq

def ProviderErrorCode.value : ProviderErrorCode → String
  | .notConfigured => "not_configured"
  | .authFailed => "auth_failed"
  | .unreachable => "unreachable"
  | .timeout => "timeout"
  | .rateLimited => "rate_limited"
  | .schemaIncompatible => "schema_incompatible"
  | .protocolIncompatible => "protocol_incompatible"
  | .invalidRequest => "invalid_request"
  | .serverError => "server_error"
  | .degraded => "degraded"
  | .queueFull => "queue_full"
  | .malformed => "malformed"
  | .conflict => "conflict"
  | .unknown => "unknown"

def deadLetterCodes : List ProviderErrorCode :=
  [.authFailed,.schemaIncompatible,.protocolIncompatible,.invalidRequest,.notConfigured,.conflict]

structure Backoff where
  (baseDelaySeconds maxDelaySeconds : ℚ)
  positive : 0 < baseDelaySeconds
  bounded : baseDelaySeconds ≤ maxDelaySeconds

/-- The delay that `_fail` asks for, by the attempts of the copy. -/
def Backoff.delay (b : Backoff) (attempts : ℕ) : ℚ := min b.maxDelaySeconds (b.baseDelaySeconds * 2 ^ min attempts 32)

theorem Backoff.delay_le (b : Backoff) (attempts : ℕ) : max 0 (b.delay attempts) ≤ b.maxDelaySeconds :=
  max_le (b.positive.le.trans b.bounded) (min_le_left _ _)

/-- Where a worker is: in a batch with copies still to process, before or after a put of one of them. -/
inductive Phase (sha : Sha)
  | idle
  | draining (todo : List (OutboxEvent sha))
  | putting (event : OutboxEvent sha) (todo : List (OutboxEvent sha))
  | returned (event : OutboxEvent sha) (externalId : String) (todo : List (OutboxEvent sha))
  | failed (event : OutboxEvent sha) (code : ProviderErrorCode) (message : String) (todo : List (OutboxEvent sha))

structure PutRecord (sha : Sha) where
  event : LifecycleEvent sha
  code : Option ProviderErrorCode

/-- A failure that a worker has recorded: the row's key, the worker's bound, and the clock as the record was made. -/
structure FailureRecord where
  key : String
  (maxDelaySeconds time : ℚ)

structure Mirror (sha : Sha) where
  table : Table
  phase : ℕ → Phase sha
  puts : List (PutRecord sha) := []
  failures : List FailureRecord := []

section
variable (sha : Sha) (backoff : ℕ → Backoff)

/-- What worker `w` does after a put of the copy failed: one statement on the table. -/
def fail (w : ℕ) (t : Table) (event : OutboxEvent sha) (code : ProviderErrorCode) (message : String) (now : ℚ) : Table :=
  if code ∈ deadLetterCodes then markDeadLetter t event.idempotencyKey code.value message now
  else markRetry t event.idempotencyKey code.value message ((backoff w).delay event.attempts) now

/-- One step: an enqueue by any instance, or a step of worker `w`, with the clock as it reads it. A
worker may stop at any point; an unexpected exception of the provider fails as unknown. -/
inductive MirrorStep : Mirror sha → Mirror sha → Prop
  | enqueue {s : Mirror sha} {c : Call sha} {row : Option Row} {t : Table} :
    enqueue sha c s.table = .ok (row,t) → MirrorStep s {s with table := t}
  | poll {s : Mirror sha} (w limit : ℕ) (now : ℚ) {todo : List (OutboxEvent sha)} : s.phase w = .idle →
    due sha s.table limit now = .ok todo → MirrorStep s {s with phase := Function.update s.phase w (.draining todo)}
  | put {s : Mirror sha} (w : ℕ) {event : OutboxEvent sha} {todo : List (OutboxEvent sha)} :
    s.phase w = .draining (event :: todo) → MirrorStep s {s with phase := Function.update s.phase w (.putting event todo)}
  | returns {s : Mirror sha} (w : ℕ) {event : OutboxEvent sha} {todo : List (OutboxEvent sha)} (externalId : String) :
    s.phase w = .putting event todo → MirrorStep s {s with
      phase := Function.update s.phase w (.returned event externalId todo)
      puts := s.puts ++ [⟨event.event,none⟩] }
  | fails {s : Mirror sha} (w : ℕ) {event : OutboxEvent sha} {todo : List (OutboxEvent sha)} (code : ProviderErrorCode)
    (message : String) : s.phase w = .putting event todo → MirrorStep s {s with
      phase := Function.update s.phase w (.failed event code message todo)
      puts := s.puts ++ [⟨event.event,some code⟩] }
  | acknowledge {s : Mirror sha} (w : ℕ) (now : ℚ) {event : OutboxEvent sha} {externalId : String}
    {todo : List (OutboxEvent sha)} : s.phase w = .returned event externalId todo → MirrorStep s {s with
      phase := Function.update s.phase w (.draining todo)
      table := markAcked s.table event.idempotencyKey externalId now }
  | record {s : Mirror sha} (w : ℕ) (now : ℚ) {event : OutboxEvent sha} {code : ProviderErrorCode} {message : String}
    {todo : List (OutboxEvent sha)} : s.phase w = .failed event code message todo → MirrorStep s {s with
      phase := Function.update s.phase w (.draining todo)
      table := fail sha backoff w s.table event code message now
      failures := s.failures ++ [⟨event.idempotencyKey,(backoff w).maxDelaySeconds,now⟩] }
  | finish {s : Mirror sha} (w : ℕ) : MirrorStep s {s with phase := Function.update s.phase w .idle}

end

/-! ### What holds of a row -/

section
variable {sha : Sha} {backoff : ℕ → Backoff}
variable (failures : List FailureRecord)

def lastFailure (key : String) : Option FailureRecord :=
  (failures.filter fun f => f.key = key).getLast?

/-- A row is acknowledged or a dead letter by a put of its event, and a pending one is due at most the
bound of the worker after the last failure. -/
structure RowSound (s : Mirror sha) (row : Row) : Prop where
  acked : row.state = .acked → ∃ event, fromDict sha row.eventJson = .ok event ∧ ⟨event,none⟩ ∈ s.puts
  dead : row.state = .deadLetter →
    ∃ event code, fromDict sha row.eventJson = .ok event ∧ code ∈ deadLetterCodes ∧ ⟨event,some code⟩ ∈ s.puts
  due : row.state = .pending → match lastFailure s.failures row.idempotencyKey with
    | none => row.nextAttemptAt = row.createdAt
    | some f => row.nextAttemptAt ≤ f.time + f.maxDelaySeconds

variable (t : Table)

def CopyOf (event : OutboxEvent sha) : Prop :=
  ∃ row ∈ t.rows, row.idempotencyKey = event.idempotencyKey ∧ fromDict sha row.eventJson = .ok event.event

def PhaseSound (s : Mirror sha) : Phase sha → Prop
  | .idle => True
  | .draining todo => ∀ copy ∈ todo, CopyOf s.table copy
  | .putting event todo => ∀ copy ∈ event :: todo, CopyOf s.table copy
  | .returned event _ todo => (∀ copy ∈ event :: todo, CopyOf s.table copy) ∧ ⟨event.event,none⟩ ∈ s.puts
  | .failed event code _ todo => (∀ copy ∈ event :: todo, CopyOf s.table copy) ∧ ⟨event.event,some code⟩ ∈ s.puts

structure MirrorSound (s : Mirror sha) : Prop where
  rows : ∀ row ∈ s.table.rows, RowSound s row
  phases : ∀ w, PhaseSound s (s.phase w)
  known : ∀ f ∈ s.failures, ∃ row ∈ s.table.rows, row.idempotencyKey = f.key

structure RowKept (before after : Row) : Prop where
  key : after.idempotencyKey = before.idempotencyKey
  eventJson : after.eventJson = before.eventJson
  createdAt : after.createdAt = before.createdAt
  settled : before.state ≠ .pending → after.state = before.state

def TableKept (t t' : Table) : Prop := ∀ row ∈ t.rows, ∃ row' ∈ t'.rows, RowKept row row'

/-! ### Statements on the table -/

theorem RowKept.refl (row : Row) : RowKept row row := ⟨rfl,rfl,rfl,fun _ => rfl⟩

theorem TableKept.refl (t : Table) : TableKept t t := fun row hrow => ⟨row,hrow,.refl row⟩

theorem TableKept.trans {t u v : Table} (h : TableKept t u) (h' : TableKept u v) : TableKept t v := by
  intro row hrow
  obtain ⟨row',hrow',hkept⟩ := h row hrow
  obtain ⟨row'',hrow'',hkept'⟩ := h' row' hrow'
  refine ⟨row'',hrow'',hkept'.key.trans hkept.key,hkept'.eventJson.trans hkept.eventJson,
    hkept'.createdAt.trans hkept.createdAt,fun hsettled => ?_⟩
  have hstate := hkept.settled hsettled
  exact (hkept'.settled (hstate ▸ hsettled)).trans hstate

theorem mem_update {t : Table} {key : String} {change : Row → Row} {row' : Row}
    (h : row' ∈ t.rows.map fun row => if row.idempotencyKey = key ∧ row.state = .pending then change row else row) :
    (row' ∈ t.rows ∧ ¬(row'.idempotencyKey = key ∧ row'.state = .pending)) ∨
      ∃ row ∈ t.rows, row.idempotencyKey = key ∧ row.state = .pending ∧ row' = change row := by
  obtain ⟨row,hrow,rfl⟩ := List.mem_map.mp h
  by_cases hpending : row.idempotencyKey = key ∧ row.state = .pending
  · rw [if_pos hpending]
    exact .inr ⟨row,hrow,hpending.1,hpending.2,rfl⟩
  · rw [if_neg hpending]
    exact .inl ⟨hrow,hpending⟩

theorem update_kept (key : String) {change : Row → Row} (hkey : ∀ row, (change row).idempotencyKey = row.idempotencyKey)
    (hjson : ∀ row, (change row).eventJson = row.eventJson) (hcreated : ∀ row, (change row).createdAt = row.createdAt) :
    TableKept t (t.update key change hkey) := by
  intro row hrow
  refine ⟨_,List.mem_map_of_mem hrow,?_⟩
  split
  · rename_i hpending
    exact ⟨hkey row,hjson row,hcreated row,fun hsettled => absurd hpending.2 hsettled⟩
  · exact .refl row

theorem insert_kept (row : Row) (hnew : row.idempotencyKey ∉ t.rows.map Row.idempotencyKey) :
    TableKept t (t.insert row hnew) := fun row hrow => ⟨row,List.mem_append_left _ hrow,.refl row⟩

theorem fail_kept (w : ℕ) (t : Table) (event : OutboxEvent sha) (code : ProviderErrorCode) (message : String) (now : ℚ) :
    TableKept t (fail sha backoff w t event code message now) := by
  rw [fail]
  split
  · exact update_kept t event.idempotencyKey _ (by exact fun _ => rfl) (by exact fun _ => rfl)
  · exact update_kept t event.idempotencyKey _ (by exact fun _ => rfl) (by exact fun _ => rfl)

theorem enqueue_table {c : Call sha} {t t' : Table} {row : Option Row} (h : enqueue sha c t = .ok (row,t')) :
    t' = t ∨ ∃ e hnew, t' = t.insert (newRow sha c.now e) hnew := by
  rw [enqueue] at h
  split at h
  · cases h
  · cases h
    exact .inl rfl
  · rw [insertOnce] at h
    split at h
    · split at h
      · cases h
      · split at h
        · cases h
        · cases h
          exact .inl rfl
    · split at h
      · cases h
      · cases h
        exact .inr ⟨_,_,rfl⟩

/-! ### One step -/

theorem CopyOf.kept {t t' : Table} {event : OutboxEvent sha} (h : CopyOf t event) (hkept : TableKept t t') : CopyOf t' event := by
  obtain ⟨row,hrow,hkey,hevent⟩ := h
  obtain ⟨row',hrow',hsame⟩ := hkept row hrow
  exact ⟨row',hrow',hsame.key.trans hkey,by rw [hsame.eventJson]; exact hevent⟩

theorem PhaseSound.later {s s' : Mirror sha} {p : Phase sha} (h : PhaseSound s p) (htable : TableKept s.table s'.table)
    (hputs : ∀ r ∈ s.puts, r ∈ s'.puts) : PhaseSound s' p := by
  cases p with
  | idle => trivial
  | draining todo => exact fun copy hcopy => (h copy hcopy).kept htable
  | putting event todo => exact fun copy hcopy => (h copy hcopy).kept htable
  | returned event externalId todo => exact ⟨fun copy hcopy => (h.1 copy hcopy).kept htable,hputs _ h.2⟩
  | failed event code message todo => exact ⟨fun copy hcopy => (h.1 copy hcopy).kept htable,hputs _ h.2⟩

theorem lastFailure_append (f : FailureRecord) (key : String) :
    lastFailure (failures ++ [f]) key = if f.key = key then some f else lastFailure failures key := by
  rw [lastFailure,List.filter_append]
  by_cases hkey : f.key = key
  · rw [if_pos hkey,List.filter_cons_of_pos (by rw [hkey]; exact decide_eq_true rfl),List.filter_nil,List.getLast?_concat]
  · rw [if_neg hkey,List.filter_cons_of_neg (by simpa using hkey),List.filter_nil,List.append_nil]
    rfl

theorem RowSound.later {s s' : Mirror sha} {row : Row} (h : RowSound s row) (hputs : ∀ r ∈ s.puts, r ∈ s'.puts)
    (hlast : row.state = .pending → lastFailure s'.failures row.idempotencyKey = lastFailure s.failures row.idempotencyKey) :
    RowSound s' row := by
  refine ⟨fun hacked => ?_,fun hdead => ?_,fun hpending => ?_⟩
  · obtain ⟨event,hevent,hput⟩ := h.acked hacked
    exact ⟨event,hevent,hputs _ hput⟩
  · obtain ⟨event,code,hevent,hcode,hput⟩ := h.dead hdead
    exact ⟨event,code,hevent,hcode,hputs _ hput⟩
  · rw [hlast hpending]
    exact h.due hpending

theorem phases_update {s s' : Mirror sha} {w : ℕ} {p : Phase sha} (h : ∀ v, PhaseSound s (s.phase v))
    (hphase : s'.phase = Function.update s.phase w p) (htable : TableKept s.table s'.table)
    (hputs : ∀ r ∈ s.puts, r ∈ s'.puts) (hp : PhaseSound s' p) : ∀ v, PhaseSound s' (s'.phase v) := by
  intro v
  rw [hphase]
  by_cases hv : v = w
  · rw [hv,Function.update_self]
    exact hp
  · rw [Function.update_of_ne hv]
    exact (h v).later htable hputs

theorem known_kept {failures : List FailureRecord} {t t' : Table}
    (h : ∀ f ∈ failures, ∃ row ∈ t.rows, row.idempotencyKey = f.key) (hkept : TableKept t t') :
    ∀ f ∈ failures, ∃ row ∈ t'.rows, row.idempotencyKey = f.key := by
  intro f hf
  obtain ⟨row,hrow,hkey⟩ := h f hf
  obtain ⟨row',hrow',hsame⟩ := hkept row hrow
  exact ⟨row',hrow',hsame.key.trans hkey⟩

theorem CopyOf.event {t : Table} {copy : OutboxEvent sha} (h : CopyOf t copy) {row : Row} (hrow : row ∈ t.rows)
    (hkey : row.idempotencyKey = copy.idempotencyKey) : fromDict sha row.eventJson = .ok copy.event := by
  obtain ⟨row',hrow',hkey',hevent⟩ := h
  rw [List.inj_on_of_nodup_map t.keys hrow hrow' (hkey.trans hkey'.symm)]
  exact hevent

theorem MirrorSound.enqueue {s : Mirror sha} (h : MirrorSound s) {c : Call sha} {row : Option Row} {t : Table}
    (henqueue : enqueue sha c s.table = .ok (row,t)) :
    MirrorSound {s with table := t} ∧ TableKept s.table t := by
  rcases enqueue_table henqueue with rfl | ⟨e,hnew,rfl⟩
  · exact ⟨⟨h.rows,h.phases,h.known⟩,.refl _⟩
  · have hkept := insert_kept s.table (newRow sha c.now e) hnew
    refine ⟨⟨fun row' hrow' => ?_,fun w => (h.phases w).later hkept fun _ => id,known_kept h.known hkept⟩,hkept⟩
    rcases List.mem_append.mp hrow' with hold | hlast
    · exact (h.rows row' hold).later (fun _ => id) fun _ => rfl
    · rw [List.mem_singleton.mp hlast]
      have hnone : lastFailure s.failures (newRow sha c.now e).idempotencyKey = none := by
        rw [lastFailure,List.getLast?_eq_none_iff,List.filter_eq_nil_iff]
        intro f hf hkey
        obtain ⟨old,hold,hsame⟩ := h.known f hf
        exact hnew (List.mem_map.mpr ⟨old,hold,hsame.trans (of_decide_eq_true hkey)⟩)
      refine ⟨fun hacked => (by cases hacked),fun hdead => (by cases hdead),fun _ => ?_⟩
      rw [hnone]
      rfl

theorem MirrorSound.acknowledge {s : Mirror sha} (h : MirrorSound s) {w : ℕ} (now : ℚ) {event : OutboxEvent sha}
    {externalId : String} {todo : List (OutboxEvent sha)} (hphase : s.phase w = .returned event externalId todo) :
    MirrorSound {s with
      phase := Function.update s.phase w (.draining todo)
      table := markAcked s.table event.idempotencyKey externalId now } ∧
    TableKept s.table (markAcked s.table event.idempotencyKey externalId now) := by
  have hkept : TableKept s.table (markAcked s.table event.idempotencyKey externalId now) :=
    update_kept s.table event.idempotencyKey _ (by exact fun _ => rfl) (by exact fun _ => rfl)
  have hreturned := h.phases w
  rw [hphase] at hreturned
  obtain ⟨hcopies,hput⟩ := hreturned
  refine ⟨⟨fun row' hrow' => ?_,?_,known_kept h.known hkept⟩,hkept⟩
  · rcases mem_update hrow' with ⟨hold,-⟩ | ⟨row,hrow,hkey,-,rfl⟩
    · exact (h.rows row' hold).later (fun _ => id) fun _ => rfl
    · have hevent : fromDict sha row.eventJson = .ok event.event := (hcopies event List.mem_cons_self).event hrow hkey
      exact ⟨fun _ => ⟨event.event,hevent,hput⟩,fun hdead => (by cases hdead),fun hpending => (by cases hpending)⟩
  · exact phases_update h.phases rfl hkept (fun _ => id)
      fun copy hcopy => (hcopies copy (List.mem_cons_of_mem _ hcopy)).kept hkept

theorem MirrorSound.record {s : Mirror sha} (h : MirrorSound s) {w : ℕ} (now : ℚ) {event : OutboxEvent sha}
    {code : ProviderErrorCode} {message : String} {todo : List (OutboxEvent sha)}
    (hphase : s.phase w = .failed event code message todo) :
    MirrorSound {s with
      phase := Function.update s.phase w (.draining todo)
      table := fail sha backoff w s.table event code message now
      failures := s.failures ++ [⟨event.idempotencyKey,(backoff w).maxDelaySeconds,now⟩] } ∧
    TableKept s.table (fail sha backoff w s.table event code message now) := by
  have hkept : TableKept s.table (fail sha backoff w s.table event code message now) :=
    fail_kept w s.table event code message now
  have hfailed := h.phases w
  rw [hphase] at hfailed
  obtain ⟨hcopies,hput⟩ := hfailed
  have hunchanged : ∀ row' ∈ s.table.rows, ¬(row'.idempotencyKey = event.idempotencyKey ∧ row'.state = .pending) →
      RowSound {s with
        phase := Function.update s.phase w (.draining todo)
        table := fail sha backoff w s.table event code message now
        failures := s.failures ++ [⟨event.idempotencyKey,(backoff w).maxDelaySeconds,now⟩] } row' := by
    intro row' hrow' hother
    refine (h.rows row' hrow').later (fun _ => id) fun hpending => ?_
    rw [lastFailure_append,if_neg fun hkey => hother ⟨hkey.symm,hpending⟩]
  refine ⟨⟨fun row' hrow' => ?_,?_,?_⟩,hkept⟩
  · simp only [fail] at hrow'
    split at hrow'
    · rename_i hdead
      rcases mem_update hrow' with ⟨hold,hother⟩ | ⟨row,hrow,hkey,-,rfl⟩
      · exact hunchanged row' hold hother
      · have hevent : fromDict sha row.eventJson = .ok event.event := (hcopies event List.mem_cons_self).event hrow hkey
        exact ⟨fun hacked => (by cases hacked),fun _ => ⟨event.event,code,hevent,hdead,hput⟩,fun hpending => (by cases hpending)⟩
    · rcases mem_update hrow' with ⟨hold,hother⟩ | ⟨row,hrow,hkey,hpending,rfl⟩
      · exact hunchanged row' hold hother
      · refine ⟨fun hacked => (by cases hpending.symm.trans hacked),fun hdead => (by cases hpending.symm.trans hdead),fun _ => ?_⟩
        rw [lastFailure_append,if_pos hkey.symm]
        have hdelay := (backoff w).delay_le event.attempts
        show now + max 0 ((backoff w).delay event.attempts) ≤ now + (backoff w).maxDelaySeconds
        linarith
  · exact phases_update h.phases rfl hkept (fun _ => id)
      fun copy hcopy => (hcopies copy (List.mem_cons_of_mem _ hcopy)).kept hkept
  · intro f hf
    rcases List.mem_append.mp hf with hold | hlast
    · exact known_kept h.known hkept f hold
    · rw [List.mem_singleton.mp hlast]
      obtain ⟨row,hrow,hkey,-⟩ := (hcopies event List.mem_cons_self).kept hkept
      exact ⟨row,hrow,hkey⟩

theorem MirrorStep.sound {s s' : Mirror sha} (h : MirrorStep sha backoff s s') (hsound : MirrorSound s) :
    MirrorSound s' ∧ TableKept s.table s'.table := by
  cases h with
  | enqueue henqueue => exact hsound.enqueue henqueue
  | @poll w limit now todo hphase hdue =>
    refine ⟨⟨fun row hrow => (hsound.rows row hrow).later (fun _ => id) fun _ => rfl,
      phases_update hsound.phases rfl (.refl _) (fun _ => id) fun copy hcopy => ?_,hsound.known⟩,.refl _⟩
    obtain ⟨row,hrow,hread⟩ := mapM_mem hdue copy hcopy
    obtain ⟨event,hevent,rfl⟩ := map_ok.mp hread
    have hmem := (List.mem_insertionSort earlier).mp (List.mem_of_mem_take hrow)
    exact ⟨row,(List.mem_filter.mp hmem).1,rfl,hevent⟩
  | @put w event todo hphase =>
    have hcopies := hsound.phases w
    rw [hphase] at hcopies
    exact ⟨⟨fun row hrow => (hsound.rows row hrow).later (fun _ => id) fun _ => rfl,
      phases_update hsound.phases rfl (.refl _) (fun _ => id) hcopies,hsound.known⟩,.refl _⟩
  | @returns w event todo externalId hphase =>
    have hcopies := hsound.phases w
    rw [hphase] at hcopies
    have hputs : ∀ r ∈ s.puts, r ∈ s.puts ++ [⟨event.event,none⟩] := fun r hr => List.mem_append_left _ hr
    exact ⟨⟨fun row hrow => (hsound.rows row hrow).later hputs fun _ => rfl,
      phases_update hsound.phases rfl (.refl _) hputs ⟨hcopies,List.mem_append_right _ List.mem_cons_self⟩,hsound.known⟩,.refl _⟩
  | @fails w event todo code message hphase =>
    have hcopies := hsound.phases w
    rw [hphase] at hcopies
    have hputs : ∀ r ∈ s.puts, r ∈ s.puts ++ [⟨event.event,some code⟩] := fun r hr => List.mem_append_left _ hr
    exact ⟨⟨fun row hrow => (hsound.rows row hrow).later hputs fun _ => rfl,
      phases_update hsound.phases rfl (.refl _) hputs ⟨hcopies,List.mem_append_right _ List.mem_cons_self⟩,hsound.known⟩,.refl _⟩
  | acknowledge w now hphase => exact hsound.acknowledge now hphase
  | record w now hphase => exact hsound.record now hphase
  | finish w =>
    exact ⟨⟨fun row hrow => (hsound.rows row hrow).later (fun _ => id) fun _ => rfl,
      phases_update hsound.phases rfl (.refl _) (fun _ => id) trivial,hsound.known⟩,.refl _⟩

/-! ### Runs -/

def emptyMirror (sha : Sha) : Mirror sha where
  table := {}
  phase _ := .idle

theorem emptyMirror_sound : MirrorSound (emptyMirror sha) :=
  ⟨fun _ h => absurd h List.not_mem_nil,fun _ => trivial,fun _ h => absurd h List.not_mem_nil⟩

theorem mirror_run {s s' : Mirror sha} (h : Relation.ReflTransGen (MirrorStep sha backoff) s s') (hsound : MirrorSound s) :
    MirrorSound s' ∧ TableKept s.table s'.table := by
  induction h with
  | refl => exact ⟨hsound,.refl _⟩
  | tail _ hstep ih =>
    obtain ⟨hnext,hkept⟩ := hstep.sound ih.1
    exact ⟨hnext,ih.2.trans hkept⟩

/-- In every run of workers and enqueues from an empty outbox: each row keeps its event and, once settled, its
state; it is acknowledged or a dead letter only by such an outcome of a put of its event; and while
it is pending it is due at most the bound of the worker after the last failure. -/
theorem delivery_loses_nothing {s : Mirror sha} (hrun : Relation.ReflTransGen (MirrorStep sha backoff) (emptyMirror sha) s) :
    (∀ row ∈ s.table.rows, RowSound s row) ∧
      ∀ s', Relation.ReflTransGen (MirrorStep sha backoff) s s' → TableKept s.table s'.table := by
  obtain ⟨hsound,-⟩ := mirror_run hrun emptyMirror_sound
  exact ⟨hsound.rows,fun s' hlater => (mirror_run hlater hsound).2⟩

end

def compactionCall : Call plainSha where
  policy _ := .ok true
  maxPending := 1
  now := 0
  event := compactionEvent none

def halfMinute : Backoff where
  baseDelaySeconds := 1
  maxDelaySeconds := 30
  positive := by decide
  bounded := by decide

theorem enqueued_row : ∃ stored t row event, enqueue plainSha compactionCall {} = .ok (stored,t) ∧ t.rows = [row] ∧
    row.state = .pending ∧ row.nextAttemptAt = 0 ∧ row.attempts = 0 ∧ fromDict plainSha row.eventJson = .ok event := by
  have hrow : (enqueue plainSha compactionCall {}).toOption.map (fun p => p.2.rows.map fun row =>
      (row.state,row.nextAttemptAt,row.attempts,(fromDict plainSha row.eventJson).isOk)) = some [(.pending,0,0,true)] := by
    decide +kernel
  cases henqueue : enqueue plainSha compactionCall {} with
  | error fault =>
    rw [henqueue] at hrow
    cases hrow
  | ok p =>
    obtain ⟨stored,t⟩ := p
    rw [henqueue] at hrow
    obtain ⟨row,rest,ht,hrow,hrest⟩ := List.map_eq_cons_iff.mp (Option.some.inj hrow)
    rw [List.map_eq_nil_iff.mp hrest] at ht
    simp only [Prod.mk.injEq] at hrow
    obtain ⟨hstate,hnext,hattempts,hok⟩ := hrow
    cases hevent : fromDict plainSha row.eventJson with
    | error fault =>
      rw [hevent] at hok
      cases hok
    | ok event => exact ⟨stored,t,row,event,rfl,ht,hstate,hnext,hattempts,hevent⟩

theorem due_single {t : Table} {row : Row} {event : LifecycleEvent plainSha} (now : ℚ) (ht : t.rows = [row])
    (hstate : row.state = .pending) (hdue : row.nextAttemptAt ≤ now) (hevent : fromDict plainSha row.eventJson = .ok event) :
    due plainSha t 1 now = .ok [⟨row.idempotencyKey,event,row.attempts⟩] := by
  have hrows : dueRows t 1 now = [row] := by simp [dueRows,ht,hstate,hdue]
  rw [due,hrows,List.mapM_cons,fromRow,hevent]
  rfl

theorem update_single {t : Table} {row : Row} (change : Row → Row) (ht : t.rows = [row]) (hstate : row.state = .pending)
    (hkey : ∀ row, (change row).idempotencyKey = row.idempotencyKey) :
    (t.update row.idempotencyKey change hkey).rows = [change row] := by
  simp [Table.update,ht,hstate]

theorem refused_acked {t : Table} {row : Row} (ht : t.rows = [row]) (hstate : row.state = .acked) (w : ℕ)
    (event : OutboxEvent plainSha) (message : String) (now : ℚ) :
    (fail plainSha (fun _ => halfMinute) w t event .authFailed message now).rows.map Row.state = [.acked] := by
  rw [fail,if_pos (by decide)]
  simp [markDeadLetter,Table.update,ht,hstate]

/-- Two workers hold the row after a put timed out: the put of one returns, that of the other is refused. -/
theorem retried_compaction_kept : ∃ s : Mirror plainSha, s.table.rows.map Row.state = [.acked] ∧
    s.puts.map PutRecord.code = [some .timeout,none,some .authFailed] ∧ (∀ row ∈ s.table.rows, RowSound s row) ∧
    ∀ s', Relation.ReflTransGen (MirrorStep plainSha fun _ => halfMinute) s s' → TableKept s.table s'.table := by
  obtain ⟨stored,t,row,event,henqueue,ht,hstate,hnext,hattempts,hevent⟩ := enqueued_row
  have hfirst := due_single 0 ht hstate hnext.le hevent
  have hstart : MirrorStep plainSha (fun _ => halfMinute) (emptyMirror plainSha) {emptyMirror plainSha with table := t} :=
    .enqueue henqueue
  have hfailed := ((((Relation.ReflTransGen.single hstart).tail (.poll 0 1 0 rfl hfirst)).tail (.put 0 rfl)).tail
      (.fails 0 .timeout "no reply" rfl)).tail (.record 0 1 rfl)
  have hrows := update_single (fun row => {row with
    attempts := row.attempts + 1, nextAttemptAt := 1 + max 0 (halfMinute.delay 0), updatedAt := 1
    errorCode := some "timeout", safeError := some (redactSecrets "no reply")}) ht hstate fun _ => rfl
  have hdelay : (1 : ℚ) + max 0 (halfMinute.delay 0) ≤ 2 := by decide +kernel
  have hagain := due_single 2 hrows hstate hdelay hevent
  rw [fail,if_neg (by decide),hattempts] at hfailed
  have hheld := ((hfailed.tail (.finish 0)).tail (.poll 0 1 2 rfl hagain)).tail (.poll 1 1 2 rfl hagain)
  have hrun := (((((hheld.tail (.put 0 rfl)).tail (.returns 0 "m-1" rfl)).tail (.acknowledge 0 2 rfl)).tail (.put 1 rfl)).tail
    (.fails 1 .authFailed "denied" rfl)).tail (.record 1 3 rfl)
  refine ⟨_,?_,rfl,delivery_loses_nothing hrun⟩
  have hacked := update_single (fun row => {row with
    state := .acked, attempts := row.attempts + 1, updatedAt := 2, errorCode := none, safeError := none
    externalId := some "m-1"}) hrows hstate fun _ => rfl
  exact refused_acked hacked rfl 1 _ _ _

end Verdict.Memory

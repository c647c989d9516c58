import Verdict.EventLog.Log

/-! # A log survives crashes

Between any two steps the file holds the lines of the stored events, and behind them at most a
torn one, when no log is open. So every opening succeeds, reads these events and goes on behind
the last of them.
-/
namespace Verdict.EventLog
open PyText JsonValue JsonText TextLines
open List (append_nil map_append not_mem_nil reverseRecOn)
open Run (exec)
open RunEvent (make_ok settled)
open Utf8 (encode)
variable {φ : Type}

/-! ### Lines one after another -/

section
variable {F : FloatText φ}

theorem logBytes_snoc (events : List (RunEvent φ)) (e : RunEvent φ) :
    logBytes F (events ++ [e]) = logBytes F events ++ encode (lineText F e ++ ['\n']) := by
  simp only [logBytes,ended,encode,map_append,List.flatMap_append,List.map_cons,List.map_nil,List.flatMap_cons,
    List.flatMap_nil,append_nil]

theorem encode_line (line : List Char) : encode (line ++ ['\n']) = encode line ++ [newline] := by
  rw [encode,List.flatMap_append]
  rfl

theorem logBytes_eq_nil {events : List (RunEvent φ)} (h : logBytes F events = []) : events = [] := by
  induction events using reverseRecOn with
  | nil => rfl
  | append_singleton events e _ =>
    rw [logBytes_snoc,encode_line,← List.append_assoc] at h
    exact absurd h (List.concat_ne_nil _ _)

theorem repairTornTail_logBytes (events : List (RunEvent φ)) {tail : Bytes} (htail : newline ∉ tail) :
    repairTornTail (logBytes F events ++ tail) = logBytes F events := by
  induction events using reverseRecOn with
  | nil => exact repairTornTail_of_notMem htail
  | append_singleton events e _ =>
    rw [logBytes_snoc,encode_line,← List.append_assoc]
    exact repairTornTail_append _ htail

theorem newline_notMem_encode {line : List Char} (h : ∀ c ∈ line, Printable c) : newline ∉ encode line := by
  intro hmem
  obtain ⟨c,hc,hb⟩ := List.mem_flatMap.mp hmem
  have hchar : c = Char.ofNat newline.toNat := Utf8.encodeChar_small (by decide) hb
  rw [hchar] at hc
  exact absurd (h _ hc) (by decide)

end

/-! ### Numbers in order -/

theorem lastSeq_snoc (events : List (RunEvent φ)) (e : RunEvent φ) : lastSeq (events ++ [e]) = e.seq := by
  rw [lastSeq,List.getLast?_concat]
  rfl

theorem getLast?_seqs (events : List (RunEvent φ)) : (0 :: events.map RunEvent.seq).getLast? = some (lastSeq events) := by
  induction events using reverseRecOn with
  | nil => rfl
  | append_singleton events e _ =>
    rw [lastSeq_snoc,map_append,List.map_singleton,← List.cons_append,List.getLast?_concat]

variable {events : List (RunEvent φ)}

theorem Ascending.snoc (h : Ascending events) {e : RunEvent φ} (he : lastSeq events < e.seq) :
    Ascending (events ++ [e]) := by
  rw [Ascending,map_append,List.map_singleton,← List.cons_append,List.isChain_append,getLast?_seqs]
  refine ⟨h,List.isChain_singleton _,?_⟩
  rintro a ⟨⟩ b ⟨⟩
  exact he

theorem Ascending.le_lastSeq (h : Ascending events) : ∀ e ∈ events, e.seq ≤ lastSeq events := by
  induction events using reverseRecOn with
  | nil => exact fun e he => absurd he not_mem_nil
  | append_singleton events last _ =>
    have hpair := (List.isChain_iff_pairwise.mp h).of_cons
    rw [map_append,List.pairwise_append] at hpair
    rw [lastSeq_snoc]
    intro e he
    rcases List.mem_append.mp he with he | he
    · exact (hpair.2.2 _ (List.mem_map_of_mem he) _ (List.mem_singleton_self _)).le
    · rw [List.mem_singleton.mp he]

/-! ### The invariant -/

structure Inv (env : Env φ) (s : System φ) : Prop where
  writes : ∀ e ∈ s.stored, Writes env e
  ascending : Ascending s.stored
  file : ∃ tail, newline ∉ tail ∧ s.file.getD [] = logBytes env.float s.stored ++ tail ∧ (s.seq.isSome → tail = [])
  seq : ∀ q, s.seq = some q → q = lastSeq s.stored
  returned : s.returned.Sublist s.stored

section Steps
variable {env : Env φ} {s t : System φ} {call : Call φ} {seq : ℤ} {e : RunEvent φ} {bytes : Bytes}

theorem inv_start : Inv env {} where
  writes _ he := absurd he not_mem_nil
  ascending := List.isChain_singleton _
  file := ⟨[],not_mem_nil,rfl,fun _ => rfl⟩
  seq _ h := nomatch h
  returned := List.Sublist.refl []

theorem prepare_ok (h : prepare env seq call = .ok (e,bytes)) :
    Writes env e ∧ e.seq = seq + 1 ∧ bytes = encode (lineText env.float e ++ ['\n']) := by
  obtain ⟨data,hdata,h⟩ := Raising.bind_ok.mp h
  obtain ⟨event,hevent,h⟩ := Raising.bind_ok.mp h
  have hclean : Clean env.float (.obj data) := cleanMapping_clean _ _ _ _ clean_empty (Raising.mapError_ok.mp hdata)
  obtain ⟨hseq,hdata⟩ := make_ok (Raising.mapError_ok.mp hevent)
  split at h
  · rename_i line hline
    cases h
    refine ⟨⟨hdata ▸ hclean,hline ▸ rfl⟩,hseq,?_⟩
    rw [lineText,hline,Option.getD_some]
  · cases h

theorem read_file {events : List (RunEvent φ)} (h : ∀ e ∈ events, Writes env e) (hseq : Ascending events) {file : Option Bytes}
    (hfile : file.getD [] = logBytes env.float events) : read env file = .ok (events.map settled) := by
  cases file with
  | none =>
    rw [logBytes_eq_nil hfile.symm]
    rfl
  | some raw =>
    rw [show raw = logBytes env.float events from hfile]
    exact read_logBytes h hseq

theorem Inv.openLog (h : Inv env s) :
    EventLog.openLog env s.file = .ok (s.file.map repairTornTail,lastSeq s.stored)
      ∧ (s.file.map repairTornTail).getD [] = logBytes env.float s.stored := by
  obtain ⟨tail,htail,hfile,-⟩ := h.file
  have hrepaired : (s.file.map repairTornTail).getD [] = logBytes env.float s.stored := by
    rw [← repairTornTail_logBytes s.stored htail,← hfile]
    cases s.file <;> rfl
  refine ⟨?_,hrepaired⟩
  rw [EventLog.openLog,read_file h.writes h.ascending hrepaired,Except.map,lastSeq_settled]

theorem Inv.whole (h : Inv env s) (hseq : s.seq = some seq) : s.file.getD [] = logBytes env.float s.stored := by
  obtain ⟨tail,-,hfile,hopen⟩ := h.file
  rw [hfile,hopen (hseq ▸ rfl),append_nil]

theorem Inv.append (h : Inv env s) (hseq : s.seq = some seq) (hprepare : prepare env seq call = .ok (e,bytes)) {opened : Option ℤ}
    (hopened : ∀ q, opened = some q → q = e.seq) {returned : List (RunEvent φ)} (hreturned : returned.Sublist (s.stored ++ [e])) :
    Inv env ⟨some (s.file.getD [] ++ bytes),opened,returned,s.stored ++ [e]⟩ := by
  obtain ⟨hwrites,hnext,rfl⟩ := prepare_ok hprepare
  have hlt : lastSeq s.stored < e.seq := by
    rw [hnext,← h.seq seq hseq]
    exact Int.lt_succ seq
  have hfile : s.file.getD [] ++ encode (lineText env.float e ++ ['\n']) = logBytes env.float (s.stored ++ [e]) := by
    rw [h.whole hseq,logBytes_snoc]
  exact {
    writes := List.forall_mem_append.mpr ⟨h.writes,List.forall_mem_singleton.mpr hwrites⟩
    ascending := h.ascending.snoc hlt
    file := ⟨[],not_mem_nil,hfile.trans (append_nil _).symm,fun _ => rfl⟩
    seq := fun q hq => (hopened q hq).trans (lastSeq_snoc _ _).symm
    returned := hreturned }

theorem newline_notMem_take (hprepare : prepare env seq call = .ok (e,bytes)) {written : ℕ} (h : written < bytes.length) :
    newline ∉ bytes.take written := by
  obtain ⟨hwrites,-,rfl⟩ := prepare_ok hprepare
  rw [encode_line,List.length_append,List.length_singleton] at h
  rw [encode_line,List.take_append_of_le_length (Nat.le_of_lt_succ h)]
  exact fun hmem => newline_notMem_encode hwrites.fromLine.2.1 (List.mem_of_mem_take hmem)

theorem Inv.crash (h : Inv env s) (hseq : s.seq = some seq) (hprepare : prepare env seq call = .ok (e,bytes)) (written : ℕ) :
    Inv env ⟨some (s.file.getD [] ++ bytes.take written),none,s.returned,
      if bytes.length ≤ written then s.stored ++ [e] else s.stored⟩ := by
  by_cases hwhole : bytes.length ≤ written
  · rw [if_pos hwhole,List.take_of_length_le hwhole]
    refine h.append hseq hprepare ?_ (h.returned.trans (List.sublist_append_left _ _))
    exact fun _ hq => nomatch hq
  · rw [if_neg hwhole]
    have htorn := newline_notMem_take hprepare (Nat.not_le.mp hwhole)
    exact {
      writes := h.writes
      ascending := h.ascending
      file := ⟨bytes.take written,htorn,congrArg (· ++ bytes.take written) (h.whole hseq),fun hsome => nomatch hsome⟩
      seq := fun _ hq => nomatch hq
      returned := h.returned }

theorem Inv.reopened (h : Inv env s) : Inv env {s with file := s.file.map repairTornTail, seq := some (lastSeq s.stored)} where
  writes := h.writes
  ascending := h.ascending
  file := ⟨[],not_mem_nil,h.openLog.2.trans (append_nil _).symm,fun _ => rfl⟩
  seq _ hq := (Option.some.inj hq).symm
  returned := h.returned

theorem Inv.closed (h : Inv env s) : Inv env {s with seq := none} where
  writes := h.writes
  ascending := h.ascending
  file := by
    obtain ⟨tail,htail,hfile,-⟩ := h.file
    exact ⟨tail,htail,hfile,fun hsome => nomatch hsome⟩
  seq _ hq := nomatch hq
  returned := h.returned

variable {a : Action φ}

theorem Inv.step (h : Inv env s) (hstep : EventLog.step env s a = some t) : Inv env t := by
  cases a with
  | reopen =>
    rw [EventLog.step,h.openLog.1] at hstep
    cases hstep
    exact h.reopened
  | emit call =>
    obtain ⟨seq,hseq,hstep⟩ := Option.map_eq_some_iff.mp hstep
    cases hprepare : prepare env seq call with
    | error e =>
      rw [hprepare] at hstep
      cases hstep
      exact h
    | ok made =>
      rw [hprepare] at hstep
      cases hstep
      exact h.append hseq hprepare (fun _ hq => (Option.some.inj hq).symm) (h.returned.append (List.Sublist.refl _))
  | crash call written =>
    obtain ⟨seq,hseq,hstep⟩ := Option.map_eq_some_iff.mp hstep
    cases hprepare : prepare env seq call with
    | error e =>
      rw [hprepare] at hstep
      cases hstep
      exact h.closed
    | ok made =>
      rw [hprepare] at hstep
      cases hstep
      exact h.crash hseq hprepare written
  | stop =>
    cases hstep
    exact h.closed

variable {actions : List (Action φ)}

theorem inv_exec (h : exec (EventLog.step env) {} actions = some s) : Inv env s :=
  Run.exec_invariant (fun _ _ _ hs hstep => hs.step hstep) h inv_start

theorem returned_step (h : s.returned = s.stored) (hshort : Short env s a) (hstep : EventLog.step env s a = some t) :
    t.returned = t.stored := by
  cases a with
  | reopen =>
    cases hstep
    split <;> exact h
  | emit call =>
    obtain ⟨seq,-,rfl⟩ := Option.map_eq_some_iff.mp hstep
    split
    · exact congrArg (· ++ _) h
    · exact h
  | crash call written =>
    obtain ⟨seq,hseq,rfl⟩ := Option.map_eq_some_iff.mp hstep
    split
    · rename_i event bytes hprepare
      exact h.trans (if_neg (Nat.not_le.mpr (hshort seq event bytes hseq hprepare))).symm
    · exact h
  | stop =>
    cases hstep
    exact h

theorem returned_exec (h : exec (EventLog.step env) {} actions = some s)
    (hshort : Run.AllSteps (EventLog.step env) (Short env) {} actions) : s.returned = s.stored :=
  Run.exec_invariant_of (fun _ _ _ hs hok hstep => returned_step hs hok hstep) hshort h rfl

theorem not_tornTail (h : Inv env s) : ¬ TornTail ((s.file.map repairTornTail).getD []) := by
  rw [← repairTornTail_eq_self_iff,h.openLog.2]
  have hrepaired : repairTornTail (logBytes env.float s.stored ++ []) = _ := repairTornTail_logBytes s.stored not_mem_nil
  rwa [append_nil] at hrepaired

/-- After any emits, crashes in the middle of an append and openings, opening the log succeeds and
cuts the torn tail off. It reads the stored events in their order: those of the emits that have
returned, and of a crashed one only if its whole line was written. Each is equal to what was
emitted, up to surrogate pairs, which come back joined. The next event has a greater number. -/
theorem log_recovers {actions : List (Action φ)} (h : exec (EventLog.step env) {} actions = some s) :
    (∃ file, openLog env s.file = .ok (file,lastSeq s.stored) ∧ ¬ TornTail (file.getD [])
        ∧ read env file = .ok (s.stored.map settled))
      ∧ (∀ seq, s.seq = some seq → seq = lastSeq s.stored ∧ read env s.file = .ok (s.stored.map settled))
      ∧ s.returned.Sublist s.stored
      ∧ (Run.AllSteps (EventLog.step env) (Short env) {} actions → s.returned = s.stored)
      ∧ (∀ e ∈ s.stored, e.Unpaired → e.settled.Same e)
      ∧ ∀ call next bytes, prepare env (lastSeq s.stored) call = .ok (next,bytes) → ∀ e ∈ s.stored, e.seq < next.seq := by
  have hinv := inv_exec h
  obtain ⟨hopen,hfile⟩ := hinv.openLog
  refine ⟨⟨_,hopen,not_tornTail hinv,read_file hinv.writes hinv.ascending hfile⟩,
    fun seq hseq => ⟨hinv.seq seq hseq,read_file hinv.writes hinv.ascending (hinv.whole hseq)⟩,
    hinv.returned,returned_exec h,fun e he => RunEvent.same_settled (hinv.writes e he).clean,?_⟩
  intro call next bytes hprepare e he
  rw [(prepare_ok hprepare).2.1]
  exact Int.lt_add_one_of_le (hinv.ascending.le_lastSeq e he)

end Steps

/-! ### A log of whole floats -/

def plainEnv : Env WholeFloat where
  float := wholeFloats
  scrubSecrets := id
  repr t := lit "'" ++ t ++ lit "'"
  int _ := .error .corrupt
  str _ := []
  dict _ := .error .corrupt

local instance pointsNonzero : NeZero (1114111 + 1) := inferInstance

def heartbeat : Call WholeFloat where
  type := lit "heartbeat"
  nodeId := lit "n1"
  data := [(lit "note",.leaf (.str [0x61,0x0A,0x2028,0x1F600])),(lit "age",.leaf (.float (.whole 2)))]
  time := lit "2026-01-01T00:00:00Z"

def halves : Call WholeFloat := {heartbeat with data := [(lit "k",.leaf (.str [0xD83D,0xDE00]))]}

/-- One emit returns, one is torn, and after the log was opened again one more returns. -/
theorem log_recovers_torn : ∃ s, exec (step plainEnv) {} [.reopen,.emit heartbeat,.crash halves 40,.reopen,.emit heartbeat] = some s
    ∧ s.stored.length = 2 ∧ ∃ file, openLog plainEnv s.file = .ok (file,lastSeq s.stored)
      ∧ ¬ TornTail (file.getD []) ∧ read plainEnv file = .ok (s.stored.map settled) := by
  have hlength : (exec (step plainEnv) {} [.reopen,.emit heartbeat,.crash halves 40,.reopen,.emit heartbeat]).map
      (fun s => s.stored.length) = some 2 := by decide +kernel
  obtain ⟨s,hs,hstored⟩ := Option.map_eq_some_iff.mp hlength
  exact ⟨s,hs,hstored,(log_recovers hs).1⟩

/-- Opened again, the log reads exactly the events of the emits that returned. -/
def ReadAsEmitted (env : Env φ) (s : System φ) : Prop := ∃ file seq events, openLog env s.file = .ok (file,seq)
  ∧ read env file = .ok events ∧ List.Forall₂ RunEvent.Same events s.returned

theorem readAsEmitted_iff {env : Env φ} {s : System φ} (h : Inv env s) :
    ReadAsEmitted env s ↔ List.Forall₂ RunEvent.Same (s.stored.map settled) s.returned := by
  obtain ⟨hopen,hfile⟩ := h.openLog
  have hread := read_file h.writes h.ascending hfile
  constructor
  · rintro ⟨file,seq,events,hopened,hevents,hsame⟩
    rw [hopen] at hopened
    cases hopened
    rw [hread] at hevents
    cases hevents
    exact hsame
  · exact fun hsame => ⟨_,_,_,hopen,hread,hsame⟩

/-- A surrogate pair is read back as one code point; and an emit that was killed behind the last
byte of its line has not returned but is read. -/
theorem not_read_as_emitted :
    (∃ s, exec (step plainEnv) {} [.reopen,.emit halves] = some s ∧ ¬ ReadAsEmitted plainEnv s)
      ∧ ∃ s, exec (step plainEnv) {} [.reopen,.crash heartbeat 1000] = some s ∧ ¬ ReadAsEmitted plainEnv s := by
  constructor
  · obtain ⟨s,hs⟩ : ∃ s, exec (step plainEnv) {} [.reopen,.emit halves] = some s := ⟨_,rfl⟩
    refine ⟨s,hs,fun h => ?_⟩
    have hsame := (readAsEmitted_iff (inv_exec hs)).mp h
    cases hs
    obtain ⟨-,-,-,-,hdata⟩ := (List.forall₂_cons.mp hsame).1
    have hjoined : Value.obj (φ := WholeFloat) [(lit "k",.str [0x1F600])] = .obj [(lit "k",.str [0xD83D,0xDE00])] := hdata
    simp at hjoined
  · have hlengths : (exec (step plainEnv) {} [.reopen,.crash heartbeat 1000]).map
        (fun s => (s.stored.length,s.returned.length)) = some (1,0) := by decide +kernel
    obtain ⟨s,hs,hpair⟩ := Option.map_eq_some_iff.mp hlengths
    refine ⟨s,hs,fun h => ?_⟩
    have hlength := ((readAsEmitted_iff (inv_exec hs)).mp h).length_eq
    obtain ⟨hstored,hreturned⟩ := Prod.mk.inj hpair
    rw [List.length_map,hstored,hreturned] at hlength
    exact absurd hlength (by decide)

end Verdict.EventLog

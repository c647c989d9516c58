import Verdict.Stream.Success

/-! # Closing the upstream

`ValidatedSSEStream` reads from an upstream, validates what it yields and closes it. A run is any
sequence of calls of `__anext__`, each with what the upstream did, and of `aclose`. While nothing
has settled the upstream is open and the parser has read what was yielded; once a call has raised
or closed, the outcome stays and the upstream has been closed once, unless the call was left by an
error the parser does not catch.
-/
namespace Verdict.Stream

open SSETerminalParser (feedChunk terminal)

structure CloseOnce where
  closed : Bool := false
  error : Option String := none

/-- `ValidatedSSEStream`, with what has happened to the upstream: how often it was closed, whether
it has ended by itself, and the bytes it has yielded. -/
structure ValidatedSSEStream where
  parser : SSETerminalParser := {}
  closer : CloseOnce := {}
  closed : Bool := false
  overrideOutcome : Option StreamOutcome := none
  closeCalls : ℕ := 0
  upstreamEnded : Bool := false
  yielded : List UInt8 := []

/-- What `upstream.__anext__` does. -/
inductive Upstream
  | chunk (c : Chunk)
  | stop
  | cancelled
  | error (name : String)

def Chunk.content : Chunk → List UInt8
  | .bytes bs => bs
  | .other => []

inductive Leave
  | chunk (c : Chunk)
  | stop
  | protocol (message : String)
  | cancelled
  | upstreamError (name : String)
  | uncaught
  deriving DecidableEq

namespace ValidatedSSEStream

def outcome (s : ValidatedSSEStream) : Option StreamOutcome := match s.overrideOutcome with
  | some o => some o
  | none => s.parser.outcome

/-- `CloseOnce.aclose`: `close` is the error the upstream's own close raises, if it does. -/
def closeUpstream (s : ValidatedSSEStream) (close : Option String) : ValidatedSSEStream :=
  if s.closer.closed then s
  else {s with closer := ⟨true,close⟩, closeCalls := s.closeCalls + 1}

def closeAndRecord (k : Settings) (s : ValidatedSSEStream) (close : Option String) (state : StreamState)
    (detail : Option String) : ValidatedSSEStream :=
  let s := s.closeUpstream close
  if s.overrideOutcome = none ∧ s.parser.outcome = none then
    {s with overrideOutcome := some {
      state := state
      surface := k.surface
      detail := detail
      cleanupError := s.closer.error }}
  else s

def anext (k : Settings) (s : ValidatedSSEStream) (close : Option String) : Upstream → ValidatedSSEStream × Leave
  | .stop =>
    let s := {s with upstreamEnded := true}
    match s.parser.finalize k with
    | .ok p => ({s with parser := p}.closeUpstream close,.stop)
    | .error (.protocol message,p) => ({s with parser := p}.closeUpstream close,.protocol message)
    | .error (.uncaught,p) => ({s with parser := p},.uncaught)
  | .cancelled => (s.closeAndRecord k close .aborted none,.cancelled)
  | .error name => (s.closeAndRecord k close .transportError (some name),.upstreamError name)
  | .chunk c =>
    let s := {s with yielded := s.yielded ++ c.content}
    match s.parser.feedChunk k c with
    | .ok p => ({s with parser := p},.chunk c)
    | .error (.protocol message,p) => ({s with parser := p}.closeUpstream close,.protocol message)
    | .error (.uncaught,p) => ({s with parser := p},.uncaught)

def aclose (k : Settings) (s : ValidatedSSEStream) (close : Option String) : ValidatedSSEStream :=
  if s.closed then s
  else {s with closed := true}.closeAndRecord k close .aborted none

end ValidatedSSEStream
open ValidatedSSEStream

/-- One call, with what the upstream's `__anext__` and its `aclose` do if they are called. -/
inductive StreamCall
  | next (upstream : Upstream) (close : Option String)
  | close (close : Option String)

section Calls
variable (k : Settings)

def callStep (s : ValidatedSSEStream) : StreamCall → ValidatedSSEStream
  | .next upstream close => (s.anext k close upstream).1
  | .close close => s.aclose k close

/-- The call has raised, or it is an `aclose` that has returned. -/
def Settling (s : ValidatedSSEStream) : StreamCall → Prop
  | .next upstream close => ∀ c, (s.anext k close upstream).2 ≠ .chunk c
  | .close _ => True

variable (calls : List StreamCall)

def runCalls : ValidatedSSEStream := calls.foldl (callStep k) {}

/-- The outcome is recorded, the upstream has been closed once, and a success is one of a stream
that has reached its terminal and has ended by itself. -/
structure Settled (s : ValidatedSSEStream) : Prop where
  closed : s.closeCalls = 1
  outcome : ∃ o, s.outcome = some o ∧ (o.state = .success → s.parser.terminal k = true ∧ s.upstreamEnded = true)

/-- One outcome and one close, at one call: an outcome that is there stays, the upstream is not
closed twice, and a call that has raised or closed leaves the stream settled. -/
structure EndsOnce (s : ValidatedSSEStream) (call : StreamCall) : Prop where
  outcome : ∀ o, s.outcome = some o → (callStep k s call).outcome = some o
  closed : (callStep k s call).closeCalls ≤ 1
  settles : Settling k s call → Settled k (callStep k s call)

/-- The call does not come, with no outcome recorded, to an event that cannot be read: neither in
a chunk that is admitted nor in the event that the end of the stream dispatches. -/
def Calm (s : ValidatedSSEStream) : StreamCall → Prop
  | .next (.chunk (.bytes c)) _ => s.outcome = none → Admits k s.yielded c → ¬StopsIn k (Crashes k) (s.yielded ++ c)
  | .next .stop _ => s.outcome = none → ¬CrashedAtEnd k s.yielded
  | _ => True

/-- Nothing has settled: the parser has read what was yielded and the upstream is open. -/
structure Unsettled (s : ValidatedSSEStream) : Prop where
  reads : Reads k s.yielded s.parser
  closer : s.closer.closed = false
  calls : s.closeCalls = 0
  override : s.overrideOutcome = none
  closed : s.closed = false

/-- The outcome that is recorded stays: it is the stream's own and no success, or the parser's. -/
def Kept (s : ValidatedSSEStream) : Prop :=
  (∃ o, s.overrideOutcome = some o ∧ o.state ≠ .success) ∨
    (s.overrideOutcome = none ∧ ∃ o, s.parser.outcome = some o ∧
      (o.state = .success → s.parser.terminal k = true ∧ s.upstreamEnded = true))

structure Closed (s : ValidatedSSEStream) : Prop where
  closer : s.closer.closed = true
  calls : s.closeCalls = 1
  kept : Kept k s

variable {k}
variable {s : ValidatedSSEStream}

theorem outcome_eq_none : s.outcome = none ↔ s.overrideOutcome = none ∧ s.parser.outcome = none := by
  rw [ValidatedSSEStream.outcome]
  cases s.overrideOutcome with
  | none => simp
  | some o => simp

theorem Closed.settled (h : Closed k s) : Settled k s := by
  refine ⟨h.calls,?_⟩
  rcases h.kept with ⟨o,hover,hstate⟩ | ⟨hover,o,ho,hsuccess⟩
  · refine ⟨o,?_,fun hs => absurd hs hstate⟩
    rw [ValidatedSSEStream.outcome,hover]
  · refine ⟨o,?_,hsuccess⟩
    rw [ValidatedSSEStream.outcome,hover]
    exact ho

theorem Unsettled.outcome (h : Unsettled k s) : s.outcome = none :=
  outcome_eq_none.mpr ⟨h.override,h.reads.outcome⟩

theorem closeUpstream_closed (h : s.closer.closed = true) (close : Option String) :
    s.closeUpstream close = s := by
  rw [closeUpstream,if_pos h]

theorem closeUpstream_open (h : s.closer.closed = false) (close : Option String) :
    s.closeUpstream close = {s with closer := ⟨true,close⟩, closeCalls := s.closeCalls + 1} := by
  rw [closeUpstream,if_neg (Bool.eq_false_iff.mp h)]

/-! ### After the end -/

variable {p : SSETerminalParser}

theorem fail_frozen (message : String) (h : p.outcome ≠ none) :
    p.fail k message = .error (.protocol message,p) := by
  obtain ⟨⟨eventData,pending,events,done,reasons,usage,models,responsesTerminal,outcome⟩,decoder,buffer,bytes⟩ := p
  obtain ⟨o,rfl⟩ := Option.ne_none_iff_exists'.mp h
  rfl

theorem feedChunk_frozen (c : Chunk) (h : p.outcome ≠ none) :
    ∃ message, p.feedChunk k c = .error (.protocol message,p) := by
  cases c with
  | other =>
    rw [feedChunk,if_pos h]
    exact ⟨_,fail_frozen _ h⟩
  | bytes bs =>
    rw [feedChunk,if_pos h]
    exact ⟨_,fail_frozen _ h⟩

theorem finalize_frozen (h : p.outcome ≠ none) : p.finalize k = .ok p := if_pos h

theorem closeAndRecord_closed (h : Closed k s) (close : Option String) (state : StreamState)
    (detail : Option String) : s.closeAndRecord k close state detail = s := by
  have hnone : ¬(s.overrideOutcome = none ∧ s.parser.outcome = none) := by
    rw [← outcome_eq_none]
    obtain ⟨o,ho,-⟩ := h.settled.outcome
    rw [ho]
    exact Option.some_ne_none _
  rw [closeAndRecord,closeUpstream_closed h.closer,if_neg hnone]

theorem closed_fields (h : s.closer.closed = true) (p : SSETerminalParser) (yielded : List UInt8)
    (ended : Bool) (close : Option String) :
    {s with parser := p, yielded := yielded, upstreamEnded := ended}.closeUpstream close =
      {s with parser := p, yielded := yielded, upstreamEnded := ended} :=
  closeUpstream_closed (s := {s with parser := p, yielded := yielded, upstreamEnded := ended}) h close

theorem Closed.call {s : ValidatedSSEStream} (h : Closed k s) (call : StreamCall) :
    ∃ p yielded ended closed, callStep k s call = {s with
        parser := p, yielded := yielded, upstreamEnded := ended, closed := closed} ∧
      (s.parser.outcome ≠ none → p = s.parser) ∧ (s.upstreamEnded = true → ended = true) := by
  cases call with
  | close close =>
    rw [callStep,aclose]
    split
    · exact ⟨s.parser,s.yielded,s.upstreamEnded,s.closed,rfl,fun _ => rfl,id⟩
    · have hc : Closed k {s with closed := true} := ⟨h.closer,h.calls,h.kept⟩
      rw [closeAndRecord_closed hc]
      exact ⟨s.parser,s.yielded,s.upstreamEnded,true,rfl,fun _ => rfl,id⟩
  | next upstream close =>
    cases upstream with
    | cancelled =>
      rw [callStep,anext,closeAndRecord_closed h]
      exact ⟨s.parser,s.yielded,s.upstreamEnded,s.closed,rfl,fun _ => rfl,id⟩
    | error name =>
      rw [callStep,anext,closeAndRecord_closed h]
      exact ⟨s.parser,s.yielded,s.upstreamEnded,s.closed,rfl,fun _ => rfl,id⟩
    | stop =>
      rw [callStep,anext]
      simp only
      cases hfinal : s.parser.finalize k with
      | ok p =>
        refine ⟨p,s.yielded,true,s.closed,closed_fields h.closer p s.yielded true close,fun hne => ?_,fun _ => rfl⟩
        rw [finalize_frozen hne] at hfinal
        exact (Except.ok.inj hfinal).symm
      | error e =>
        obtain ⟨raised,p⟩ := e
        have hfrozen : s.parser.outcome ≠ none → p = s.parser := by
          intro hne
          rw [finalize_frozen hne] at hfinal
          cases hfinal
        cases raised with
        | protocol message => exact ⟨p,s.yielded,true,s.closed,closed_fields h.closer p s.yielded true close,hfrozen,fun _ => rfl⟩
        | uncaught => exact ⟨p,s.yielded,true,s.closed,rfl,hfrozen,fun _ => rfl⟩
    | chunk c =>
      obtain ⟨yielded,hyielded⟩ : ∃ yielded, yielded = s.yielded ++ c.content := ⟨_,rfl⟩
      rw [callStep,anext,← hyielded]
      simp only
      cases hfeed : s.parser.feedChunk k c with
      | ok p =>
        refine ⟨p,yielded,s.upstreamEnded,s.closed,rfl,fun hne => ?_,id⟩
        obtain ⟨message,hfrozen⟩ := feedChunk_frozen (k := k) c hne
        rw [hfrozen] at hfeed
        cases hfeed
      | error e =>
        obtain ⟨raised,p⟩ := e
        have hfrozen : s.parser.outcome ≠ none → p = s.parser := by
          intro hne
          obtain ⟨message,hfrozen⟩ := feedChunk_frozen (k := k) c hne
          rw [hfrozen] at hfeed
          cases hfeed
          rfl
        cases raised with
        | protocol message =>
          exact ⟨p,yielded,s.upstreamEnded,s.closed,closed_fields h.closer p yielded s.upstreamEnded close,hfrozen,id⟩
        | uncaught => exact ⟨p,yielded,s.upstreamEnded,s.closed,rfl,hfrozen,id⟩

theorem Closed.step (h : Closed k s) (call : StreamCall) :
    Closed k (callStep k s call) ∧ (callStep k s call).outcome = s.outcome := by
  obtain ⟨p,yielded,ended,closed,hstep,hfrozen,hended⟩ := h.call call
  rw [hstep]
  rcases h.kept with ⟨o,hover,hstate⟩ | ⟨hover,o,ho,hsuccess⟩
  · refine ⟨⟨h.closer,h.calls,Or.inl ⟨o,hover,hstate⟩⟩,?_⟩
    simp only [ValidatedSSEStream.outcome,hover]
  · obtain rfl := hfrozen (by rw [ho]; exact Option.some_ne_none _)
    exact ⟨⟨h.closer,h.calls,Or.inr ⟨hover,o,ho,fun hs => ⟨(hsuccess hs).1,hended (hsuccess hs).2⟩⟩⟩,rfl⟩

theorem Closed.endsOnce (h : Closed k s) (call : StreamCall) : EndsOnce k s call := by
  obtain ⟨hclosed,houtcome⟩ := h.step call
  exact ⟨fun o ho => houtcome.trans ho,hclosed.calls.le,fun _ => hclosed.settled⟩

/-! ### Until the end -/

theorem closed_of_kept (hcloser : s.closer.closed = false) (hcalls : s.closeCalls = 0)
    (hkept : Kept k s) (close : Option String) : Closed k (s.closeUpstream close) := by
  rw [closeUpstream_open hcloser]
  exact ⟨rfl,by rw [hcalls],hkept⟩

theorem closeAndRecord_open (hcloser : s.closer.closed = false) (hcalls : s.closeCalls = 0)
    (houtcome : s.overrideOutcome = none ∧ s.parser.outcome = none) (close : Option String) {state : StreamState}
    (hstate : state ≠ .success) (detail : Option String) : Closed k (s.closeAndRecord k close state detail) := by
  rw [closeAndRecord,closeUpstream_open hcloser,if_pos houtcome]
  exact ⟨rfl,by rw [hcalls],Or.inl ⟨_,rfl,hstate⟩⟩

theorem kept_of_failed (hover : s.overrideOutcome = none) (h : FailedLog s.parser.toEventLog) :
    Kept k s := by
  obtain ⟨o,ho,hstate⟩ := h
  refine Or.inr ⟨hover,o,ho,fun hs => ?_⟩
  rw [hstate] at hs
  cases hs

theorem terminal_of_success {q : SSETerminalParser} (h : (q.toEventLog.ending k).1 = .success) : q.terminal k = true := by
  rw [EventLog.ending] at h
  rw [terminal]
  cases hsurface : k.surface with
  | chat =>
    rw [hsurface] at h
    simp only at h ⊢
    by_contra hnot
    rw [if_neg hnot] at h
    cases h
  | responses =>
    rw [hsurface] at h
    cases hterminal : q.responsesTerminal with
    | none =>
      rw [hterminal] at h
      cases h
    | some type => rfl

theorem conclude_cases (q : SSETerminalParser) :
    ∃ p o, (q.lift (q.toEventLog.conclude k) = .ok p ∨
        ∃ message, q.lift (q.toEventLog.conclude k) = .error (.protocol message,p)) ∧
      p.outcome = some o ∧ o.state = (q.toEventLog.ending k).1 ∧ p.terminal k = q.terminal k := by
  rw [EventLog.conclude]
  obtain ⟨state,detail,terminalEvent⟩ := q.toEventLog.ending k
  cases detail with
  | none => exact ⟨_,_,Or.inl rfl,rfl,rfl,rfl⟩
  | some message => exact ⟨_,_,Or.inr ⟨message,rfl⟩,rfl,rfl,rfl⟩

theorem Unsettled.step (h : Unsettled k s) (call : StreamCall) :
    (Calm k s call ∧ Unsettled k (callStep k s call) ∧ ¬Settling k s call) ∨
      (Calm k s call ∧ Closed k (callStep k s call)) ∨
      (¬Calm k s call ∧ Settling k s call ∧ (callStep k s call).closeCalls = 0) := by
  have hopen : s.overrideOutcome = none ∧ s.parser.outcome = none := ⟨h.override,h.reads.outcome⟩
  cases call with
  | close close =>
    refine Or.inr (Or.inl ⟨trivial,?_⟩)
    rw [callStep,aclose,if_neg (Bool.eq_false_iff.mp h.closed)]
    exact closeAndRecord_open (s := {s with closed := true}) h.closer h.calls hopen close (fun hs => by cases hs) none
  | next upstream close =>
    cases upstream with
    | cancelled =>
      exact Or.inr (Or.inl ⟨trivial,closeAndRecord_open h.closer h.calls hopen close (fun hs => by cases hs) none⟩)
    | error name =>
      exact Or.inr (Or.inl ⟨trivial,closeAndRecord_open h.closer h.calls hopen close (fun hs => by cases hs) (some name)⟩)
    | stop =>
      rcases finalize_cases h.reads with ⟨⟨message,p,hfinal,hfailed⟩,hrefused⟩ | ⟨p,hfinal,hnone,hcrash⟩ | ⟨t,q,hdecode,hfinal,hcloses⟩
      · refine Or.inr (Or.inl ⟨fun _ hcrash => not_ends_both hrefused hcrash,?_⟩)
        simp only [callStep,anext,hfinal]
        exact closed_of_kept (s := {s with upstreamEnded := true, parser := p}) h.closer h.calls
          (kept_of_failed h.override hfailed) close
      · refine Or.inr (Or.inr ⟨fun hcalm => hcalm h.outcome hcrash,?_,?_⟩)
        · intro c
          simp only [anext,hfinal]
          exact fun hc => by cases hc
        · simp only [callStep,anext,hfinal]
          exact h.calls
      · refine Or.inr (Or.inl ⟨fun _ hcrash => not_crashes_closed hcrash hdecode hcloses,?_⟩)
        obtain ⟨p,o,hconclude,ho,hstate,hterminal⟩ := conclude_cases (k := k) q
        have hkept : Kept k {s with upstreamEnded := true, parser := p} := by
          refine Or.inr ⟨h.override,o,ho,fun hs => ⟨?_,rfl⟩⟩
          exact hterminal.trans (terminal_of_success (hstate.symm.trans hs))
        rcases hconclude with hconclude | ⟨message,hconclude⟩
        · simp only [callStep,anext,hfinal.trans hconclude]
          exact closed_of_kept (s := {s with upstreamEnded := true, parser := p}) h.closer h.calls hkept close
        · simp only [callStep,anext,hfinal.trans hconclude]
          exact closed_of_kept (s := {s with upstreamEnded := true, parser := p}) h.closer h.calls hkept close
    | chunk c =>
      cases c with
      | other =>
        refine Or.inr (Or.inl ⟨trivial,?_⟩)
        obtain ⟨message,p,hfail,hfailed⟩ := failed_fail (k := k) "upstream stream yielded a non-byte chunk" h.reads.outcome
        have hfeed : s.parser.feedChunk k .other = .error (.protocol message,p) := by
          rw [feedChunk,if_neg (not_not.mpr h.reads.outcome)]
          exact hfail
        simp only [callStep,anext,hfeed]
        exact closed_of_kept (s := {s with yielded := s.yielded ++ Chunk.content .other, parser := p}) h.closer h.calls
          (kept_of_failed h.override hfailed) close
      | bytes c =>
        rcases feedChunk_cases (c := c) h.reads with ⟨p,hfeed,hp,hadmits⟩ | ⟨⟨message,p,hfeed,hfailed⟩,hwhy⟩ | ⟨p,hfeed,hnone,hadmits,hcrash⟩
        · refine Or.inl ⟨fun _ _ => (hp.sound.not_stops (List.prefix_refl _)).2,?_,?_⟩
          · simp only [callStep,anext,hfeed]
            exact ⟨hp,h.closer,h.calls,h.override,h.closed⟩
          · intro hsettling
            refine hsettling (.bytes c) ?_
            simp only [anext,hfeed]
        · refine Or.inr (Or.inl ⟨fun _ hadmits hcrash => ?_,?_⟩)
          · rcases hwhy with hnot | ⟨-,hstops⟩
            · exact hnot hadmits
            · exact not_stops_both hstops hcrash
          · simp only [callStep,anext,hfeed]
            exact closed_of_kept (s := {s with yielded := s.yielded ++ c, parser := p}) h.closer h.calls
              (kept_of_failed h.override hfailed) close
        · refine Or.inr (Or.inr ⟨fun hcalm => hcalm h.outcome hadmits hcrash,?_,?_⟩)
          · intro d
            simp only [anext,hfeed]
            exact fun hd => by cases hd
          · simp only [callStep,anext,hfeed]
            exact h.calls

theorem Unsettled.initial : Unsettled k {} := ⟨Reads.empty,rfl,rfl,rfl,rfl⟩

theorem endsOnce_iff (h : Unsettled k s ∨ Closed k s) (call : StreamCall) :
    (EndsOnce k s call ↔ Calm k s call) ∧
      (Calm k s call → Unsettled k (callStep k s call) ∨ Closed k (callStep k s call)) := by
  rcases h with h | h
  · have hnone : ∀ o, s.outcome = some o → (callStep k s call).outcome = some o := by
      intro o ho
      rw [h.outcome] at ho
      cases ho
    rcases h.step call with ⟨hcalm,hstep,hopen⟩ | ⟨hcalm,hstep⟩ | ⟨hcalm,hsettling,hcalls⟩
    · have hends : EndsOnce k s call := by
        refine ⟨hnone,?_,fun hs => absurd hs hopen⟩
        rw [hstep.calls]
        exact Nat.zero_le _
      exact ⟨⟨fun _ => hcalm,fun _ => hends⟩,fun _ => Or.inl hstep⟩
    · have hends : EndsOnce k s call := ⟨hnone,hstep.calls.le,fun _ => hstep.settled⟩
      exact ⟨⟨fun _ => hcalm,fun _ => hends⟩,fun _ => Or.inr hstep⟩
    · refine ⟨⟨fun hends => ?_,fun hc => absurd hc hcalm⟩,fun hc => absurd hc hcalm⟩
      have hone := (hends.settles hsettling).closed
      rw [hcalls] at hone
      cases hone
  · have hcalm : Calm k s call := by
      obtain ⟨o,ho,-⟩ := h.settled.outcome
      have hne : s.outcome ≠ none := by
        rw [ho]
        exact Option.some_ne_none _
      unfold Calm
      split
      · exact fun hnone => absurd hnone hne
      · exact fun hnone => absurd hnone hne
      · trivial
    exact ⟨⟨fun _ => hcalm,fun _ => h.endsOnce call⟩,fun _ => Or.inr (h.step call).1⟩

theorem runCalls_snoc (call : StreamCall) :
    runCalls k (calls ++ [call]) = callStep k (runCalls k calls) call := by
  rw [runCalls,List.foldl_append]
  rfl

theorem runCalls_kept {calls : List StreamCall}
    (h : ∀ pre call, pre ++ [call] <+: calls → Calm k (runCalls k pre) call) :
    Unsettled k (runCalls k calls) ∨ Closed k (runCalls k calls) := by
  induction calls using List.reverseRecOn with
  | nil => exact Or.inl Unsettled.initial
  | append_singleton calls call ih =>
    have hkept := ih fun pre c hle => h pre c (hle.trans (List.prefix_append _ _))
    rw [runCalls_snoc]
    exact (endsOnce_iff hkept call).2 (h calls call (List.prefix_refl _))

end Calls

/-- In a run of any calls every call ends the stream once, exactly when no call comes, with no
outcome recorded, to an event that cannot be read. -/
theorem one_outcome_one_close (k : Settings) (calls : List StreamCall) :
    (∀ pre call, pre ++ [call] <+: calls → EndsOnce k (runCalls k pre) call) ↔
      ∀ pre call, pre ++ [call] <+: calls → Calm k (runCalls k pre) call := by
  constructor
  · intro h
    induction calls using List.reverseRecOn with
    | nil =>
      intro pre call hle
      exact absurd (List.prefix_nil.mp hle) (List.append_ne_nil_of_right_ne_nil pre (List.cons_ne_nil call []))
    | append_singleton calls last ih =>
      have hcalm := ih fun pre c hle => h pre c (hle.trans (List.prefix_append _ _))
      intro pre call hle
      rcases List.prefix_concat_iff.mp hle with heq | hle
      · obtain ⟨rfl,hlast⟩ := List.append_inj' heq rfl
        cases hlast
        exact (endsOnce_iff (runCalls_kept hcalm) _).1.mp (h _ _ (List.prefix_refl _))
      · exact hcalm pre call hle
  · intro h pre call hle
    have hkept : Unsettled k (runCalls k pre) ∨ Closed k (runCalls k pre) := runCalls_kept fun pre' c hle' =>
      h pre' c (hle'.trans ((List.prefix_append pre [call]).trans hle))
    exact (endsOnce_iff hkept call).1.mpr (h pre call hle)

/-- A chunk with an event object whose type is a list leaves the upstream open and no outcome. -/
theorem odd_type_leaves_open : ¬∀ (k : Settings) (calls : List StreamCall) (pre : List StreamCall) (call : StreamCall),
    pre ++ [call] <+: calls → EndsOnce k (runCalls k pre) call := by
  intro h
  have hends := h oddSettings [.next (.chunk (.bytes oddStream)) none] [] _ (List.prefix_refl _)
  have hleft : ((runCalls oddSettings []).anext oddSettings none (.chunk (.bytes oddStream))).2 = .uncaught := by
    decide +kernel
  have hcalls : (callStep oddSettings (runCalls oddSettings []) (.next (.chunk (.bytes oddStream)) none)).closeCalls = 0 := by
    decide +kernel
  have hone := (hends.settles fun c => by rw [hleft]; exact fun hc => by cases hc).closed
  rw [hcalls] at hone
  cases hone

end Verdict.Stream

import Verdict.Stream.Parser

/-! # The grammar of a stream

What a text says to the parser, computed from the text alone: the texts of its events, how each
reads, which of them ends the stream and which finish reasons it gives. These are the parser's
fields after a text (`read_describes`), and it stops at a character exactly when the grammar
refuses it or an event cannot be read.
-/
namespace Verdict.Stream
open Sse (Text newline)
open Raising
open Sse (field joined openData size unfinished)
open Json (get)

def texts (t : Text) : List Text := (Sse.events t).map joined

def openText (t : Text) : Text := joined (openData t)

inductive Reading
  | done
  | object (fields : Fields)
  | bad
  | raises

def unhashable : Json → Bool
  | .arr _ => true
  | .obj _ => true
  | _ => false

section Grammar
variable (k : Settings)

def reading (d : Text) : Reading :=
  if k.surface = .chat ∧ d = doneText then .done
  else match k.loads d with
    | .raised => .raises
    | .invalid => .bad
    | .value (.obj fields) =>
      if k.surface = .responses ∧ unhashable (get fields "type") = true then .raises else .object fields
    | .value _ => .bad

def terminalType (fields : Fields) : Option String := match get fields "type" with
  | .str type => if type ∈ responsesTerminalTypes then some type else none
  | _ => none

def typeOf (d : Text) : Option String := match k.surface, reading k d with
  | .responses, .object fields => terminalType fields
  | _, _ => none

def reasonsOf (d : Text) : List String := match k.surface, reading k d with
  | .chat, .object fields => finishReasonsOf k fields
  | _, _ => []

def Ends (d : Text) : Prop := reading k d = .done ∨ typeOf k d ≠ none

def Faulty (before : List Text) (d : Text) : Prop :=
  k.maxEvents ≤ before.length ∨ (∃ e ∈ before, Ends k e) ∨ reading k d = .bad ∨
    (reading k d = .done ∧ before.flatMap (reasonsOf k) = [])

def Crashing (before : List Text) (d : Text) : Prop :=
  before.length < k.maxEvents ∧ (∀ e ∈ before, ¬Ends k e) ∧ reading k d = .raises

def Refuses (t : Text) (c : Char) : Prop :=
  k.maxBuffer < size (openData (t ++ [c])) ∨ ∃ d, texts (t ++ [c]) = texts t ++ [d] ∧ Faulty k (texts t) d

def Crashes (t : Text) (c : Char) : Prop := ∃ d, texts (t ++ [c]) = texts t ++ [d] ∧ Crashing k (texts t) d

structure Describes (t : Text) (s : Text × EventLog) : Prop where
  line : s.1 = unfinished t
  data : s.2.eventData = openData t
  pending : s.2.pending = size (openData t)
  held : size (openData t) ≤ k.maxBuffer
  events : s.2.events = (texts t).length
  done : s.2.done = true ↔ ∃ d ∈ texts t, reading k d = .done
  reasons : s.2.finishReasons = (texts t).flatMap (reasonsOf k)
  terminal : ∀ type, s.2.responsesTerminal = some type ↔ ∃ d ∈ texts t, typeOf k d = some type
  outcome : s.2.outcome = none

def FailedLog (log : EventLog) : Prop := ∃ o, log.outcome = some o ∧ o.state = .protocolError

variable {k}
variable {d : Text}

theorem not_faulty_of_crashing {before : List Text} (h : Crashing k before d) : ¬Faulty k before d := by
  obtain ⟨hcount,hends,hraises⟩ := h
  rintro (h | ⟨e,he,h⟩ | h | ⟨h,-⟩)
  · omega
  · exact hends e he h
  · rw [hraises] at h
    cases h
  · rw [hraises] at h
    cases h

theorem fail_failed (log : EventLog) (message : String) (h : log.outcome = none) :
    ∃ message' log', log.fail k message = .error (.protocol message',log') ∧ FailedLog log' := by
  refine ⟨_,_,rfl,_,rfl,?_⟩
  rw [h]
  rfl

/-! ### One event -/

structure Absorbs (k : Settings) (log : EventLog) (d : Text) (log' : EventLog) : Prop where
  data : log'.eventData = []
  pending : log'.pending = 0
  events : log'.events = log.events + 1
  done : log'.done = true ↔ reading k d = .done
  reasons : log'.finishReasons = log.finishReasons ++ reasonsOf k d
  terminal : log'.responsesTerminal = typeOf k d
  outcome : log'.outcome = log.outcome

def cleared (log : EventLog) : EventLog := {log with eventData := [], pending := 0, events := log.events + 1}

variable {fields : Fields}

theorem readResponses_hashable (log : EventLog) (h : unhashable (get fields "type") = false)
    (hnone : log.responsesTerminal = none) :
    ∃ usage, log.readResponses fields = .ok {log with responsesTerminal := terminalType fields, usage := usage} := by
  obtain ⟨eventData,pending,events,done,reasons,usage,models,responsesTerminal,outcome⟩ := log
  cases hnone
  rw [EventLog.readResponses,terminalType]
  cases htype : get fields "type" with
  | arr xs =>
    rw [htype] at h
    cases h
  | obj fs =>
    rw [htype] at h
    cases h
  | scalar value =>
    cases value with
    | str type =>
      simp only
      split
      · exact ⟨_,rfl⟩
      · exact ⟨_,rfl⟩
    | _ => exact ⟨_,rfl⟩

variable {log : EventLog}

theorem readResponses_unhashable (h : unhashable (get fields "type") = true) :
    log.readResponses fields = .error (.uncaught,log) := by
  rw [EventLog.readResponses]
  cases htype : get fields "type" with
  | arr xs => rfl
  | obj fs => rfl
  | scalar value =>
    rw [htype] at h
    cases h

def RefusesEvent (k : Settings) (log : EventLog) : Prop :=
  k.maxEvents ≤ log.events ∨ log.done = true ∨ log.responsesTerminal ≠ none ∨
    reading k (joined log.eventData) = .bad ∨
    (reading k (joined log.eventData) = .done ∧ log.finishReasons = [])

structure Looks (k : Settings) (log : EventLog) : Prop where
  count : log.events < k.maxEvents
  done : log.done = false
  terminal : log.responsesTerminal = none

theorem finishEvent_looks (h : Looks k log) :
    log.finishEvent k = match reading k (joined log.eventData) with
      | .done =>
        if log.finishReasons = [] then
          {cleared log with done := true}.fail k "chat stream ended with [DONE] but no finish_reason"
        else .ok {cleared log with done := true}
      | .raises => .error (.uncaught,cleared log)
      | .bad => match k.loads (joined log.eventData) with
        | .invalid => (cleared log).fail k "stream event was not valid JSON"
        | _ => (cleared log).fail k "stream event must be a JSON object"
      | .object fields => match k.surface with
        | .responses => (cleared log).readResponses fields
        | .chat => .ok ((cleared log).readChat k fields) := by
  have hcount : ¬log.events + 1 > k.maxEvents := Nat.not_lt.mpr h.count
  have hopen : ¬(log.done = true ∨ log.responsesTerminal ≠ none) := by
    rw [h.done,h.terminal]
    simp
  unfold EventLog.finishEvent reading
  simp only
  rw [if_neg hcount,if_neg hopen]
  split
  · rfl
  · cases hloads : k.loads (joined log.eventData) with
    | raised => rfl
    | invalid => rfl
    | value j =>
      cases j with
      | scalar value => rfl
      | arr xs => rfl
      | obj fields =>
        simp only
        cases hsurface : k.surface with
        | chat => rfl
        | responses =>
          by_cases htype : unhashable (get fields "type") = true
          · simp only [htype,and_self,if_true]
            exact readResponses_unhashable htype
          · simp only [htype]
            rfl

theorem reading_object (hsurface : k.surface = .responses)
    (h : reading k d = .object fields) : unhashable (get fields "type") = false := by
  rw [reading] at h
  split at h
  · cases h
  · split at h
    · cases h
    · cases h
    · split at h
      · cases h
      · rename_i hhash
        cases h
        exact Bool.eq_false_iff.mpr fun htype => hhash ⟨hsurface,htype⟩
    · cases h

theorem finishEvent_cases (log : EventLog) (houtcome : log.outcome = none) :
    (∃ message log', log.finishEvent k = .error (.protocol message,log') ∧ FailedLog log' ∧ RefusesEvent k log)
    ∨
    (log.finishEvent k = .error (.uncaught,cleared log) ∧ Looks k log ∧ reading k (joined log.eventData) = .raises)
    ∨ ∃ log', log.finishEvent k = .ok log' ∧ Looks k log ∧ ¬RefusesEvent k log ∧ reading k
    (joined log.eventData) ≠ .raises ∧ Absorbs k log (joined log.eventData) log' := by
  by_cases hcount : k.maxEvents ≤ log.events
  · left
    obtain ⟨message,log',hfail,hfailed⟩ :=
      fail_failed (k := k) (cleared log) "stream exceeded its event limit" houtcome
    refine ⟨message,log',?_,hfailed,.inl hcount⟩
    rw [EventLog.finishEvent,if_pos (Nat.lt_succ_of_le hcount)]
    exact hfail
  have hlt : log.events < k.maxEvents := Nat.lt_of_not_le hcount
  by_cases hopen : log.done = true ∨ log.responsesTerminal ≠ none
  · left
    obtain ⟨message,log',hfail,hfailed⟩ :=
      fail_failed (k := k) (cleared log) "stream emitted data after its terminal event" houtcome
    refine ⟨message,log',?_,hfailed,.inr (hopen.elim .inl fun h => .inr (.inl h))⟩
    rw [EventLog.finishEvent,if_neg (Nat.not_lt.mpr hlt),if_pos hopen]
    exact hfail
  have hlooks : Looks k log := by
    refine ⟨hlt,?_,?_⟩
    · exact Bool.eq_false_iff.mpr fun h => hopen (.inl h)
    · exact not_not.mp fun h => hopen (.inr h)
  have hrefuses : RefusesEvent k log ↔ reading k (joined log.eventData) = .bad ∨
      (reading k (joined log.eventData) = .done ∧ log.finishReasons = []) := by
    simp only [RefusesEvent,hcount,hlooks.done,hlooks.terminal,false_or,ne_eq,not_true_eq_false,Bool.false_eq_true]
  have hlook := finishEvent_looks hlooks
  cases hread : reading k (joined log.eventData) with
  | raises =>
    rw [hread] at hlook
    exact .inr (.inl ⟨hlook,hlooks,rfl⟩)
  | bad =>
    left
    have href : RefusesEvent k log := hrefuses.mpr (.inl hread)
    rw [hread] at hlook
    simp only at hlook
    split at hlook
    · obtain ⟨message,log',hfail,hfailed⟩ :=
        fail_failed (k := k) (cleared log) "stream event was not valid JSON" houtcome
      exact ⟨message,log',hlook.trans hfail,hfailed,href⟩
    · obtain ⟨message,log',hfail,hfailed⟩ :=
        fail_failed (k := k) (cleared log) "stream event must be a JSON object" houtcome
      exact ⟨message,log',hlook.trans hfail,hfailed,href⟩
  | done =>
    have htype : typeOf k (joined log.eventData) = none := by
      rw [typeOf,hread]
      cases k.surface <;> rfl
    have hnone : reasonsOf k (joined log.eventData) = [] := by
      rw [reasonsOf,hread]
      cases k.surface <;> rfl
    rw [hread] at hlook
    simp only at hlook
    by_cases hreasons : log.finishReasons = []
    · left
      rw [if_pos hreasons] at hlook
      obtain ⟨message,log',hfail,hfailed⟩ := fail_failed (k := k) {cleared log with done := true}
        "chat stream ended with [DONE] but no finish_reason" houtcome
      exact ⟨message,log',hlook.trans hfail,hfailed,hrefuses.mpr (.inr ⟨hread,hreasons⟩)⟩
    · right
      right
      rw [if_neg hreasons] at hlook
      refine ⟨_,hlook,hlooks,?_,?_,rfl,rfl,rfl,⟨fun _ => hread,fun _ => rfl⟩,?_,?_,rfl⟩
      · rw [hrefuses,hread]
        rintro (h | ⟨-,h⟩)
        · cases h
        · exact hreasons h
      · intro h
        cases h
      · rw [hnone,List.append_nil]
        rfl
      · rw [htype]
        exact hlooks.terminal
  | object fields =>
    right
    right
    have hdone : log.done = true ↔ reading k (joined log.eventData) = .done := by
      rw [hlooks.done,hread]
      constructor <;> exact fun h => by cases h
    have haccepted : ¬RefusesEvent k log ∧ Reading.object fields ≠ .raises := by
      rw [hrefuses,hread]
      constructor
      · rintro (h | ⟨h,-⟩)
        · cases h
        · cases h
      · exact fun h => by cases h
    rw [hread] at hlook
    simp only at hlook
    cases hsurface : k.surface with
    | chat =>
      rw [hsurface] at hlook
      refine ⟨_,hlook,hlooks,haccepted.1,haccepted.2,rfl,rfl,rfl,hdone,?_,?_,rfl⟩
      · rw [reasonsOf,hsurface,hread]
        rfl
      · rw [typeOf,hsurface,hread]
        exact hlooks.terminal
    | responses =>
      rw [hsurface] at hlook
      obtain ⟨usage,hresp⟩ :=
        readResponses_hashable (cleared log) (reading_object hsurface hread) hlooks.terminal
      refine ⟨_,hlook.trans hresp,hlooks,haccepted.1,haccepted.2,rfl,rfl,rfl,hdone,?_,?_,rfl⟩
      · rw [reasonsOf,hsurface,hread,List.append_nil]
        rfl
      · rw [typeOf,hsurface,hread]

/-! ### One character -/

theorem consumeLine_field (log : EventLog) (line : Text) :
    log.consumeLine k line = match field line with
      | .blank => if log.eventData ≠ [] then log.finishEvent k else .ok log
      | .data value =>
        if log.pending + value.length > k.maxBuffer then log.fail k "stream aggregate event exceeded its limit"
        else .ok {log with eventData := log.eventData ++ [value], pending := log.pending + value.length}
      | .other => .ok log := by
  rw [EventLog.consumeLine,field]
  by_cases hline : line = []
  · rw [if_pos hline,if_pos hline]
  · rw [if_neg hline,if_neg hline]
    by_cases hcomment : line.head? = some ':'
    · have hkey : ¬Sse.dataKey.isPrefixOf line = true := by
        obtain ⟨rest,rfl⟩ : ∃ rest, line = ':' :: rest := List.head?_eq_some_iff.mp hcomment
        simp [Sse.dataKey,List.isPrefixOf]
      rw [if_pos hcomment,if_neg hkey]
    · rw [if_neg hcomment]
      split <;> rfl

variable {t u : Text}

theorem texts_same (h : Sse.events u = Sse.events t) : texts u = texts t := by
  rw [texts,h,texts]

theorem texts_grown {data : List Text} (h : Sse.events u = Sse.events t ++ [data]) :
    texts u = texts t ++ [joined data] := by
  rw [texts,h,List.map_append,List.map_singleton,texts]

theorem Describes.empty : Describes k [] ([],{}) := by
  refine ⟨rfl,rfl,rfl,Nat.zero_le _,rfl,?_,rfl,?_,rfl⟩
  · simp [texts]
  · intro type
    simp [texts]

variable {s : Text × EventLog}

theorem Describes.same {s' : Text × EventLog} (h : Describes k t s) (hevents : Sse.events u = Sse.events t)
    (hline : s'.1 = unfinished u) (hdata : s'.2.eventData = openData u)
    (hpending : s'.2.pending = size (openData u)) (hheld : size (openData u) ≤ k.maxBuffer)
    (hlog : cleared s'.2 = cleared s.2) : Describes k u s' := by
  have htexts := texts_same hevents
  have hcount : s'.2.events = s.2.events := Nat.add_right_cancel (congrArg EventLog.events hlog)
  have hdone : s'.2.done = s.2.done := by
    have hl := congrArg EventLog.done hlog
    exact hl
  have hreasons : s'.2.finishReasons = s.2.finishReasons := by
    have hl := congrArg EventLog.finishReasons hlog
    exact hl
  have hterminal : s'.2.responsesTerminal = s.2.responsesTerminal := by
    have hl := congrArg EventLog.responsesTerminal hlog
    exact hl
  have houtcome : s'.2.outcome = s.2.outcome := by
    have hl := congrArg EventLog.outcome hlog
    exact hl
  refine ⟨hline,hdata,hpending,hheld,?_,?_,?_,?_,houtcome.trans h.outcome⟩
  · rw [hcount,h.events,htexts]
  · rw [hdone,h.done,htexts]
  · rw [hreasons,h.reasons,htexts]
  · intro type
    rw [hterminal,h.terminal,htexts]

theorem Describes.refusesEvent (h : Describes k t s) :
    RefusesEvent k s.2 ↔ Faulty k (texts t) (openText t) := by
  rw [RefusesEvent,Faulty,h.events,h.data,h.reasons,openText]
  have hends : (∃ e ∈ texts t, Ends k e) ↔ s.2.done = true ∨ s.2.responsesTerminal ≠ none := by
    constructor
    · rintro ⟨e,he,hdone | htype⟩
      · exact .inl (h.done.mpr ⟨e,he,hdone⟩)
      · obtain ⟨type,htype⟩ := Option.ne_none_iff_exists'.mp htype
        right
        rw [(h.terminal type).mpr ⟨e,he,htype⟩]
        exact Option.some_ne_none _
    · rintro (hdone | hterminal)
      · obtain ⟨e,he,hread⟩ := h.done.mp hdone
        exact ⟨e,he,.inl hread⟩
      · obtain ⟨type,hterminal⟩ := Option.ne_none_iff_exists'.mp hterminal
        obtain ⟨e,he,htype⟩ := (h.terminal type).mp hterminal
        refine ⟨e,he,.inr ?_⟩
        rw [htype]
        exact Option.some_ne_none _
  rw [hends,or_assoc]

theorem Describes.looks (h : Describes k t s) :
    Looks k s.2 ↔ (texts t).length < k.maxEvents ∧ ∀ e ∈ texts t, ¬Ends k e := by
  constructor
  · rintro ⟨hcount,hdone,hterminal⟩
    refine ⟨h.events ▸ hcount,fun e he hends => ?_⟩
    rcases hends with hread | htype
    · exact Bool.false_ne_true (hdone.symm.trans (h.done.mpr ⟨e,he,hread⟩))
    · obtain ⟨type,htype⟩ := Option.ne_none_iff_exists'.mp htype
      have hsome := (h.terminal type).mpr ⟨e,he,htype⟩
      rw [hterminal] at hsome
      cases hsome
  · rintro ⟨hcount,hends⟩
    refine ⟨h.events.symm ▸ hcount,?_,?_⟩
    · refine Bool.eq_false_iff.mpr fun hdone => ?_
      obtain ⟨e,he,hread⟩ := h.done.mp hdone
      exact hends e he (.inl hread)
    · cases hterminal : s.2.responsesTerminal with
      | none => rfl
      | some type =>
        obtain ⟨e,he,htype⟩ := (h.terminal type).mp hterminal
        refine absurd (.inr ?_) (hends e he)
        rw [htype]
        exact Option.some_ne_none _

theorem Describes.ended (h : Describes k t s) (hlooks : Looks k s.2)
    (habsorbs : Absorbs k s.2 (openText t) log) :
    (log.done = true ↔ ∃ d ∈ texts t ++ [openText t], reading k d = .done) ∧ ∀ type, log.responsesTerminal =
    some type ↔ ∃ d ∈ texts t ++ [openText t], typeOf k d = some type := by
  obtain ⟨-,hends⟩ := h.looks.mp hlooks
  simp only [List.mem_append,List.mem_singleton,or_and_right,exists_or,exists_eq_left]
  rw [habsorbs.done,habsorbs.terminal]
  constructor
  · constructor
    · exact .inr
    · rintro (⟨e,he,hread⟩ | hread)
      · exact absurd (.inl hread) (hends e he)
      · exact hread
  · intro type
    constructor
    · exact .inr
    · rintro (⟨e,he,htype⟩ | htype)
      · refine absurd (.inr ?_) (hends e he)
        rw [htype]
        exact Option.some_ne_none _
      · exact htype

theorem Describes.absorbs (h : Describes k t s)
    (hlooks : Looks k s.2) (habsorbs : Absorbs k s.2 (openText t) log) (htexts : texts u = texts t ++ [openText t])
    (hline : unfinished u = []) (hdata : openData u = []) : Describes k u ([],log) := by
  obtain ⟨hdone,hterminal⟩ := h.ended hlooks habsorbs
  refine ⟨hline.symm,?_,?_,?_,?_,?_,?_,?_,habsorbs.outcome.trans h.outcome⟩
  · rw [hdata]
    exact habsorbs.data
  · rw [hdata]
    exact habsorbs.pending
  · rw [hdata]
    exact Nat.zero_le _
  · rw [htexts,List.length_append,← h.events]
    exact habsorbs.events
  · rw [htexts]
    exact hdone
  · rw [htexts,List.flatMap_append,List.flatMap_singleton,← h.reasons]
    exact habsorbs.reasons
  · rw [htexts]
    exact hterminal

variable {c : Char}

theorem unbroken (hevents : Sse.events (t ++ [c]) = Sse.events t)
    (hheld : size (openData (t ++ [c])) ≤ k.maxBuffer) : ¬Refuses k t c ∧ ¬Crashes k t c := by
  have hnone : ∀ d, texts (t ++ [c]) ≠ texts t ++ [d] := by
    intro d h
    rw [texts_same hevents] at h
    exact List.cons_ne_nil d [] (List.append_right_eq_self.mp h.symm)
  constructor
  · rintro (h | ⟨d,h,-⟩)
    · exact absurd h (Nat.not_lt.mpr hheld)
    · exact hnone d h
  · rintro ⟨d,h,-⟩
    exact hnone d h

theorem broken_iff (htexts : texts (t ++ [c]) = texts t ++ [openText t])
    (hdata : openData (t ++ [c]) = []) :
    (Refuses k t c ↔ Faulty k (texts t) (openText t)) ∧ (Crashes k t c ↔ Crashing k (texts t) (openText t)) := by
  have hlast : ∀ d, texts (t ++ [c]) = texts t ++ [d] ↔ openText t = d := by
    intro d
    rw [htexts,List.append_cancel_left_eq,List.cons.injEq,and_iff_left rfl]
  constructor
  · rw [Refuses,hdata,Sse.size_nil]
    simp only [hlast,exists_eq_left',Nat.not_lt_zero,false_or]
  · simp only [Crashes,hlast,exists_eq_left']

theorem readChar_cases (h : Describes k t s) (c : Char) :
    (∃ s', readChar k s c = .ok s' ∧ Describes k (t ++ [c]) s' ∧ ¬Refuses k t c ∧ ¬Crashes k t c) ∨
    (∃ message log, readChar k s c = .error (.protocol message,log) ∧ FailedLog log ∧ Refuses k t c) ∨ ∃
    log, readChar k s c = .error (.uncaught,log) ∧ log.outcome = none ∧ Crashes k t c := by
  obtain ⟨line,log⟩ := s
  have hline : line = unfinished t := h.line
  have hdata : log.eventData = openData t := h.data
  have hpending : log.pending = size (openData t) := h.pending
  by_cases hc : c = newline
  · subst hc
    rw [readChar_newline,hline,consumeLine_field]
    cases hfield : field (Sse.rstripReturn (unfinished t)) with
    | blank =>
      simp only
      by_cases hopen : openData t = []
      · obtain ⟨hevents,hnone⟩ := Sse.events_blank_empty hfield hopen
        have hheld : size (openData (t ++ [newline])) ≤ k.maxBuffer := by
          rw [hnone]
          exact Nat.zero_le _
        rw [if_neg (not_not.mpr (hdata.trans hopen))]
        refine .inl ⟨_,rfl,h.same hevents ?_ ?_ ?_ hheld rfl,unbroken hevents hheld⟩
        · exact (Sse.unfinished_newline t).symm
        · rw [hnone]
          exact hdata.trans hopen
        · rw [hnone,← hopen]
          exact hpending
      · obtain ⟨hevents,hnone⟩ := Sse.events_blank hfield hopen
        have htexts := texts_grown hevents
        obtain ⟨hrefuses,hcrashes⟩ := broken_iff (k := k) htexts hnone
        rw [if_pos (hdata ▸ hopen),hrefuses,hcrashes,← h.refusesEvent]
        have htext : joined log.eventData = openText t := by
          rw [hdata,openText]
        rcases finishEvent_cases (k := k) log h.outcome with
          ⟨message,log',hfinish,hfailed,href⟩ | ⟨hfinish,hlooks,hread⟩ | ⟨log',hfinish,hlooks,href,hread,habsorbs⟩
        · rw [hfinish]
          exact .inr (.inl ⟨message,log',rfl,hfailed,href⟩)
        · rw [hfinish]
          rw [htext] at hread
          obtain ⟨hcount,hends⟩ := h.looks.mp hlooks
          exact .inr (.inr ⟨_,rfl,h.outcome,hcount,hends,hread⟩)
        · rw [hfinish]
          rw [htext] at hread habsorbs
          refine .inl ⟨_,rfl,?_,href,fun hcrash => hread hcrash.2.2⟩
          exact h.absorbs hlooks habsorbs htexts (Sse.unfinished_newline t) hnone
    | data value =>
      simp only
      obtain ⟨hevents,hgrown⟩ := Sse.events_data hfield
      have hsize : size (openData (t ++ [newline])) = log.pending + value.length := by
        rw [hgrown,Sse.size_snoc,hpending]
      by_cases hlimit : log.pending + value.length > k.maxBuffer
      · rw [if_pos hlimit]
        obtain ⟨message,log',hfail,hfailed⟩ :=
          fail_failed (k := k) _ "stream aggregate event exceeded its limit" h.outcome
        rw [hfail]
        exact .inr (.inl ⟨message,log',rfl,hfailed,.inl (hsize ▸ hlimit)⟩)
      · have hheld : size (openData (t ++ [newline])) ≤ k.maxBuffer := hsize ▸ Nat.not_lt.mp hlimit
        rw [if_neg hlimit]
        refine .inl ⟨_,rfl,h.same hevents ?_ ?_ hsize.symm hheld rfl,unbroken hevents hheld⟩
        · exact (Sse.unfinished_newline t).symm
        · rw [hgrown,← hdata]
    | other =>
      simp only
      obtain ⟨hevents,hsame⟩ := Sse.events_other hfield
      have hheld : size (openData (t ++ [newline])) ≤ k.maxBuffer := hsame ▸ h.held
      refine .inl ⟨_,rfl,h.same hevents ?_ ?_ ?_ hheld rfl,unbroken hevents hheld⟩
      · exact (Sse.unfinished_newline t).symm
      · exact hdata.trans hsame.symm
      · rw [hsame]
        exact hpending
  · have hheld : size (openData (t ++ [c])) ≤ k.maxBuffer := (Sse.openData_char t hc).symm ▸ h.held
    rw [readChar_char _ hc]
    refine .inl ⟨_,rfl,h.same (Sse.events_char t hc) ?_ ?_ ?_ hheld rfl,unbroken (Sse.events_char t hc) hheld⟩
    · rw [Sse.unfinished_char t hc,← hline]
    · exact hdata.trans (Sse.openData_char t hc).symm
    · rw [Sse.openData_char t hc]
      exact hpending

/-! ### A text -/

/-- Every character of a text keeps the rules, and every event of it can be read. -/
def Sound (k : Settings) (t : Text) : Prop := ∀ u c, u ++ [c] <+: t → ¬Refuses k u c ∧ ¬Crashes k u c

theorem Sound.of_prefix (h : Sound k t) (hu : u <+: t) : Sound k u :=
  fun v c hv => h v c (hv.trans hu)

theorem sound_snoc : Sound k (t ++ [c]) ↔ Sound k t ∧ ¬Refuses k t c ∧ ¬Crashes k t c := by
  constructor
  · intro h
    exact ⟨h.of_prefix (List.prefix_append t [c]),h t c (List.prefix_refl _)⟩
  · rintro ⟨ht,hc⟩ u d hu
    rcases List.prefix_concat_iff.mp hu with hu | hu
    · obtain ⟨rfl,hd⟩ := List.append_inj' hu rfl
      cases hd
      exact hc
    · exact ht u d hu

theorem read_describes (h : t.foldlM (readChar k) ([],{}) = .ok s) : Describes k t s ∧ Sound k t := by
  induction t using List.reverseRecOn generalizing s with
  | nil =>
    cases h
    refine ⟨Describes.empty,fun u c hu => ?_⟩
    exact absurd (List.prefix_nil.mp hu) (List.append_ne_nil_of_right_ne_nil u (List.cons_ne_nil c []))
  | append_singleton t c ih =>
    obtain ⟨m,hread,hstep⟩ := foldlM_snoc_ok.mp h
    obtain ⟨hm,hsound⟩ := ih hread
    rcases readChar_cases hm c with ⟨s',hchar,hs',hkept⟩ | ⟨message,log,hchar,-⟩ | ⟨log,hchar,-⟩
    · rw [hchar] at hstep
      cases hstep
      exact ⟨hs',sound_snoc.mpr ⟨hsound,hkept⟩⟩
    · rw [hchar] at hstep
      cases hstep
    · rw [hchar] at hstep
      cases hstep

theorem read_sound (h : Sound k t) : ∃ s, t.foldlM (readChar k) ([],{}) = .ok s := by
  induction t using List.reverseRecOn with
  | nil => exact ⟨_,rfl⟩
  | append_singleton t c ih =>
    obtain ⟨ht,hrefuses,hcrashes⟩ := sound_snoc.mp h
    obtain ⟨m,hread⟩ := ih ht
    obtain ⟨hm,-⟩ := read_describes hread
    rcases readChar_cases hm c with ⟨s',hchar,-⟩ | ⟨_,_,-,-,href⟩ | ⟨_,-,-,hcrash⟩
    · exact ⟨s',foldlM_snoc_ok.mpr ⟨m,hread,hchar⟩⟩
    · exact absurd href hrefuses
    · exact absurd hcrash hcrashes

theorem read_stops {raised : Raised} (h : t.foldlM (readChar k) ([],{}) = .error (raised,log)) :
    ∃ u c, u ++ [c] <+: t ∧ Sound k u ∧
      (((∃ message, raised = .protocol message) ∧ FailedLog log ∧ Refuses k u c) ∨
        (raised = .uncaught ∧ log.outcome = none ∧ Crashes k u c)) := by
  obtain ⟨u,c,v,m,rfl,hread,hstep⟩ := foldlM_error.mp h
  obtain ⟨hm,hsound⟩ := read_describes hread
  have hstart : u ++ [c] <+: u ++ c :: v := ⟨v,(List.append_cons u c v).symm⟩
  refine ⟨u,c,hstart,hsound,?_⟩
  rcases readChar_cases hm c with ⟨_,hchar,-⟩ | ⟨message,log',hchar,hfailed,href⟩ | ⟨log',hchar,hnone,hcrash⟩
  · rw [hchar] at hstep
    cases hstep
  · rw [hchar] at hstep
    cases hstep
    exact .inl ⟨⟨message,rfl⟩,hfailed,href⟩
  · rw [hchar] at hstep
    cases hstep
    exact .inr ⟨rfl,hnone,hcrash⟩

theorem not_refuses_of_crashes (h : Crashes k t c) : ¬Refuses k t c := by
  obtain ⟨d,htexts,hcrash⟩ := h
  rcases Sse.events_snoc t c with hsame | ⟨rfl,hblank,hopen,hgrown⟩
  · rw [texts_same hsame] at htexts
    exact absurd (List.append_right_eq_self.mp htexts.symm) (List.cons_ne_nil d [])
  · obtain ⟨-,hnone⟩ := Sse.events_blank hblank hopen
    have hlast := texts_grown hgrown
    obtain ⟨-,hd⟩ := List.append_inj' (hlast.symm.trans htexts) rfl
    cases hd
    rw [(broken_iff hlast hnone).1]
    exact not_faulty_of_crashing hcrash

end Grammar
end Verdict.Stream

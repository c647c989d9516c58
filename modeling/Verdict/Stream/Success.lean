import Verdict.Stream.Recutting

/-! # Checked success

A good stream is described by its text alone: every event is an object, or the single end
marker of a chat, within the limits, and the one that ends the stream comes last and ends it
well. A stream is checked as a success exactly when it is good and no event of a responses
stream has a list or an object as its type.
-/
namespace Verdict.Stream
open Sse (Text newline)
open List (append_assoc append_inj' append_of_mem length_append mem_append mem_append_right
  mem_singleton prefix_append prefix_concat_iff prefix_refl reverseRecOn)
open Json (get)
open Sse (events joined openData size)

section Good
variable (k : Settings)

def finalEvents (t : Text) : List (List Text) := if openData t = [] then events t else events t ++ [openData t]

def ObjectText (d : Text) (fields : Fields) : Prop := k.loads d = .value (.obj fields)

def HasReason (fields : Fields) : Prop :=
  ∃ choices, get fields "choices" = .arr choices ∧ ∃ choice, Json.obj choice ∈ choices ∧
    get choice "finish_reason" ≠ .null

def HasType (d : Text) (type : String) : Prop := ∃ fields, ObjectText k d fields ∧ get fields "type" = .str type

def GoodOrder (ds : List Text) : Prop := match k.surface with
  | .chat => ∃ before, ds = before ++ [doneText] ∧ doneText ∉ before ∧
      ∃ d ∈ before, ∃ fields, ObjectText k d fields ∧ HasReason fields
  | .responses => ∃ before d, ds = before ++ [d] ∧ HasType k d "response.completed" ∧
      ∀ e ∈ before, ∀ type ∈ responsesTerminalTypes, ¬HasType k e type

structure GoodText (t : Text) : Prop where
  held : ∀ data ∈ finalEvents t, size data ≤ k.maxBuffer
  count : (finalTexts t).length ≤ k.maxEvents
  read : ∀ d ∈ finalTexts t, (k.surface = .chat ∧ d = doneText) ∨ ∃ fields, ObjectText k d fields
  order : GoodOrder k (finalTexts t)

/-- A good stream: every chunk is within the limits, the bytes are UTF-8, and the text is good. -/
structure GoodStream (chunks : List (List UInt8)) : Prop where
  admitted : ∀ pre c post, chunks = pre ++ c :: post → Admits k pre.flatten c
  text : ∃ t, Utf8.decode .start chunks.flatten = some (.start,t) ∧ GoodText k t

variable (chunks : List (List UInt8))

def HashableTypes : Prop :=
  ∀ t, Utf8.decode .start chunks.flatten = some (.start,t) → ∀ d ∈ finalTexts t, ∀ fields, k.surface = .responses →
    ObjectText k d fields → unhashable (get fields "type") = false

/-- The outcome of the stream is `SUCCESS`. -/
def Checked : Prop := ∃ o, ended k chunks = some o ∧ o.state = .success

variable {k}

/-! ### Readings -/

theorem finalTexts_eq (t : Text) : finalTexts t = (finalEvents t).map joined := by
  rw [finalTexts,finalEvents]
  split
  · rfl
  · rw [List.map_append]
    rfl

variable {d : Text}

theorem reading_done : reading k d = .done ↔ k.surface = .chat ∧ d = doneText := by
  rw [reading]
  split
  · exact ⟨fun _ => ‹_›,fun _ => rfl⟩
  · refine ⟨fun h => ?_,fun h => absurd h ‹_›⟩
    split at h
    · cases h
    · cases h
    · split at h <;> cases h
    · cases h

variable {fields : Fields}

theorem reading_object_iff : reading k d = .object fields ↔ ¬(k.surface = .chat ∧ d = doneText) ∧ ObjectText
    k d fields ∧ ¬(k.surface = .responses ∧ unhashable (get fields "type") = true) := by
  rw [reading,ObjectText]
  by_cases hdone : k.surface = .chat ∧ d = doneText
  · rw [if_pos hdone]
    exact ⟨fun h => (by cases h),fun h => absurd hdone h.1⟩
  · rw [if_neg hdone]
    cases hloads : k.loads d with
    | raised => exact ⟨fun h => (by cases h),fun h => (by cases h.2.1)⟩
    | invalid => exact ⟨fun h => (by cases h),fun h => (by cases h.2.1)⟩
    | value j =>
      cases j with
      | scalar s => exact ⟨fun h => (by cases h),fun h => (by cases h.2.1)⟩
      | arr xs => exact ⟨fun h => (by cases h),fun h => (by cases h.2.1)⟩
      | obj fs =>
        simp only
        by_cases hhash : k.surface = .responses ∧ unhashable (get fs "type") = true
        · rw [if_pos hhash]
          refine ⟨fun h => (by cases h),?_⟩
          rintro ⟨-,hobj,hno⟩
          cases hobj
          exact absurd hhash hno
        · rw [if_neg hhash]
          constructor
          · intro h
            cases h
            exact ⟨hdone,rfl,hhash⟩
          · rintro ⟨-,hobj,-⟩
            cases hobj
            rfl

theorem reading_kept (hbad : reading k d ≠ .bad) (hraises : reading k d ≠ .raises) :
    (k.surface = .chat ∧ d = doneText) ∨ ∃ fields, ObjectText k d fields ∧ reading k d = .object fields := by
  cases hread : reading k d with
  | done => exact .inl (reading_done.mp hread)
  | object fields => exact .inr ⟨fields,(reading_object_iff.mp hread).2.1,rfl⟩
  | bad => exact absurd hread hbad
  | raises => exact absurd hread hraises

theorem hasReason_iff : HasReason fields ↔ finishReasonsOf k fields ≠ [] := by
  rw [HasReason,finishReasonsOf]
  cases hchoices : get fields "choices" with
  | scalar s => exact ⟨fun ⟨_,h,_⟩ => (by cases h),fun h => absurd rfl h⟩
  | obj fs => exact ⟨fun ⟨_,h,_⟩ => (by cases h),fun h => absurd rfl h⟩
  | arr choices =>
    simp only [ne_eq,List.map_eq_nil_iff,List.filterMap_eq_nil_iff,not_forall]
    constructor
    · rintro ⟨_,hc,choice,hmem,hreason⟩
      cases hc
      refine ⟨_,hmem,?_⟩
      rw [choiceReason,if_neg hreason]
      exact Option.some_ne_none _
    · rintro ⟨choice,hmem,hreason⟩
      refine ⟨choices,rfl,?_⟩
      cases choice with
      | scalar s => exact absurd rfl hreason
      | arr xs => exact absurd rfl hreason
      | obj fs =>
        refine ⟨fs,hmem,fun hnull => hreason ?_⟩
        rw [choiceReason,if_pos hnull]

theorem typeOf_eq {type : String} : typeOf k d = some type ↔
    k.surface = .responses ∧ type ∈ responsesTerminalTypes ∧ HasType k d type := by
  have hnotdone : k.surface = .responses → ¬(k.surface = .chat ∧ d = doneText) := by
    rintro h ⟨hchat,-⟩
    rw [h] at hchat
    cases hchat
  constructor
  · intro h
    rw [typeOf] at h
    split at h
    · rename_i fields hsurface hread
      refine ⟨hsurface,?_⟩
      rw [terminalType] at h
      split at h
      · rename_i type' htype
        split at h
        · cases h
          exact ⟨‹_›,fields,(reading_object_iff.mp hread).2.1,htype⟩
        · cases h
      · cases h
    · cases h
  · rintro ⟨hsurface,hmem,fields,hobj,htype⟩
    have hread : reading k d = .object fields := by
      refine reading_object_iff.mpr ⟨hnotdone hsurface,hobj,?_⟩
      rintro ⟨-,hhash⟩
      rw [htype] at hhash
      cases hhash
    rw [typeOf,hsurface,hread]
    simp only [terminalType,htype]
    rw [if_pos hmem]

theorem ends_iff : Ends k d ↔ (k.surface = .chat ∧ d = doneText) ∨
    (k.surface = .responses ∧ ∃ type ∈ responsesTerminalTypes, HasType k d type) := by
  rw [Ends,reading_done,Option.ne_none_iff_exists']
  simp only [typeOf_eq]
  refine or_congr_right ⟨?_,?_⟩
  · rintro ⟨type,hsurface,hmem,htype⟩
    exact ⟨hsurface,type,hmem,htype⟩
  · rintro ⟨hsurface,type,hmem,htype⟩
    exact ⟨type,hsurface,hmem,htype⟩

theorem reasonsOf_ne_nil : reasonsOf k d ≠ [] ↔
    k.surface = .chat ∧ d ≠ doneText ∧ ∃ fields, ObjectText k d fields ∧ HasReason fields := by
  constructor
  · intro h
    rw [reasonsOf] at h
    split at h
    · rename_i fields hsurface hread
      obtain ⟨hdone,hobj,-⟩ := reading_object_iff.mp hread
      exact ⟨hsurface,fun hd => hdone ⟨hsurface,hd⟩,fields,hobj,hasReason_iff.mpr h⟩
    · exact absurd rfl h
  · rintro ⟨hsurface,hdone,fields,hobj,hreason⟩
    have hread : reading k d = .object fields := by
      refine reading_object_iff.mpr ⟨fun h => hdone h.2,hobj,fun h => ?_⟩
      rw [hsurface] at h
      cases h.1
    rw [reasonsOf,hsurface,hread]
    exact hasReason_iff.mp hreason

/-! ### The events of a sound text -/

def InOrder (k : Settings) (ds : List Text) : Prop :=
  ∀ before d, before ++ [d] <+: ds → ¬Faulty k before d ∧ ¬Crashing k before d

variable {ds : List Text}

theorem inOrder_snoc (h : InOrder k ds) (hd : ¬Faulty k ds d ∧ ¬Crashing k ds d) :
    InOrder k (ds ++ [d]) := by
  intro before e he
  rcases prefix_concat_iff.mp he with heq | hle
  · obtain ⟨rfl,hlast⟩ := append_inj' heq rfl
    cases hlast
    exact hd
  · exact h before e hle

variable {t : Text}

theorem Sound.inOrder (h : Sound k t) : InOrder k (texts t) := by
  induction t using reverseRecOn with
  | nil =>
    intro before d hle
    exact absurd (List.prefix_nil.mp hle) (List.append_ne_nil_of_right_ne_nil before (List.cons_ne_nil d []))
  | append_singleton t c ih =>
    obtain ⟨ht,hrefuses,hcrashes⟩ := sound_snoc.mp h
    rcases Sse.events_snoc t c with hsame | ⟨-,-,-,hgrown⟩
    · rw [texts_same hsame]
      exact ih ht
    · have htexts := texts_grown hgrown
      rw [htexts]
      refine inOrder_snoc (ih ht) ⟨fun hfaulty => hrefuses (.inr ⟨_,htexts,hfaulty⟩),fun hcrash => ?_⟩
      exact hcrashes ⟨_,htexts,hcrash⟩

theorem Sound.openData_held (h : Sound k t) : size (openData t) ≤ k.maxBuffer := by
  obtain ⟨s,hread⟩ := read_sound h
  exact (read_describes hread).1.held

theorem Sound.events_held (h : Sound k t) : ∀ data ∈ events t, size data ≤ k.maxBuffer := by
  induction t using reverseRecOn with
  | nil => exact fun data hdata => absurd hdata List.not_mem_nil
  | append_singleton t c ih =>
    obtain ⟨ht,-⟩ := sound_snoc.mp h
    intro data hdata
    rcases Sse.events_snoc t c with hsame | ⟨-,-,-,hgrown⟩
    · rw [hsame] at hdata
      exact ih ht data hdata
    · rw [hgrown] at hdata
      rcases mem_append.mp hdata with hdata | hdata
      · exact ih ht data hdata
      · rw [mem_singleton.mp hdata]
        exact ht.openData_held

theorem finalEvents_held (h : Sound k t) : ∀ data ∈ finalEvents t, size data ≤ k.maxBuffer := by
  intro data hdata
  rw [finalEvents] at hdata
  split at hdata
  · exact h.events_held data hdata
  · rcases mem_append.mp hdata with hdata | hdata
    · exact h.events_held data hdata
    · rw [mem_singleton.mp hdata]
      exact h.openData_held

theorem texts_mono {u : Text} (h : u <+: t) : texts u <+: texts t := by
  obtain ⟨v,rfl⟩ := h
  exact (Sse.events_mono u v).map joined

theorem texts_final (t : Text) : texts t <+: finalTexts t := by
  rw [finalTexts]
  split
  · exact prefix_refl _
  · exact prefix_append _ _

theorem sound_of_events (hheld : ∀ data ∈ finalEvents t, size data ≤ k.maxBuffer)
    (horder : InOrder k (finalTexts t)) : Sound k t := by
  intro u c hu
  have hlast : ∀ {d : Text}, texts (u ++ [c]) = texts u ++ [d] → texts u ++ [d] <+: finalTexts t :=
    fun htexts => htexts ▸ (texts_mono hu).trans (texts_final t)
  constructor
  · rintro (hsize | ⟨d,htexts,hfaulty⟩)
    · obtain ⟨v,rfl⟩ := hu
      obtain ⟨data,hdata,hle⟩ := Sse.openData_within (u ++ [c]) v
      have hsmall := Sse.size_prefix hle
      by_cases hopen : openData (u ++ [c] ++ v) = []
      · rcases mem_append.mp hdata with hdata | hdata
        · have hmem := hheld data (by rw [finalEvents,if_pos hopen]; exact hdata)
          omega
        · rw [mem_singleton.mp hdata,hopen,Sse.size_nil] at hsmall
          omega
      · have hmem := hheld data (by rw [finalEvents,if_neg hopen]; exact hdata)
        omega
    · exact (horder _ _ (hlast htexts)).1 hfaulty
  · rintro ⟨d,htexts,hcrash⟩
    exact (horder _ _ (hlast htexts)).2 hcrash

/-! ### Orders of events -/

theorem prefix_split {α : Type} {ds before after : List α} {d : α} (h : ds = before ++ d :: after) :
    before ++ [d] <+: ds := ⟨after,by rw [h,append_assoc,List.singleton_append]⟩

theorem InOrder.count (h : InOrder k ds) : ds.length ≤ k.maxEvents := by
  induction ds using reverseRecOn with
  | nil => exact Nat.zero_le _
  | append_singleton ds d _ =>
    rw [length_append]
    exact Nat.lt_of_not_le fun hle => (h ds d (prefix_refl _)).1 (.inl hle)

theorem InOrder.read (h : InOrder k ds) (hd : d ∈ ds) :
    (k.surface = .chat ∧ d = doneText) ∨ ∃ fields, ObjectText k d fields ∧ reading k d = .object fields := by
  obtain ⟨before,after,hsplit⟩ := append_of_mem hd
  obtain ⟨hfaulty,hcrash⟩ := h before d (prefix_split hsplit)
  refine reading_kept (fun hbad => hfaulty (.inr (.inr (.inl hbad)))) fun hraises => hcrash ⟨?_,?_,hraises⟩
  · exact Nat.lt_of_not_le fun hle => hfaulty (.inl hle)
  · exact fun e he hends => hfaulty (.inr (.inl ⟨e,he,hends⟩))

variable {before : List Text}

theorem InOrder.last {after : List Text} (h : InOrder k ds) (hsplit : ds = before ++ d :: after)
    (hends : Ends k d) : after = [] ∧ ∀ e ∈ before, ¬Ends k e := by
  constructor
  · cases after with
    | nil => rfl
    | cons e after =>
      have hle : before ++ [d] ++ [e] <+: ds := by
        have hshift : ds = (before ++ [d]) ++ e :: after := by
          rw [hsplit,append_assoc]
          rfl
        exact prefix_split hshift
      exact absurd (.inr (.inl ⟨d,mem_append_right _ (mem_singleton.mpr rfl),hends⟩)) (h _ e hle).1
  · intro e he hends'
    exact (h before d (prefix_split hsplit)).1 (.inr (.inl ⟨e,he,hends'⟩))

variable {log : EventLog}

theorem InOrder.goodOrder (h : InOrder k (finalTexts t)) (hcloses : Closes k t log)
    (hsuccess : (log.ending k).1 = .success) : GoodOrder k (finalTexts t) := by
  rw [EventLog.ending] at hsuccess
  rw [GoodOrder]
  cases hsurface : k.surface with
  | chat =>
    rw [hsurface] at hsuccess
    have hdone : log.done = true := by
      by_contra hnot
      simp only [hnot] at hsuccess
      cases hsuccess
    obtain ⟨d,hd,hread⟩ := hcloses.done.mp hdone
    obtain ⟨-,rfl⟩ := reading_done.mp hread
    obtain ⟨before,after,hsplit⟩ := append_of_mem hd
    obtain ⟨rfl,hbefore⟩ := h.last hsplit (.inl hread)
    refine ⟨before,hsplit,fun hmem => hbefore _ hmem (.inl hread),?_⟩
    have hreasons : before.flatMap (reasonsOf k) ≠ [] := fun hnil =>
      (h before doneText (prefix_split hsplit)).1 (.inr (.inr (.inr ⟨hread,hnil⟩)))
    rw [ne_eq,List.flatMap_eq_nil_iff,not_forall] at hreasons
    obtain ⟨e,hreasons⟩ := hreasons
    rw [Classical.not_imp] at hreasons
    obtain ⟨he,hreason⟩ := hreasons
    obtain ⟨-,-,fields,hobj,hhas⟩ := reasonsOf_ne_nil.mp hreason
    exact ⟨e,he,fields,hobj,hhas⟩
  | responses =>
    rw [hsurface] at hsuccess
    cases hterminal : log.responsesTerminal with
    | none =>
      rw [hterminal] at hsuccess
      cases hsuccess
    | some type =>
      rw [hterminal] at hsuccess
      simp only at hsuccess
      have htype : type = "response.completed" := by
        by_contra hnot
        rw [if_neg hnot] at hsuccess
        split at hsuccess
        · cases hsuccess
        · split at hsuccess <;> cases hsuccess
      subst htype
      obtain ⟨d,hd,htype⟩ := (hcloses.terminal _).mp hterminal
      have hends : Ends k d := .inr (by rw [htype]; exact Option.some_ne_none _)
      obtain ⟨before,after,hsplit⟩ := append_of_mem hd
      obtain ⟨rfl,hbefore⟩ := h.last hsplit hends
      refine ⟨before,d,hsplit,(typeOf_eq.mp htype).2.2,fun e he type hmem hhas => ?_⟩
      exact hbefore e he (ends_iff.mpr (.inr ⟨hsurface,type,hmem,hhas⟩))

theorem goodOrder_before (h : GoodOrder k ds) (hle : before ++ [d] <+: ds) :
    (∀ e ∈ before, ¬Ends k e) ∧ (reading k d = .done → before.flatMap (reasonsOf k) ≠ []) := by
  rw [GoodOrder] at h
  cases hsurface : k.surface with
  | chat =>
    rw [hsurface] at h
    obtain ⟨before',rfl,hnone,e,he,fields,hobj,hreason⟩ := h
    have hbefore : before <+: before' := by
      rcases prefix_concat_iff.mp hle with heq | hle
      · exact (append_inj' heq rfl).1 ▸ prefix_refl _
      · exact (prefix_append before [d]).trans hle
    constructor
    · intro e' he' hends
      rcases ends_iff.mp hends with ⟨-,rfl⟩ | ⟨hresp,-⟩
      · exact hnone (hbefore.subset he')
      · rw [hsurface] at hresp
        cases hresp
    · intro hread hnil
      obtain ⟨-,rfl⟩ := reading_done.mp hread
      have heq : before = before' := by
        rcases prefix_concat_iff.mp hle with heq | hle
        · exact (append_inj' heq rfl).1
        · exact absurd (hle.subset (mem_append_right _ (mem_singleton.mpr rfl))) hnone
      subst heq
      have hreasons : reasonsOf k e ≠ [] := by
        refine reasonsOf_ne_nil.mpr ⟨hsurface,?_,fields,hobj,hreason⟩
        rintro rfl
        exact hnone he
      exact hreasons (List.flatMap_eq_nil_iff.mp hnil e he)
  | responses =>
    rw [hsurface] at h
    obtain ⟨before',d',rfl,-,hnone⟩ := h
    have hbefore : before <+: before' := by
      rcases prefix_concat_iff.mp hle with heq | hle
      · exact (append_inj' heq rfl).1 ▸ prefix_refl _
      · exact (prefix_append before [d]).trans hle
    constructor
    · intro e he hends
      rcases ends_iff.mp hends with ⟨hchat,-⟩ | ⟨-,type,hmem,htype⟩
      · rw [hsurface] at hchat
        cases hchat
      · exact hnone e (hbefore.subset he) type hmem htype
    · intro hread
      have hchat := (reading_done.mp hread).1
      rw [hsurface] at hchat
      cases hchat

theorem GoodText.inOrder (h : GoodText k t)
    (hhash : ∀ d ∈ finalTexts t, ∀ fields, k.surface = .responses → ObjectText k d fields →
      unhashable (get fields "type") = false) : InOrder k (finalTexts t) := by
  intro before d hle
  obtain ⟨hends,hreasons⟩ := goodOrder_before h.order hle
  have hd : d ∈ finalTexts t := hle.subset (mem_append_right _ (mem_singleton.mpr rfl))
  have hread : reading k d ≠ .bad ∧ reading k d ≠ .raises := by
    rcases h.read d hd with hdone | ⟨fields,hobj⟩
    · rw [reading_done.mpr hdone]
      exact ⟨fun h => (by cases h),fun h => (by cases h)⟩
    · by_cases hdone : k.surface = .chat ∧ d = doneText
      · rw [reading_done.mpr hdone]
        exact ⟨fun h => (by cases h),fun h => (by cases h)⟩
      · have hobject : reading k d = .object fields := by
          refine reading_object_iff.mpr ⟨hdone,hobj,?_⟩
          rintro ⟨hsurface,htype⟩
          rw [hhash d hd fields hsurface hobj] at htype
          cases htype
        rw [hobject]
        exact ⟨fun h => (by cases h),fun h => (by cases h)⟩
  constructor
  · rintro (hcount | ⟨e,he,hend⟩ | hbad | ⟨hdone,hnil⟩)
    · have hlen := hle.length_le
      rw [length_append,List.length_singleton] at hlen
      have hmax := h.count
      omega
    · exact hends e he hend
    · exact hread.1 hbad
    · exact hreasons hdone hnil
  · exact fun hcrash => hread.2 hcrash.2.2

theorem GoodOrder.ending (h : GoodOrder k (finalTexts t)) (hcloses : Closes k t log) :
    (log.ending k).1 = .success := by
  rw [GoodOrder] at h
  rw [EventLog.ending]
  cases hsurface : k.surface with
  | chat =>
    rw [hsurface] at h
    obtain ⟨before,hsplit,-⟩ := h
    have hdone : log.done = true := by
      refine hcloses.done.mpr ⟨doneText,?_,reading_done.mpr ⟨hsurface,rfl⟩⟩
      rw [hsplit]
      exact mem_append_right _ (mem_singleton.mpr rfl)
    simp only
    rw [if_pos hdone]
  | responses =>
    rw [hsurface] at h
    obtain ⟨before,d,hsplit,htype,-⟩ := h
    have hterminal : log.responsesTerminal = some "response.completed" := by
      refine (hcloses.terminal _).mpr ⟨d,?_,typeOf_eq.mpr ⟨hsurface,List.mem_cons_self,htype⟩⟩
      rw [hsplit]
      exact mem_append_right _ (mem_singleton.mpr rfl)
    rw [hterminal]
    rfl

theorem Sound.finalOrder (h : Sound k t) (hcloses : Closes k t log) : InOrder k (finalTexts t) := by
  rw [finalTexts]
  split
  · exact h.inOrder
  · exact inOrder_snoc h.inOrder (hcloses.last ‹_›)

theorem checked_iff {chunks : List (List UInt8)} :
    Checked k chunks ↔ GoodStream k chunks ∧ HashableTypes k chunks := by
  constructor
  · rintro ⟨o,ho,hstate⟩
    rcases drive_cases (k := k) chunks with ⟨hfailed,-⟩ | ⟨hnone,-⟩ | ⟨p,q,t,hp,hall,hdecode,hfinal,hdrive,hcloses⟩
    · obtain ⟨o',ho',hstate'⟩ := failed_ended hfailed
      rw [ho] at ho'
      cases ho'
      rw [hstate] at hstate'
      cases hstate'
    · rw [hnone] at ho
      cases ho
    · obtain ⟨o',ho',hending⟩ := concluded_ended hdrive hfinal
      rw [ho] at ho'
      cases ho'
      obtain ⟨m,t',hdecode',hsound⟩ := hp.sound
      obtain ⟨-,rfl⟩ := Prod.mk.inj (Option.some.inj (hdecode.symm.trans hdecode'))
      have horder := hsound.finalOrder hcloses
      refine ⟨⟨hall,t,hdecode,finalEvents_held hsound,horder.count,fun d hd => ?_,?_⟩,?_⟩
      · exact (horder.read hd).imp_right fun ⟨fields,hobj,_⟩ => ⟨fields,hobj⟩
      · exact horder.goodOrder hcloses (hending.symm.trans hstate)
      · intro t' hdecode' d hd fields hsurface hobj
        obtain ⟨-,rfl⟩ := Prod.mk.inj (Option.some.inj (hdecode.symm.trans hdecode'))
        rcases horder.read hd with ⟨hchat,-⟩ | ⟨fields',hobj',hread⟩
        · rw [hsurface] at hchat
          cases hchat
        · obtain ⟨-,-,hhash⟩ := reading_object_iff.mp hread
          rw [ObjectText,hobj] at hobj'
          cases hobj'
          exact Bool.eq_false_iff.mpr fun htype => hhash ⟨hsurface,htype⟩
  · rintro ⟨⟨hall,t,hdecode,hgood⟩,hhash⟩
    have horder := hgood.inOrder (hhash t hdecode)
    have hsound : SoundBytes k chunks.flatten := ⟨_,t,hdecode,sound_of_events hgood.held horder⟩
    have hlast : openData t ≠ [] → ¬Faulty k (texts t) (openText t) ∧ ¬Crashing k (texts t) (openText t) := by
      intro hopen
      refine horder _ _ ?_
      rw [finalTexts,if_neg hopen]
    have hflat : ∀ {pre : List (List UInt8)} {c : List UInt8} {post : List (List UInt8)}, chunks = pre ++ c :: post →
        pre.flatten ++ c <+: chunks.flatten := by
      intro pre c post hsplit
      exact ⟨post.flatten,by rw [hsplit,List.flatten_append,List.flatten_cons,append_assoc]⟩
    rcases drive_cases (k := k) chunks with
      ⟨-,⟨-,m,t',hdecode',hend⟩ | ⟨pre,c,post,hsplit,-,hadmits | ⟨-,hstops⟩⟩⟩ |
        ⟨-,⟨-,t',hdecode',hopen,hcrash⟩ | ⟨pre,c,post,hsplit,-,hstops⟩⟩ | ⟨p,q,t',-,-,hdecode',hfinal,hdrive,hcloses⟩
    · obtain ⟨rfl,rfl⟩ := Prod.mk.inj (Option.some.inj (hdecode.symm.trans hdecode'))
      rcases hend with hne | ⟨hopen,hfaulty⟩
      · exact absurd rfl hne
      · exact absurd hfaulty (hlast hopen).1
    · exact absurd (hall pre c post hsplit) hadmits
    · exact absurd hstops (hsound.not_stops (hflat hsplit)).1
    · obtain ⟨-,rfl⟩ := Prod.mk.inj (Option.some.inj (hdecode.symm.trans hdecode'))
      exact absurd hcrash (hlast hopen).2
    · exact absurd hstops (hsound.not_stops (hflat hsplit)).2
    · obtain ⟨-,rfl⟩ := Prod.mk.inj (Option.some.inj (hdecode.symm.trans hdecode'))
      obtain ⟨o,ho,hstate⟩ := concluded_ended hdrive hfinal
      exact ⟨o,ho,hstate.trans (hgood.order.ending hcloses)⟩

end Good

/-- The outcome is a success exactly for the good streams, unless a good stream has an event
object whose type is a list or an object. -/
theorem success_exact (k : Settings) (chunks : List (List UInt8)) :
    (Checked k chunks ↔ GoodStream k chunks) ↔ (GoodStream k chunks → HashableTypes k chunks) := by
  rw [checked_iff,and_iff_left_iff_imp]

/-! ### A good stream with an odd event -/

def oddEvent : Text := "\x7b\"type\": []\x7d".toList
def completedEvent : Text := "\x7b\"type\": \"response.completed\"\x7d".toList

def oddLoads (d : Text) : Loaded :=
  if d = oddEvent then .value (.obj [("type",.arr [])])
  else if d = completedEvent then .value (.obj [("type",.str "response.completed")])
  else .invalid

def oddSettings : Settings := ⟨.responses,1000,100,10,oddLoads,fun _ => ""⟩

def oddText : Text := "data: \x7b\"type\": []\x7d\n\ndata: \x7b\"type\": \"response.completed\"\x7d\n\n".toList

def oddStream : List UInt8 :=
  "data: \x7b\"type\": []\x7d\n\ndata: \x7b\"type\": \"response.completed\"\x7d\n\n".toUTF8.toList

theorem odd_text_good : GoodText oddSettings oddText := by
  have hevents : finalEvents oddText = [[oddEvent],[completedEvent]] := by decide +kernel
  have htexts : finalTexts oddText = [oddEvent,completedEvent] := by
    rw [finalTexts_eq,hevents]
    decide +kernel
  have hodd : oddLoads oddEvent = .value (.obj [("type",.arr [])]) := by decide +kernel
  have hcompleted : oddLoads completedEvent = .value (.obj [("type",.str "response.completed")]) := by decide +kernel
  refine ⟨?_,?_,?_,?_⟩
  · rw [hevents]
    decide +kernel
  · rw [htexts]
    decide +kernel
  · rw [htexts]
    intro d hd
    rcases List.mem_cons.mp hd with rfl | hd
    · exact .inr ⟨_,hodd⟩
    · obtain rfl := mem_singleton.mp hd
      exact .inr ⟨_,hcompleted⟩
  · refine ⟨[oddEvent],completedEvent,htexts,⟨_,hcompleted,rfl⟩,fun e he type _ htype => ?_⟩
    obtain rfl := mem_singleton.mp he
    obtain ⟨fields,hobj,hget⟩ := htype
    rw [ObjectText,show oddSettings.loads oddEvent = _ from hodd] at hobj
    cases hobj
    cases hget

theorem odd_stream_good : GoodStream oddSettings [oddStream] := by
  have hdecode : Utf8.decode .start oddStream = some (.start,oddText) := by decide +kernel
  constructor
  · intro pre c post hsplit
    cases pre with
    | nil =>
      cases hsplit
      exact fits_iff.mp ⟨by decide +kernel,_,_,hdecode,by decide +kernel⟩
    | cons d pre =>
      have hlen := congrArg List.length hsplit
      simp only [List.cons_append,List.length_cons,length_append,List.length_nil] at hlen
      omega
  · rw [List.flatten_singleton]
    exact ⟨oddText,hdecode,odd_text_good⟩

/-- The stream is good, and reading it raises an error that the parser does not catch. -/
theorem odd_type_not_success : ¬∀ (k : Settings) (chunks : List (List UInt8)), Checked k chunks ↔ GoodStream k chunks := by
  intro h
  have hended : ended oddSettings [oddStream] = none := by decide +kernel
  obtain ⟨o,ho,-⟩ := (h oddSettings [oddStream]).mpr odd_stream_good
  rw [hended] at ho
  cases ho

end Verdict.Stream

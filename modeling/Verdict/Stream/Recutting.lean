import Verdict.Stream.Chunking

/-! # The same stream in other chunks

Every way of cutting a stream ends in the same state if its text fits in the line buffer as a
whole, or if it is refused even byte by byte; for every other stream the single chunk is
refused and the single bytes are not.
-/
namespace Verdict.Stream
open Sse (Text newline)
open List (append_assoc flatten_append flatten_cons length_nil nil_append prefix_refl)

def Fits (k : Settings) (b : List UInt8) : Prop :=
  b.length ≤ k.maxBytes ∧ ∃ m t, Utf8.decode .start b = some (m,t) ∧ t.length ≤ k.maxBuffer

/-- A byte is refused after bytes that are sound, or the stream is sound and refused at its end. -/
def Refused (k : Settings) (b : List UInt8) : Prop :=
  (∃ u x, u ++ [x] <+: b ∧ SoundBytes k u ∧ (¬Admits k u [x] ∨ StopsIn k (Refuses k) (u ++ [x]))) ∨
    (SoundBytes k b ∧ RefusedAtEnd k b)

/-- Two ends of a stream agree: in the state, and without an error in what was read. -/
def SameEnd (o o' : Option StreamOutcome) : Prop :=
  o.map StreamOutcome.state = o'.map StreamOutcome.state ∧
    ∀ x ∈ o, ∀ x' ∈ o', x.state ≠ .protocolError → x.finishReasons = x'.finishReasons ∧ x.usage = x'.usage ∧
      x.servedModel = x'.servedModel ∧ x.terminalEvent = x'.terminalEvent

section Recutting
variable {k : Settings}

theorem SameEnd.refl (o : Option StreamOutcome) : SameEnd o o := by
  refine ⟨rfl,fun x hx x' hx' _ => ?_⟩
  rw [Option.mem_def] at hx hx'
  rw [hx] at hx'
  cases hx'
  exact ⟨rfl,rfl,rfl,rfl⟩

/-! ### One stop -/

variable {t : Text}

theorem stop_unique {u u' : Text} {c c' : Char} (hu : u ++ [c] <+: t) (hu' : u' ++ [c'] <+: t) (hsound : Sound k u)
    (hsound' : Sound k u') (hstop : Refuses k u c ∨ Crashes k u c) (hstop' : Refuses k u' c' ∨ Crashes k u' c') :
    u = u' ∧ c = c' := by
  have hbreaks : ∀ {v : Text} {d : Char} {w : Text}, Refuses k v d ∨ Crashes k v d → Sound k w → ¬v ++ [d] <+: w := by
    rintro v d w (h | h) hw hv
    · exact (hw v d hv).1 h
    · exact (hw v d hv).2 h
  rcases List.prefix_or_prefix_of_prefix hu hu' with h | h
  · rcases List.prefix_concat_iff.mp h with h | h
    · obtain ⟨hu,hc⟩ := List.append_inj' h rfl
      exact ⟨hu,List.singleton_inj.mp hc⟩
    · exact absurd h (hbreaks hstop hsound')
  · rcases List.prefix_concat_iff.mp h with h | h
    · obtain ⟨hu,hc⟩ := List.append_inj' h rfl
      exact ⟨hu.symm,(List.singleton_inj.mp hc).symm⟩
    · exact absurd h (hbreaks hstop' hsound)

variable {a b : List UInt8}

theorem StopsIn.mono {stop : Text → Char → Prop} (h : StopsIn k stop a) (hab : a <+: b)
    {m : Utf8.State} (hb : Utf8.decode .start b = some (m,t)) : StopsIn k stop b := by
  obtain ⟨n,s,u,c,ha,hu,hsound,hstop⟩ := h
  obtain ⟨n',s',ha',hs⟩ := decode_prefix hb hab
  obtain ⟨-,rfl⟩ := Prod.mk.inj (Option.some.inj (ha.symm.trans ha'))
  exact ⟨m,t,u,c,hb,hu.trans hs,hsound,hstop⟩

theorem not_stops_both (hrefuses : StopsIn k (Refuses k) b) (hcrashes : StopsIn k (Crashes k) b) : False := by
  obtain ⟨m,t,u,c,hdecode,hu,hsound,hstop⟩ := hrefuses
  obtain ⟨m',t',u',c',hdecode',hu',hsound',hstop'⟩ := hcrashes
  obtain ⟨-,rfl⟩ := Prod.mk.inj (Option.some.inj (hdecode.symm.trans hdecode'))
  obtain ⟨rfl,rfl⟩ := stop_unique hu hu' hsound hsound' (.inl hstop) (.inr hstop')
  exact not_refuses_of_crashes hstop' hstop

theorem SoundBytes.not_stops (h : SoundBytes k b) (hab : a <+: b) :
    ¬StopsIn k (Refuses k) a ∧ ¬StopsIn k (Crashes k) a := by
  obtain ⟨m,t,hdecode,hsound⟩ := h
  constructor
  · intro hstops
    obtain ⟨n,s,u,c,hs,hu,-,hstop⟩ := hstops.mono hab hdecode
    obtain ⟨-,rfl⟩ := Prod.mk.inj (Option.some.inj (hdecode.symm.trans hs))
    exact (hsound u c hu).1 hstop
  · intro hstops
    obtain ⟨n,s,u,c,hs,hu,-,hstop⟩ := hstops.mono hab hdecode
    obtain ⟨-,rfl⟩ := Prod.mk.inj (Option.some.inj (hdecode.symm.trans hs))
    exact (hsound u c hu).2 hstop

/-! ### One run -/

theorem conclude_outcome (q : SSETerminalParser) :
    ∃ o, (left (q.lift (q.toEventLog.conclude k))).outcome = some o ∧ o.state = (q.toEventLog.ending k).1 := by
  rw [EventLog.conclude]
  obtain ⟨state,detail,terminalEvent⟩ := q.toEventLog.ending k
  cases detail with
  | none => exact ⟨_,rfl,rfl⟩
  | some message => exact ⟨_,rfl,rfl⟩

theorem ending_not_protocolError (log : EventLog) : (log.ending k).1 ≠ .protocolError := by
  rw [EventLog.ending]
  split
  · split <;> exact fun h => by cases h
  · split
    · exact fun h => by cases h
    · simp only
      split
      · exact fun h => by cases h
      · split
        · exact fun h => by cases h
        · split <;> exact fun h => by cases h

variable {chunks : List (List UInt8)}

theorem failed_ended (h : Failed (drive k chunks)) :
    ∃ o, ended k chunks = some o ∧ o.state = .protocolError := by
  obtain ⟨message,p,hdrive,o,ho,hstate⟩ := h
  refine ⟨o,?_,hstate⟩
  rw [ended,hdrive]
  exact ho

theorem drive_eq (chunks : List (List UInt8)) : drive k chunks = match feedAll k {} chunks with
    | .ok p => p.finalize k
    | .error e => .error e := by
  rw [drive]
  cases feedAll k {} chunks <;> rfl

theorem drive_cases (chunks : List (List UInt8)) :
    (Failed (drive k chunks) ∧ ((SoundBytes k chunks.flatten ∧ RefusedAtEnd k chunks.flatten) ∨
        ∃ pre c post, chunks = pre ++ c :: post ∧ SoundBytes k pre.flatten ∧
          (¬Admits k pre.flatten c ∨ Admits k pre.flatten c ∧ StopsIn k (Refuses k) (pre.flatten ++ c)))) ∨
      (ended k chunks = none ∧ ((∃ p, Reads k chunks.flatten p) ∧ CrashedAtEnd k chunks.flatten ∨
        ∃ pre c post, chunks = pre ++ c :: post ∧ Fine k (pre.flatten ++ c) ∧ StopsIn k (Crashes k) (pre.flatten ++ c))) ∨
      ∃ (p q : SSETerminalParser) (t : Text), Reads k chunks.flatten p ∧ (∀ pre c post, chunks = pre ++ c :: post → Admits k pre.flatten c) ∧
        Utf8.decode .start chunks.flatten = some (.start,t) ∧ p.finalize k = q.lift (q.toEventLog.conclude k) ∧
        drive k chunks = p.finalize k ∧ Closes k t q.toEventLog := by
  have hdrive := drive_eq (k := k) chunks
  rcases feedAll_cases (k := k) Reads.empty chunks with
    ⟨p,hfeed,hp,hall⟩ | ⟨⟨message,p,hfeed,hlog⟩,pre,c,post,hsplit,⟨q,hq⟩,hwhy⟩ | ⟨p,hfeed,hnone,pre,c,post,hsplit,hfine,hcrash⟩
  · rw [hfeed] at hdrive
    simp only at hdrive
    simp only [nil_append] at hp hall
    rcases finalize_cases hp with ⟨hfailed,hend⟩ | ⟨p',hfinal,hnone,hcrash⟩ | ⟨t,q,hdecode,hfinal,hcloses⟩
    · exact .inl ⟨hdrive ▸ hfailed,.inl ⟨hp.sound,hend⟩⟩
    · refine .inr (.inl ⟨?_,.inl ⟨⟨p,hp⟩,hcrash⟩⟩)
      rw [ended,hdrive,hfinal]
      exact hnone
    · exact .inr (.inr ⟨p,q,t,hp,hall,hdecode,hfinal,hdrive,hcloses⟩)
  · rw [hfeed] at hdrive
    simp only [nil_append] at hq hwhy
    exact .inl ⟨⟨message,p,hdrive,hlog⟩,.inr ⟨pre,c,post,hsplit,hq.sound,hwhy⟩⟩
  · rw [hfeed] at hdrive
    simp only [nil_append] at hfine hcrash
    refine .inr (.inl ⟨?_,.inr ⟨pre,c,post,hsplit,hfine,hcrash⟩⟩)
    rw [ended,hdrive]
    exact hnone

variable {p : SSETerminalParser}

theorem concluded_ended {q : SSETerminalParser} (hdrive : drive k chunks = p.finalize k)
    (hfinal : p.finalize k = q.lift (q.toEventLog.conclude k)) :
    ∃ o, ended k chunks = some o ∧ o.state = (q.toEventLog.ending k).1 := by
  obtain ⟨o,ho,hstate⟩ := conclude_outcome (k := k) q
  refine ⟨o,?_,hstate⟩
  rw [ended,hdrive,hfinal]
  exact ho

/-! ### A refused stream -/

theorem not_ends_both (hrefused : RefusedAtEnd k b) (hcrashed : CrashedAtEnd k b) : False := by
  obtain ⟨m,t,hdecode,hend⟩ := hrefused
  obtain ⟨t',hdecode',-,hcrash⟩ := hcrashed
  obtain ⟨rfl,rfl⟩ := Prod.mk.inj (Option.some.inj (hdecode.symm.trans hdecode'))
  rcases hend with hne | ⟨-,hfaulty⟩
  · exact hne rfl
  · exact not_faulty_of_crashing hcrash hfaulty

variable {log : EventLog}

theorem not_ends_closed (hrefused : RefusedAtEnd k b)
    (hdecode : Utf8.decode .start b = some (.start,t)) (hcloses : Closes k t log) : False := by
  obtain ⟨m,t',hdecode',hend⟩ := hrefused
  obtain ⟨rfl,rfl⟩ := Prod.mk.inj (Option.some.inj (hdecode.symm.trans hdecode'))
  rcases hend with hne | ⟨hopen,hfaulty⟩
  · exact hne rfl
  · exact (hcloses.last hopen).1 hfaulty

theorem Reads.not_refused (h : Reads k b p) (hrefused : Refused k b) : RefusedAtEnd k b := by
  rcases hrefused with ⟨u,x,hu,-,hadmits | hstops⟩ | ⟨-,hend⟩
  · exact absurd (h.fine u x hu) hadmits
  · exact absurd hstops (h.sound.not_stops hu).1
  · exact hend

theorem Refused.fails {b : List UInt8} (h : Refused k b) {chunks : List (List UInt8)} (hflat : chunks.flatten = b) :
    Failed (drive k chunks) := by
  subst hflat
  rcases drive_cases (k := k) chunks with
    ⟨hfailed,-⟩ | ⟨-,⟨⟨p,hp⟩,hcrashed⟩ | ⟨pre,c,post,rfl,hfine,hcrash⟩⟩ | ⟨p,q,t,hp,-,hdecode,-,-,hcloses⟩
  · exact hfailed
  · exact (not_ends_both (hp.not_refused h) hcrashed).elim
  · have hread : pre.flatten ++ c <+: (pre ++ c :: post).flatten :=
      ⟨post.flatten,by rw [flatten_append,flatten_cons,append_assoc]⟩
    rcases h with ⟨u,x,hu,hsound,hwhy⟩ | ⟨hsound,-⟩
    · have hwithin : ¬u ++ [x] <+: pre.flatten ++ c := by
        intro hle
        rcases hwhy with hadmits | hstops
        · exact hadmits (hfine u x hle)
        · have ⟨_,_,_,_,hdecode,_⟩ := hcrash
          exact not_stops_both (hstops.mono hle hdecode) hcrash
      rcases List.prefix_or_prefix_of_prefix hu hread with hle | hle
      · exact absurd hle hwithin
      · rcases List.prefix_concat_iff.mp hle with heq | hle
        · exact absurd (heq ▸ prefix_refl _) hwithin
        · exact absurd hcrash (hsound.not_stops hle).2
    · exact absurd hcrash (hsound.not_stops hread).2
  · exact (not_ends_closed (hp.not_refused h) hdecode hcloses).elim

/-! ### Byte by byte, and as one chunk -/

def singles (b : List UInt8) : List (List UInt8) := b.map fun x => [x]

theorem singles_flatten (b : List UInt8) : (singles b).flatten = b := by
  induction b with
  | nil => rfl
  | cons x b ih => exact congrArg (List.cons x) ih

variable {pre post : List (List UInt8)} {c : List UInt8}

theorem singles_split (h : singles b = pre ++ c :: post) : ∃ x, c = [x] ∧ pre.flatten ++ [x] <+: b := by
  have hc : c ∈ singles b := h ▸ List.mem_append_right pre List.mem_cons_self
  obtain ⟨x,-,rfl⟩ := List.mem_map.mp hc
  refine ⟨x,rfl,post.flatten,?_⟩
  rw [← singles_flatten b,h,flatten_append,flatten_cons,append_assoc]

theorem refused_of_singles (h : Failed (drive k (singles b))) : Refused k b := by
  obtain ⟨o,ho,hstate⟩ := failed_ended h
  rcases drive_cases (k := k) (singles b) with
    ⟨-,⟨hsound,hend⟩ | ⟨pre,c,post,hsplit,hsound,hwhy⟩⟩ | ⟨hnone,-⟩ | ⟨p,q,t,-,-,-,hfinal,hdrive,-⟩
  · rw [singles_flatten] at hsound hend
    exact .inr ⟨hsound,hend⟩
  · obtain ⟨x,rfl,hx⟩ := singles_split hsplit
    exact .inl ⟨pre.flatten,x,hx,hsound,hwhy.imp_right And.right⟩
  · rw [hnone] at ho
    cases ho
  · obtain ⟨o',ho',hstate'⟩ := concluded_ended hdrive hfinal
    rw [ho] at ho'
    cases ho'
    exact absurd (hstate'.symm.trans hstate) (ending_not_protocolError _)

theorem fits_iff : Fits k b ↔ Admits k [] b := by
  rw [Fits,Admits,length_nil,Nat.zero_add]
  refine and_congr_right fun _ => ⟨?_,?_⟩
  · rintro ⟨m,t,hdecode,hlen⟩
    refine ⟨_,_,m,t,rfl,hdecode,?_⟩
    rw [Sse.unfinished_nil,length_nil,Nat.zero_add]
    exact hlen
  · rintro ⟨_,_,m,t,hnil,hdecode,hlen⟩
    cases hnil
    rw [Sse.unfinished_nil,length_nil,Nat.zero_add] at hlen
    exact ⟨m,t,hdecode,hlen⟩

theorem whole_fails (h : ¬Fits k b) : Failed (drive k [b]) := by
  rw [fits_iff] at h
  rcases feedChunk_cases (k := k) (c := b) Reads.empty with ⟨p,-,-,hadmits⟩ | ⟨⟨message,p,hchunk,hlog⟩,-⟩ | ⟨p,-,-,hadmits,-⟩
  · exact absurd hadmits h
  · refine ⟨message,p,?_,hlog⟩
    rw [drive_eq,feedAll_error hchunk]
  · exact absurd hadmits h

/-! ### A stream that fits -/

theorem Fits.admits (h : Fits k b) (hflat : (pre ++ c :: post).flatten = b) : Admits k pre.flatten c := by
  obtain ⟨hbytes,m,t,hdecode,hlen⟩ := h
  rw [flatten_append,flatten_cons] at hflat
  subst hflat
  obtain ⟨n,s,s',hpre,hrest,rfl⟩ := Utf8.decode_append.mp hdecode
  obtain ⟨d,u,u',hc,-,rfl⟩ := Utf8.decode_append.mp hrest
  refine ⟨?_,n,s,d,u,hpre,hc,?_⟩
  · simp only [List.length_append] at hbytes
    omega
  · have hline := Sse.unfinished_append_length [] s
    simp only [nil_append,Sse.unfinished_nil,length_nil,Nat.zero_add] at hline
    simp only [List.length_append] at hlen
    omega

inductive End
  | fails
  | crashes
  | closes

def EndsAs (k : Settings) (b : List UInt8) : End → Prop
  | .fails => (SoundBytes k b ∧ RefusedAtEnd k b) ∨ StopsIn k (Refuses k) b
  | .crashes => (SoundBytes k b ∧ CrashedAtEnd k b) ∨ StopsIn k (Crashes k) b
  | .closes => SoundBytes k b ∧ ∃ t log, Utf8.decode .start b = some (.start,t) ∧ Closes k t log

theorem not_crashes_closed (hcrashed : CrashedAtEnd k b)
    (hdecode : Utf8.decode .start b = some (.start,t)) (hcloses : Closes k t log) : False := by
  obtain ⟨t',hdecode',hopen,hcrash⟩ := hcrashed
  obtain ⟨-,rfl⟩ := Prod.mk.inj (Option.some.inj (hdecode.symm.trans hdecode'))
  exact (hcloses.last hopen).2 hcrash

theorem endsAs_not_fails_crashes (hfails : EndsAs k b .fails) (hcrashes : EndsAs k b .crashes) : False := by
  rcases hfails with ⟨hsound,hend⟩ | hstops
  · rcases hcrashes with ⟨-,hcrash⟩ | hcrash
    · exact not_ends_both hend hcrash
    · exact (hsound.not_stops (prefix_refl _)).2 hcrash
  · rcases hcrashes with ⟨hsound,-⟩ | hcrash
    · exact (hsound.not_stops (prefix_refl _)).1 hstops
    · exact not_stops_both hstops hcrash

theorem endsAs_not_fails_closes (hfails : EndsAs k b .fails) (hcloses : EndsAs k b .closes) : False := by
  obtain ⟨hsound,t,log,hdecode,hclosed⟩ := hcloses
  rcases hfails with ⟨-,hend⟩ | hstops
  · exact not_ends_closed hend hdecode hclosed
  · exact (hsound.not_stops (prefix_refl _)).1 hstops

theorem endsAs_not_crashes_closes (hcrashes : EndsAs k b .crashes) (hcloses : EndsAs k b .closes) : False := by
  obtain ⟨hsound,t,log,hdecode,hclosed⟩ := hcloses
  rcases hcrashes with ⟨-,hend⟩ | hstops
  · exact not_crashes_closed hend hdecode hclosed
  · exact (hsound.not_stops (prefix_refl _)).2 hstops

theorem endsAs_unique {e e' : End} (h : EndsAs k b e) (h' : EndsAs k b e') : e = e' := by
  cases e with
  | fails => cases e' with
    | fails => rfl
    | crashes => exact (endsAs_not_fails_crashes h h').elim
    | closes => exact (endsAs_not_fails_closes h h').elim
  | crashes => cases e' with
    | fails => exact (endsAs_not_fails_crashes h' h).elim
    | crashes => rfl
    | closes => exact (endsAs_not_crashes_closes h h').elim
  | closes => cases e' with
    | fails => exact (endsAs_not_fails_closes h' h).elim
    | crashes => exact (endsAs_not_crashes_closes h' h).elim
    | closes => rfl

def RunsAs (k : Settings) (chunks : List (List UInt8)) : End → Prop
  | .fails => Failed (drive k chunks)
  | .crashes => ended k chunks = none
  | .closes => ∃ p, Reads k chunks.flatten p ∧ drive k chunks = p.finalize k

theorem Fits.runs (h : Fits k chunks.flatten) : ∃ e, EndsAs k chunks.flatten e ∧ RunsAs k chunks e := by
  have ⟨_,m,t,hwhole,_⟩ := h
  have hmono : ∀ {stop : Text → Char → Prop} {pre : List (List UInt8)} {c : List UInt8} {post : List (List UInt8)},
      chunks = pre ++ c :: post → StopsIn k stop (pre.flatten ++ c) → StopsIn k stop chunks.flatten := by
    intro stop pre c post hsplit hstops
    refine hstops.mono ⟨post.flatten,?_⟩ hwhole
    rw [hsplit,flatten_append,flatten_cons,append_assoc]
  rcases drive_cases (k := k) chunks with
    ⟨hfailed,hend | ⟨pre,c,post,hsplit,-,hadmits | ⟨-,hstops⟩⟩⟩ | ⟨hnone,⟨⟨p,hp⟩,hend⟩ | ⟨pre,c,post,hsplit,-,hstops⟩⟩ |
      ⟨p,q,t,hp,-,hdecode,-,hdrive,hcloses⟩
  · exact ⟨.fails,.inl hend,hfailed⟩
  · exact absurd (h.admits (congrArg List.flatten hsplit).symm) hadmits
  · exact ⟨.fails,.inr (hmono hsplit hstops),hfailed⟩
  · exact ⟨.crashes,.inl ⟨hp.sound,hend⟩,hnone⟩
  · exact ⟨.crashes,.inr (hmono hsplit hstops),hnone⟩
  · exact ⟨.closes,⟨hp.sound,t,_,hdecode,hcloses⟩,p,hp,hdrive⟩

variable {chunks' : List (List UInt8)}

theorem sameEnd_of_failed (h : Failed (drive k chunks))
    (h' : Failed (drive k chunks')) : SameEnd (ended k chunks) (ended k chunks') := by
  obtain ⟨o,ho,hstate⟩ := failed_ended h
  obtain ⟨o',ho',hstate'⟩ := failed_ended h'
  rw [ho,ho']
  refine ⟨congrArg some (hstate.trans hstate'.symm),fun x hx x' hx' hne => ?_⟩
  cases hx
  exact absurd hstate hne

theorem Fits.sameEnd (h : Fits k b) (hflat : chunks.flatten = b)
    (hflat' : chunks'.flatten = b) : SameEnd (ended k chunks) (ended k chunks') := by
  subst hflat
  obtain ⟨e,hends,hruns⟩ := h.runs
  obtain ⟨e',hends',hruns'⟩ := (hflat'.symm ▸ h : Fits k chunks'.flatten).runs
  rw [hflat'] at hends'
  cases endsAs_unique hends hends'
  cases e with
  | fails => exact sameEnd_of_failed hruns hruns'
  | crashes =>
    rw [show ended k chunks = none from hruns,show ended k chunks' = none from hruns']
    exact SameEnd.refl none
  | closes =>
    obtain ⟨p,hp,hdrive⟩ := hruns
    obtain ⟨p',hp',hdrive'⟩ := hruns'
    rw [hflat'] at hp'
    cases hp.unique hp'
    rw [ended,ended,hdrive,hdrive']
    exact SameEnd.refl _

end Recutting

/-- All ways of cutting a stream end alike exactly when its whole text fits in the line buffer
or the stream is refused even byte by byte. -/
theorem chunks_agree (k : Settings) (b : List UInt8) :
    (∀ chunks chunks' : List (List UInt8), chunks.flatten = b → chunks'.flatten = b →
        SameEnd (ended k chunks) (ended k chunks')) ↔ Fits k b ∨ Refused k b := by
  constructor
  · intro h
    by_contra hnot
    rw [not_or] at hnot
    obtain ⟨hfits,hrefused⟩ := hnot
    obtain ⟨o,ho,hstate⟩ := failed_ended (whole_fails hfits)
    have hsame := (h [b] (singles b) List.flatten_singleton (singles_flatten b)).1
    rw [ho,Option.map_some] at hsame
    refine hrefused (refused_of_singles ?_)
    rcases drive_cases (k := k) (singles b) with ⟨hfailed,-⟩ | ⟨hnone,-⟩ | ⟨p,q,t,-,-,-,hfinal,hdrive,-⟩
    · exact hfailed
    · rw [hnone] at hsame
      cases hsame
    · obtain ⟨o',ho',hstate'⟩ := concluded_ended hdrive hfinal
      rw [ho',Option.map_some] at hsame
      have hclash := (Option.some.inj hsame).symm.trans hstate
      exact absurd (hstate'.symm.trans hclash) (ending_not_protocolError _)
  · rintro (hfits | hrefused) chunks chunks' hflat hflat'
    · exact hfits.sameEnd hflat hflat'
    · exact sameEnd_of_failed (hrefused.fails hflat) (hrefused.fails hflat')

/-! ### A stream of short events -/

def shortLoads (d : Text) : Loaded :=
  if d = "\x7b\x7d".toList then .value (.obj [])
  else if d = "\x7b\"choices\": [\x7b\"finish_reason\": \"stop\"\x7d]\x7d".toList then
    .value (.obj [("choices",.arr [.obj [("finish_reason",.str "stop")]])])
  else .invalid

def shortSettings : Settings := ⟨.chat,1000,64,10,shortLoads,fun _ => "stop"⟩

def shortStream : List UInt8 :=
  "data: \x7b\x7d\n\ndata: \x7b\"choices\": [\x7b\"finish_reason\": \"stop\"\x7d]\x7d\r\n\r\ndata: [DONE]\n\n".toUTF8.toList

/-- The stream succeeds byte by byte and fails as one chunk. -/
theorem short_events_refused_whole : ¬∀ (k : Settings) (b : List UInt8) (chunks chunks' : List (List UInt8)),
    chunks.flatten = b → chunks'.flatten = b → SameEnd (ended k chunks) (ended k chunks') := by
  intro h
  have hsame := (h shortSettings shortStream [shortStream] (singles shortStream) List.flatten_singleton
    (singles_flatten shortStream)).1
  have hwhole : (ended shortSettings [shortStream]).map StreamOutcome.state = some .protocolError := by decide +kernel
  have hsingles : (ended shortSettings (singles shortStream)).map StreamOutcome.state = some .success := by decide +kernel
  rw [hwhole,hsingles] at hsame
  cases hsame

end Verdict.Stream

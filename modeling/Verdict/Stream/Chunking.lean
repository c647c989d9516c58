import Verdict.Stream.Grammar

/-! # Streams cut into chunks

A chunk is admitted when its bytes fit, it continues the UTF-8 read so far, and the line it
continues fits in the buffer together with the whole text of the chunk. By the last test the same
bytes are admitted one by one and refused as one chunk. Otherwise the parser stops where the
grammar of the text says.
-/
namespace Verdict.Stream
open Sse (Text newline)
open Raising
open SSETerminalParser (fail feedChunk feedText finalize finishOpen)
open Utf8 (decode decode_append)

section Chunks
variable (k : Settings)

/-- The three tests on a chunk `c` that arrives after the bytes `b`. -/
def Admits (b c : List UInt8) : Prop :=
  b.length + c.length ≤ k.maxBytes ∧ ∃ m t d u, decode .start b = some (m,t) ∧ decode m c = some (d,u) ∧
    (Sse.unfinished t).length + u.length ≤ k.maxBuffer

/-- The bytes decode to a sound text, up to a last character that may be unfinished. -/
def SoundBytes (b : List UInt8) : Prop := ∃ m t, decode .start b = some (m,t) ∧ Sound k t

/-- The first place where the text of the bytes stops the parser, and how it does. -/
def StopsIn (stop : Text → Char → Prop) (b : List UInt8) : Prop :=
  ∃ m t u c, decode .start b = some (m,t) ∧ u ++ [c] <+: t ∧ Sound k u ∧ stop u c

def Fine (b : List UInt8) : Prop := ∀ u x, u ++ [x] <+: b → Admits k u [x]

/-- The parser has read the bytes, and each of them would have been admitted by itself. -/
structure Reads (b : List UInt8) (p : SSETerminalParser) : Prop where
  text : ∃ t, decode .start b = some (p.decoder,t) ∧ t.foldlM (readChar k) ([],{}) = .ok (p.buffer,p.toEventLog)
  bytes : p.bytes = b.length
  fine : Fine k b

variable {k}
variable {b : List UInt8}

theorem decode_prefix {a : List UInt8} {m : Utf8.State} {t : Text} (h : decode .start b = some (m,t)) (hab : a <+: b) :
    ∃ n s, decode .start a = some (n,s) ∧ s <+: t := by
  obtain ⟨c,rfl⟩ := hab
  obtain ⟨n,s,s',hs,-,rfl⟩ := decode_append.mp h
  exact ⟨n,s,hs,List.prefix_append _ _⟩

variable {c : List UInt8}

theorem Admits.fine {v : List UInt8} {y : UInt8} (h : Admits k b c) (hv : v ++ [y] <+: c) : Admits k (b ++ v) [y] := by
  obtain ⟨hbytes,m,t,d,u,hb,hc,hbuffer⟩ := h
  obtain ⟨w,rfl⟩ := hv
  obtain ⟨n,s,s',hvy,hw,rfl⟩ := decode_append.mp hc
  obtain ⟨n',r,r',hv,hy,rfl⟩ := decode_append.mp hvy
  refine ⟨?_,n',t ++ r,n,r',Utf8.decode_append_of hb hv,hy,?_⟩
  · simp only [List.length_append,List.length_singleton] at hbytes ⊢
    omega
  · have hline := Sse.unfinished_append_length t r
    simp only [List.length_append] at hbuffer
    omega

theorem Admits.fine_append (h : Admits k b c) (hb : Fine k b) : Fine k (b ++ c) := by
  intro v x hv
  rcases List.prefix_or_prefix_of_prefix hv (List.prefix_append b c) with hle | hle
  · exact hb v x hle
  · rcases List.prefix_concat_iff.mp hle with rfl | ⟨w,rfl⟩
    · exact hb v x (List.prefix_refl _)
    · rw [List.append_assoc,List.prefix_append_right_inj] at hv
      exact h.fine hv

theorem Reads.empty : Reads k [] {} :=
  ⟨⟨[],rfl,rfl⟩,rfl,fun u x h => absurd (List.prefix_nil.mp h) (List.append_ne_nil_of_right_ne_nil u (List.cons_ne_nil x []))⟩

variable {p : SSETerminalParser}

theorem Reads.sound (h : Reads k b p) : SoundBytes k b := by
  obtain ⟨t,hdecode,hread⟩ := h.text
  exact ⟨_,t,hdecode,(read_describes hread).2⟩

theorem Reads.outcome (h : Reads k b p) : p.outcome = none := by
  obtain ⟨t,-,hread⟩ := h.text
  exact (read_describes hread).1.outcome

variable {q : SSETerminalParser}

theorem Reads.unique (hp : Reads k b p) (hq : Reads k b q) : p = q := by
  obtain ⟨t,hdecode,hread⟩ := hp.text
  obtain ⟨t',hdecode',hread'⟩ := hq.text
  obtain ⟨hdecoder,rfl⟩ := Prod.mk.inj (Option.some.inj (hdecode.symm.trans hdecode'))
  obtain ⟨hbuffer,hlog⟩ := Prod.mk.inj (Except.ok.inj (hread.symm.trans hread'))
  have hbytes := hp.bytes.trans hq.bytes.symm
  obtain ⟨plog,pdecoder,pbuffer,pbytes⟩ := p
  cases hdecoder
  cases hbuffer
  cases hlog
  cases hbytes
  rfl

/-! ### One chunk -/

def Failed (call : Call SSETerminalParser) : Prop :=
  ∃ message p, call = .error (.protocol message,p) ∧ FailedLog p.toEventLog

theorem failed_fail (message : String) (h : p.outcome = none) : Failed (p.fail k message) := by
  obtain ⟨message',log,hfail,hfailed⟩ := fail_failed (k := k) _ message h
  rw [fail,hfail]
  exact ⟨message',_,rfl,hfailed⟩

theorem feedChunk_cases (h : Reads k b p) :
    (∃ p', p.feedChunk k (.bytes c) = .ok p' ∧ Reads k (b ++ c) p' ∧ Admits k b c) ∨
    (Failed (p.feedChunk k (.bytes c)) ∧ (¬Admits k b c ∨ Admits k b c ∧ StopsIn k (Refuses k) (b ++ c))) ∨
    ∃ p', p.feedChunk k (.bytes c) = .error (.uncaught,p') ∧ p'.outcome = none ∧ Admits k b c ∧ StopsIn k
    (Crashes k) (b ++ c) := by
  obtain ⟨t,hdecode,hread⟩ := h.text
  obtain ⟨hdescribes,-⟩ := read_describes hread
  have hfree : newline ∉ p.buffer := read_newline_free List.not_mem_nil hread
  rw [feedChunk,if_neg (not_not.mpr h.outcome)]
  simp only
  by_cases hbytes : p.bytes + c.length > k.maxBytes
  · rw [if_pos hbytes]
    refine .inr (.inl ⟨failed_fail _ h.outcome,.inl fun hadmits => ?_⟩)
    exact absurd hadmits.1 (Nat.not_le.mpr (h.bytes ▸ hbytes))
  rw [if_neg hbytes]
  cases hchunk : decode p.decoder c with
  | none =>
    simp only
    refine .inr (.inl ⟨failed_fail _ h.outcome,.inl ?_⟩)
    rintro ⟨-,m,t',d,u,hm,hc,-⟩
    rw [hdecode] at hm
    cases hm
    rw [hchunk] at hc
    cases hc
  | some r =>
    obtain ⟨d,u⟩ := r
    simp only
    have hlen : p.buffer.length = (Sse.unfinished t).length := congrArg List.length hdescribes.line
    by_cases hbuffer : p.buffer.length + u.length > k.maxBuffer
    · rw [feedText,if_pos (by rw [List.length_append]; exact hbuffer)]
      refine .inr (.inl ⟨failed_fail _ h.outcome,.inl ?_⟩)
      rintro ⟨-,m,t',d',u',hm,hc,hline⟩
      rw [hdecode] at hm
      cases hm
      rw [hchunk] at hc
      cases hc
      omega
    have hadmits : Admits k b c := by
      refine ⟨h.bytes ▸ Nat.not_lt.mp hbytes,_,t,d,u,hdecode,hchunk,?_⟩
      omega
    have hwhole := Utf8.decode_append_of hdecode hchunk
    obtain ⟨q,hq⟩ : ∃ q, q = {p with bytes := p.bytes + c.length, decoder := d} := ⟨_,rfl⟩
    have hview : view (q.feedText k u) = u.foldlM (readChar k) (q.buffer,q.toEventLog) :=
      feedText_view (hq ▸ hfree) (hq ▸ Nat.not_lt.mp hbuffer)
    have htext : (t ++ u).foldlM (readChar k) ([],{}) = view (q.feedText k u) := by
      rw [List.foldlM_append,hread,hview,hq]
      rfl
    rw [← hq]
    cases hfeed : q.feedText k u with
    | ok p' =>
      rw [hfeed] at htext
      obtain ⟨hdecoder,hcount⟩ := feedText_transport hfeed
      refine .inl ⟨p',rfl,⟨⟨t ++ u,?_,htext⟩,?_,hadmits.fine_append h.fine⟩,hadmits⟩
      · rw [hdecoder,hq]
        exact hwhole
      · rw [hcount,hq,List.length_append,← h.bytes]
    | error e =>
      obtain ⟨raised,p'⟩ := e
      rw [hfeed] at htext
      obtain ⟨v,x,hv,hsound,⟨⟨message,rfl⟩,hfailed,href⟩ | ⟨rfl,hnone,hcrash⟩⟩ := read_stops htext
      · exact .inr (.inl ⟨⟨message,p',rfl,hfailed⟩,.inr ⟨hadmits,d,t ++ u,v,x,hwhole,hv,hsound,href⟩⟩)
      · exact .inr (.inr ⟨p',rfl,hnone,hadmits,d,t ++ u,v,x,hwhole,hv,hsound,hcrash⟩)

/-! ### All chunks -/

theorem feedAll_ok (h : p.feedChunk k (.bytes c) = .ok q)
    (cs : List (List UInt8)) : feedAll k p (c :: cs) = feedAll k q cs := by
  rw [feedAll,List.foldlM_cons,h]
  rfl

theorem feedAll_error {e : Raised × SSETerminalParser}
    (h : p.feedChunk k (.bytes c) = .error e) (cs : List (List UInt8)) : feedAll k p (c :: cs) = .error e := by
  rw [feedAll,List.foldlM_cons,h]
  rfl

theorem feedAll_cases (h : Reads k b p) (cs : List (List UInt8)) :
    (∃ p', feedAll k p cs = .ok p' ∧ Reads k (b ++ cs.flatten) p' ∧
        ∀ pre c post, cs = pre ++ c :: post → Admits k (b ++ pre.flatten) c) ∨
      (Failed (feedAll k p cs) ∧ ∃ pre c post, cs = pre ++ c :: post ∧ (∃ q, Reads k (b ++ pre.flatten) q) ∧
        (¬Admits k (b ++ pre.flatten) c ∨
          Admits k (b ++ pre.flatten) c ∧ StopsIn k (Refuses k) (b ++ pre.flatten ++ c))) ∨
      ∃ p', feedAll k p cs = .error (.uncaught,p') ∧ p'.outcome = none ∧
        ∃ pre c post, cs = pre ++ c :: post ∧ Fine k (b ++ pre.flatten ++ c) ∧
          StopsIn k (Crashes k) (b ++ pre.flatten ++ c) := by
  induction cs generalizing b p with
  | nil =>
    refine .inl ⟨p,rfl,?_,fun pre c post hsplit => ?_⟩
    · rw [List.flatten_nil,List.append_nil]
      exact h
    · exact absurd hsplit.symm (List.append_ne_nil_of_right_ne_nil pre (List.cons_ne_nil c post))
  | cons c cs ih =>
    rcases feedChunk_cases (c := c) h with ⟨q,hchunk,hq,hadmits⟩ | ⟨hfailed,hwhy⟩ | ⟨q,hchunk,hnone,hadmits,hcrash⟩
    · rw [feedAll_ok hchunk]
      have hflat : ∀ pre : List (List UInt8), b ++ (c :: pre).flatten = b ++ c ++ pre.flatten := by
        intro pre
        rw [List.flatten_cons,List.append_assoc]
      rcases ih hq with ⟨p',hrest,hp',hall⟩ | ⟨hfailed,pre,d,post,rfl,hpre,hwhy⟩ | ⟨p',hrest,hnone,pre,d,post,rfl,hfine,hcrash⟩
      · left
        refine ⟨p',hrest,?_,?_⟩
        · rw [hflat]
          exact hp'
        · intro pre d post hsplit
          cases pre with
          | nil =>
            cases hsplit
            rw [List.flatten_nil,List.append_nil]
            exact hadmits
          | cons e pre =>
            cases hsplit
            rw [hflat]
            exact hall pre d post rfl
      · right
        left
        refine ⟨hfailed,c :: pre,d,post,rfl,?_⟩
        rw [hflat]
        exact ⟨hpre,hwhy⟩
      · right
        right
        refine ⟨p',hrest,hnone,c :: pre,d,post,rfl,?_⟩
        rw [hflat]
        exact ⟨hfine,hcrash⟩
    · right
      left
      obtain ⟨message,q,hchunk,hlog⟩ := hfailed
      rw [feedAll_error hchunk]
      refine ⟨⟨message,q,rfl,hlog⟩,[],c,cs,rfl,?_⟩
      rw [List.flatten_nil,List.append_nil]
      exact ⟨⟨p,h⟩,hwhy⟩
    · right
      right
      rw [feedAll_error hchunk]
      refine ⟨q,rfl,hnone,[],c,cs,rfl,?_⟩
      rw [List.flatten_nil,List.append_nil]
      exact ⟨hadmits.fine_append h.fine,hcrash⟩

/-! ### The end -/

def finalTexts (t : Text) : List Text := if Sse.openData t = [] then texts t else texts t ++ [openText t]

def RefusedAtEnd (k : Settings) (b : List UInt8) : Prop :=
  ∃ m t, decode .start b = some (m,t) ∧ (m ≠ .start ∨ Sse.openData t ≠ [] ∧ Faulty k (texts t) (openText t))

def CrashedAtEnd (k : Settings) (b : List UInt8) : Prop :=
  ∃ t, decode .start b = some (.start,t) ∧ Sse.openData t ≠ [] ∧ Crashing k (texts t) (openText t)

/-- The event fields when the stream has ended and the last event is accepted. -/
structure Closes (k : Settings) (t : Text) (log : EventLog) : Prop where
  done : log.done = true ↔ ∃ d ∈ finalTexts t, reading k d = .done
  terminal : ∀ type, log.responsesTerminal = some type ↔ ∃ d ∈ finalTexts t, typeOf k d = some type
  last : Sse.openData t ≠ [] → ¬Faulty k (texts t) (openText t) ∧ ¬Crashing k (texts t) (openText t)

theorem finalize_complete (houtcome : p.outcome = none) (hdecoder : p.decoder = .start) :
    p.finalize k = match p.finishOpen k with
      | .ok q => q.lift (q.toEventLog.conclude k)
      | .error e => .error e := by
  obtain ⟨log,decoder,buffer,bytes⟩ := p
  cases hdecoder
  rw [finalize,if_neg (not_not.mpr houtcome)]
  show Except.bind (finishOpen k _) _ = _
  cases finishOpen k _ <;> rfl

theorem finalize_cases (h : Reads k b p) : (Failed (p.finalize k) ∧ RefusedAtEnd k b) ∨
    (∃ p', p.finalize k = .error (.uncaught,p') ∧ p'.outcome = none ∧ CrashedAtEnd k b) ∨ ∃ (t : Text)
    (q : SSETerminalParser), decode .start b = some (.start,t) ∧ p.finalize k = q.lift
    (q.toEventLog.conclude k) ∧ Closes k t q.toEventLog := by
  obtain ⟨t,hdecode,hread⟩ := h.text
  obtain ⟨hdescribes,-⟩ := read_describes hread
  by_cases hdecoder : p.decoder = .start
  · rw [finalize_complete h.outcome hdecoder,finishOpen]
    rw [hdecoder] at hdecode
    have hdata : p.eventData = Sse.openData t := hdescribes.data
    by_cases hopen : Sse.openData t = []
    · rw [if_neg (not_not.mpr (hdata.trans hopen))]
      refine .inr (.inr ⟨t,p,hdecode,rfl,?_,?_,fun hne => absurd hopen hne⟩)
      · rw [finalTexts,if_pos hopen]
        exact hdescribes.done
      · rw [finalTexts,if_pos hopen]
        exact hdescribes.terminal
    · have htext : Sse.joined p.eventData = openText t := by
        rw [hdata,openText]
      rw [if_pos (hdata ▸ hopen)]
      rcases finishEvent_cases (k := k) p.toEventLog hdescribes.outcome with
        ⟨message,log,hfinish,hfailed,href⟩ | ⟨hfinish,hlooks,hraises⟩ | ⟨log,hfinish,hlooks,href,hraises,habsorbs⟩
      · rw [hfinish]
        exact .inl ⟨⟨message,_,rfl,hfailed⟩,_,t,hdecode,.inr ⟨hopen,hdescribes.refusesEvent.mp href⟩⟩
      · rw [hfinish]
        rw [htext] at hraises
        obtain ⟨hcount,hends⟩ := hdescribes.looks.mp hlooks
        exact .inr (.inl ⟨_,rfl,hdescribes.outcome,t,hdecode,hopen,hcount,hends,hraises⟩)
      · rw [hfinish]
        rw [htext] at hraises habsorbs
        obtain ⟨hdone,hterminal⟩ := hdescribes.ended hlooks habsorbs
        refine .inr (.inr ⟨t,{p with toEventLog := log},hdecode,rfl,?_,?_,fun _ => ⟨?_,fun hcrash => hraises hcrash.2.2⟩⟩)
        · rw [finalTexts,if_neg hopen]
          exact hdone
        · rw [finalTexts,if_neg hopen]
          exact hterminal
        · exact fun hfaulty => href (hdescribes.refusesEvent.mpr hfaulty)
  · left
    rw [finalize,if_neg (not_not.mpr h.outcome)]
    cases hd : p.decoder with
    | start => exact absurd hd hdecoder
    | inside owed low high bits =>
      exact ⟨failed_fail _ h.outcome,_,t,hdecode,.inl hdecoder⟩

end Chunks
end Verdict.Stream

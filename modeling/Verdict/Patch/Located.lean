import Verdict.Patch.Repair

/-! # Numbering a hunk names no file

`repair_bare_hunks` cuts lines as `splitlines` does and puts line feeds where git sees none
before. Where every `@@` that it numbers has a line of its own, the rewritten diff names the files
that the diff names to a reader who takes such a line for the header of a hunk.
-/
namespace Verdict.Patch
open GitPatch Path
open List (append_assoc cons_append flatten_cons forall_mem_cons map_cons mem_pair singleton_append)
open Reading (step)
open Locating (enter locate take)

def hasBare (l : Text) : Bool := (pieces l).any fun p => isBare p.text

/-- No `@@` that the loop numbers shares its line. `fresh`: the last piece ended a line. -/
def numbersLines (tree : Tree) (st : Locating) (fresh : Bool) : List Piece → Bool
  | [] => true
  | p :: rest => match st.enter (st.take p).text with
    | .error _ => true
    | .ok entered =>
      if isBare (st.take p).text then
        fresh && p.last && match entered.locate tree rest with
          | .error _ => true
          | .ok (_,located) => numbersLines tree located true rest
      else numbersLines tree entered p.last rest

/-- The reader of the documentation, who takes an unnumbered `@@` for the header of a hunk. -/
def eager (unquote : Text → Option Text) : Reading := ⟨unquote,fun l => startsWith "@@ -" l || hasBare l⟩

variable {unquote : Text → Option Text} {tree : Tree} {st st' : Locating} {l t : Text} {p : Piece}
  {ps qs out : List Piece} {ls : List Text} {m : Mode}
variable {c : Char}

theorem isBare_cons (hc : isSpace c = false) (hat : c ≠ '@') : isBare (c :: t) = false := by
  obtain ⟨t',ht⟩ := strip_cons (t := t) hc
  simp only [isBare,ht,List.cons.injEq,hat,false_and,decide_false]

theorem isBare_addition : isBare (asAddition p).text = false := isBare_cons (by decide) (by decide)

theorem pieces_shape (l : Text) : ∃ ps t, pieces l = ps ++ [⟨t,true⟩] ∧ ∀ p ∈ ps, p.last = false := by
  induction l with
  | nil => exact ⟨[],[],rfl,fun p hp => absurd hp List.not_mem_nil⟩
  | cons c l ih =>
    obtain ⟨ps,t,hps,hlast⟩ := ih
    rw [pieces]
    split
    · exact ⟨⟨[c],false⟩ :: ps,t,by rw [hps,cons_append],forall_mem_cons.mpr ⟨rfl,hlast⟩⟩
    · cases ps with
      | nil => exact ⟨[],c :: t,by rw [hps]; rfl,hlast⟩
      | cons p ps =>
        obtain ⟨hp,hlast⟩ := forall_mem_cons.mp hlast
        exact ⟨⟨c :: p.text,p.last⟩ :: ps,t,by rw [hps]; rfl,forall_mem_cons.mpr ⟨hp,hlast⟩⟩

theorem pieces_flatten (l : Text) : ((pieces l).map Piece.text).flatten = l := by
  induction l with
  | nil => rfl
  | cons c l ih =>
    rw [pieces]
    split
    · rw [map_cons,flatten_cons,ih]
      rfl
    · cases hps : pieces l with
      | nil =>
        obtain ⟨ps,t,hshape,-⟩ := pieces_shape l
        rw [hps] at hshape
        exact absurd hshape.symm (by simp)
      | cons p ps =>
        rw [hps] at ih
        exact congrArg (c :: ·) ih

theorem regroup_line (h : ∀ p ∈ qs, p.last = false) (t : Text) (ps : List Piece) :
    regroup (qs ++ ⟨t,true⟩ :: ps) = ((qs.map Piece.text).flatten ++ t) :: regroup ps := by
  induction qs with
  | nil => rfl
  | cons q qs ih =>
    obtain ⟨hq,hqs⟩ := forall_mem_cons.mp h
    obtain ⟨text,last⟩ := q
    cases hq
    rw [cons_append,regroup,ih hqs,map_cons,flatten_cons,append_assoc]

def additions : ℕ → List Piece → List Piece
  | _, [] => []
  | k, p :: ps => (if 0 < k then asAddition p else p) :: additions (k - 1) ps

theorem additions_zero (ps : List Piece) : additions 0 ps = ps := by
  induction ps with
  | nil => rfl
  | cons p ps ih => rw [additions,Nat.zero_sub,ih,if_neg (Nat.lt_irrefl 0)]

theorem additions_line (k : ℕ) (l : Text) (ps : List Piece) :
    regroup (additions k (pieces l) ++ ps) = ((additions k (pieces l)).map Piece.text).flatten :: regroup ps := by
  obtain ⟨qs,t,hshape,hlast⟩ := pieces_shape l
  rw [hshape]
  clear hshape
  have hadd : ∀ k, ∃ qs' t', additions k (qs ++ [⟨t,true⟩]) = qs' ++ [⟨t',true⟩] ∧ ∀ q ∈ qs', q.last = false := by
    induction qs with
    | nil =>
      intro k
      by_cases hk : 0 < k
      · exact ⟨[],'+' :: t.tail,by simp [additions,hk,asAddition],by simp⟩
      · exact ⟨[],t,by simp [additions,hk],by simp⟩
    | cons q qs ih =>
      intro k
      obtain ⟨hq,hqs⟩ := forall_mem_cons.mp hlast
      obtain ⟨qs',t',heq,hlast'⟩ := ih hqs (k - 1)
      refine ⟨(if 0 < k then asAddition q else q) :: qs',t',by rw [cons_append,additions,heq,cons_append],?_⟩
      refine forall_mem_cons.mpr ⟨?_,hlast'⟩
      split
      · exact hq
      · exact hq
  obtain ⟨qs',t',heq,hlast'⟩ := hadd k
  rw [heq,append_assoc,singleton_append,regroup_line hlast',List.map_append,List.flatten_append]
  simp

theorem enter_todo {u : Text} (h : st.enter u = .ok st') : st'.todo = st.todo - 1 := by
  simp only [enter] at h
  split at h
  · cases hpath : namedPath u with
    | error e => rw [hpath] at h; cases h
    | ok path =>
      rw [hpath] at h
      cases h
      split <;> rfl
  · cases h
    split <;> rfl

def endsLine (fresh : Bool) (qs : List Piece) : Bool := (qs.getLast?.map Piece.last).getD fresh

variable {fresh : Bool}

/-- The loop leaves pieces without an unnumbered `@@` in their place. -/
theorem bareLoop_pass (hqs : ∀ q ∈ additions st.todo qs, isBare q.text = false)
    (h : bareLoop tree st (qs ++ ps) = .ok out) (hwhole : numbersLines tree st fresh (qs ++ ps) = true) : ∃
    st' out', bareLoop tree st' ps = .ok out' ∧ numbersLines tree st' (endsLine fresh qs) ps = true ∧ out =
    additions st.todo qs ++ out' ∧ st'.todo = st.todo - qs.length := by
  induction qs generalizing st out fresh with
  | nil => exact ⟨st,out,h,hwhole,rfl,rfl⟩
  | cons q qs ih =>
    rw [additions,forall_mem_cons] at hqs
    obtain ⟨hq,hqs⟩ := hqs
    have hq : isBare (st.take q).text = false := by
      rw [take]
      exact hq
    rw [cons_append,bareLoop] at h
    rw [cons_append,numbersLines] at hwhole
    split at h
    · cases h
    · rename_i entered henter
      rw [henter] at hwhole
      dsimp only at hwhole
      rw [hq,if_neg Bool.false_ne_true] at h hwhole
      cases hrest : bareLoop tree entered (qs ++ ps) with
      | error e => rw [hrest] at h; cases h
      | ok rest =>
        rw [hrest] at h
        cases h
        rw [← enter_todo henter] at hqs
        obtain ⟨st',out',hloop,hwhole',rfl,htodo⟩ := ih hqs hrest hwhole
        refine ⟨st',out',hloop,?_,?_,?_⟩
        · cases qs with
          | nil => exact hwhole'
          | cons q' qs =>
            rw [endsLine,List.getLast?_cons_cons]
            exact hwhole'
        · rw [additions,enter_todo henter]
          rfl
        · rw [htodo,enter_todo henter,List.length_cons,Nat.sub_sub,Nat.add_comm]

theorem bare_alone (hlast : ∀ q ∈ qs, q.last = false) (h : bareLoop tree st (qs ++ ⟨t,true⟩ :: ps) = .ok out)
    (hwhole : numbersLines tree st fresh (qs ++ ⟨t,true⟩ :: ps) = true) :
    (∀ q ∈ additions st.todo (qs ++ [⟨t,true⟩]), isBare q.text = false) ∨
      fresh = true ∧ qs = [] ∧ st.todo = 0 ∧ isBare t = true := by
  have htake : ∀ (st : Locating) (q : Piece) (rest : List Piece), isBare (st.take q).text = false →
      (∀ p ∈ additions (st.todo - 1) rest, isBare p.text = false) → ∀ p ∈ additions st.todo (q :: rest), isBare p.text = false := by
    intro st q rest hq hrest
    rw [additions]
    exact forall_mem_cons.mpr ⟨hq,hrest⟩
  induction qs generalizing st out fresh with
  | nil =>
    rw [List.nil_append] at h hwhole
    rw [bareLoop] at h
    rw [numbersLines] at hwhole
    split at h
    · cases h
    · rename_i entered henter
      rw [henter] at hwhole
      cases hbare : isBare (st.take ⟨t,true⟩).text with
      | false => exact .inl (htake st _ [] hbare (by simp [additions]))
      | true =>
        rw [hbare] at hwhole
        rcases Nat.eq_zero_or_pos st.todo with htodo | htodo
        · rw [take,htodo,if_neg (Nat.lt_irrefl 0)] at hbare
          exact .inr ⟨by simp at hwhole; exact hwhole.1,rfl,htodo,hbare⟩
        · rw [take,if_pos htodo,isBare_addition] at hbare
          cases hbare
  | cons q qs ih =>
    obtain ⟨hq,hqs⟩ := forall_mem_cons.mp hlast
    rw [cons_append,bareLoop] at h
    rw [cons_append,numbersLines] at hwhole
    split at h
    · cases h
    · rename_i entered henter
      rw [henter] at hwhole
      dsimp only at hwhole
      cases hbare : isBare (st.take q).text with
      | true => simp [hbare,hq] at hwhole
      | false =>
        rw [hbare,if_neg Bool.false_ne_true] at h hwhole
        cases hrest : bareLoop tree entered (qs ++ ⟨t,true⟩ :: ps) with
        | error e => rw [hrest] at h; cases h
        | ok rest =>
          rcases ih hqs hrest hwhole with hnone | ⟨hfresh,-⟩
          · exact .inl (htake st q _ hbare (enter_todo henter ▸ hnone))
          · exact absurd (hq.symm.trans hfresh) Bool.false_ne_true

/-- Of a whole line the loop numbers all, or no piece at all. -/
theorem whole_line (h : bareLoop tree st (pieces l ++ ps) = .ok out) (hwhole : numbersLines tree st true (pieces l ++ ps) = true) :
    (∀ q ∈ additions st.todo (pieces l), isBare q.text = false) ∨
      st.todo = 0 ∧ pieces l = [⟨l,true⟩] ∧ isBare l = true := by
  obtain ⟨qs,t,hshape,hlast⟩ := pieces_shape l
  have hflat := pieces_flatten l
  rw [hshape] at h hwhole hflat ⊢
  rw [append_assoc,singleton_append] at h hwhole
  rcases bare_alone hlast h hwhole with hnone | ⟨-,rfl,htodo,hbare⟩
  · exact .inl hnone
  · obtain rfl : t = l := by simpa using hflat
    exact .inr ⟨htodo,rfl,hbare⟩

theorem endsLine_pieces (fresh : Bool) (l : Text) : endsLine fresh (pieces l) = true := by
  obtain ⟨qs,t,hshape,-⟩ := pieces_shape l
  rw [endsLine,hshape,List.getLast?_concat]
  rfl

def Fed (st : Locating) (ps : List Piece) : Prop := ∀ p ∈ ps.take st.todo, starts ['+',' '] p = true

theorem startsWith_newHeader (n : Text) : startsWith "@@ -" ("@@ -0,0 +1,".toList ++ n ++ " @@".toList) = true := by
  iterate 2 apply startsWith_append
  decide +kernel

theorem startsWith_hunkHeader (oldStart newStart : Text) (old new : ℕ) :
    startsWith "@@ -" (hunkHeader oldStart old newStart new) = true := by
  unfold hunkHeader
  iterate 7 apply startsWith_append
  exact startsWith_iff.mpr ⟨oldStart,rfl⟩

variable {header : Text}

/-- An unnumbered `@@` gets the header of a hunk; where its lines are a new file's, they are marked. -/
theorem locate_header (htodo : st.todo = 0) (h : st.locate tree ps = .ok (header,st')) :
    startsWith "@@ -" header = true ∧ Fed st' ps := by
  have hnone : ∀ st' : Locating, st'.todo = 0 → Fed st' ps := fun st' h0 p hp => by
    rw [h0,List.take_zero] at hp
    exact absurd hp List.not_mem_nil
  rw [locate] at h
  cases hpath : st.path with
  | none =>
    rw [hpath] at h
    cases h
  | some path =>
    rw [hpath] at h
    dsimp only at h
    cases hexists : tree.exists? path with
    | error reason =>
      rw [hexists] at h
      cases h
    | ok present =>
      rw [hexists] at h
      cases present with
      | false =>
        dsimp only at h
        split at h
        · cases h
        · rename_i hbody
          cases h
          refine ⟨startsWith_newHeader _,fun p hp => ?_⟩
          simp only [not_or,not_not] at hbody
          dsimp only at hp
          rw [← List.prefix_iff_eq_take.mp (List.takeWhile_prefix _)] at hp
          exact List.all_eq_true.mp hbody.2 p hp
      | true =>
        dsimp only at h
        cases hread : tree.read path with
        | error e =>
          rw [hread] at h
          cases e with
          | refused reason => cases h
          | raised => cases h
        | ok source =>
          rw [hread] at h
          dsimp only at h
          split at h
          · split at h
            · cases h
            · obtain ⟨rfl,rfl⟩ := Prod.mk.inj (Except.ok.inj h)
              exact ⟨startsWith_hunkHeader ..,hnone _ htodo⟩
          · cases h

/-- A word that starts neither with a blank nor as an unnumbered `@@` does. -/
def apart (lit : String) : Bool := match lit.toList with
  | c :: _ => !isSpace c && decide (c ≠ '@')
  | [] => false

theorem bare_apart {lit : String} (hlit : apart lit = true) (h : isBare l = true) : startsWith lit l = false := by
  by_contra hstart
  obtain ⟨rest,rfl⟩ := startsWith_iff.mp (eq_true_of_ne_false hstart)
  simp only [apart] at hlit
  split at hlit
  · rename_i c u hchars
    obtain ⟨hc,hat⟩ : isSpace c = false ∧ c ≠ '@' := by simpa using hlit
    rw [hchars,cons_append,isBare_cons hc hat] at h
    exact absurd h (by decide)
  · cases hlit

theorem bare_apart_all {lits : List String} (hlits : lits.all apart = true) (h : isBare l = true) :
    lits.any (startsWith · l) = false :=
  List.any_eq_false.mpr (fun lit hlit => by
    rw [bare_apart (List.all_eq_true.mp hlits lit hlit) h]
    exact Bool.false_ne_true)

theorem due_append (m : Mode) : m.due ++ [] = m.due := List.append_nil _

theorem step_bare (hbare : isBare l = true) (hlone : hasBare l = true) : (eager unquote).step m l = (.hunk,m.due) := by
  have hside : startsWith "--- " l = false := bare_apart (by decide +kernel) hbare
  have hmove : isMove l = false := bare_apart_all (by decide +kernel) hbare
  have hchange : isChange l = false := bare_apart_all (by decide +kernel) hbare
  have hremark : isRemark l = false := bare_apart_all (by decide +kernel) hbare
  have hfresh : (eager unquote).fresh l = (.hunk,[]) := if_pos (by simp [eager,hlone])
  cases m with
  | loose => simp only [step,hside,Bool.false_eq_true,if_false,hfresh,Mode.due]
  | hunk => simp only [step,hside,Bool.false_eq_true,if_false,hfresh,ite_self,Mode.due]
  | headers file change renamed =>
    simp only [step,hside,hmove,hchange,hremark,Bool.false_eq_true,if_false,hfresh,due_append]

theorem step_opens (h : startsWith "@@ -" header = true) :
    (documented unquote).step m header = (.hunk,m.due) := by
  obtain ⟨t,rfl⟩ := startsWith_iff.mp h
  have hfresh : (documented unquote).fresh ("@@ -".toList ++ t) = (.hunk,[]) := if_pos h
  cases m with
  | loose =>
    simp only [step,hfresh]
    rfl
  | hunk =>
    simp only [step,hfresh,ite_self]
    rfl
  | headers file change renamed =>
    simp only [step,hfresh,due_append]
    rfl

theorem step_content {g : Reading} (hc : c ∈ ['+',' ']) (t : Text) : g.step .hunk (c :: t) = (.hunk,[]) := by
  have hside : startsWith "--- " (c :: t) = false := by
    rcases mem_pair.mp hc with rfl | rfl <;> rfl
  exact step_marked hside (by rcases mem_pair.mp hc with rfl | rfl <;> rfl)

theorem fed_line (htodo : 0 < st.todo) (h : Fed st (pieces l ++ ps)) :
    (∃ c ∈ ['+',' '], ∃ t, l = c :: t) ∧ ∃ t, ((additions st.todo (pieces l)).map Piece.text).flatten = '+' :: t := by
  have hflat := pieces_flatten l
  cases hps : pieces l with
  | nil =>
    obtain ⟨qs,t,hshape,-⟩ := pieces_shape l
    rw [hps] at hshape
    exact absurd hshape.symm (by simp)
  | cons p qs =>
    rw [hps] at h hflat
    refine ⟨?_,?_⟩
    · have hp : starts ['+',' '] p = true := h p (by
        obtain ⟨k,hk⟩ := Nat.exists_eq_add_of_lt htodo
        rw [hk,Nat.zero_add,cons_append,List.take_succ_cons]
        exact List.mem_cons_self)
      simp only [starts] at hp
      split at hp
      · rename_i c hc
        obtain ⟨u,hu⟩ := List.head?_eq_some_iff.mp hc
        rw [map_cons,flatten_cons,hu,cons_append] at hflat
        exact ⟨c,of_decide_eq_true hp,_,hflat.symm⟩
      · cases hp
    · rw [additions,if_pos htodo,map_cons,flatten_cons]
      exact ⟨_,rfl⟩

theorem fed_rest (h : Fed st (qs ++ ps)) (htodo : st'.todo = st.todo - qs.length) : Fed st' ps := fun p hp => by
  refine h p ?_
  rw [List.take_append,← htodo]
  exact List.mem_append_right _ hp

theorem bareLoop_files (hwhole : numbersLines tree st true (ls.flatMap pieces) = true) (hmode : 0 < st.todo → m = .hunk)
    (hfed : Fed st (ls.flatMap pieces)) (h : bareLoop tree st (ls.flatMap pieces) = .ok out) :
    (documented unquote).files m (regroup out) = (eager unquote).files m ls := by
  induction ls generalizing st m out with
  | nil =>
    cases h
    rfl
  | cons l ls ih =>
    rw [List.flatMap_cons] at h hfed hwhole
    obtain hkept | ⟨htodo,hpieces,hbare⟩ := whole_line h hwhole
    · obtain ⟨st',rest,hrest,hwhole',rfl,htodo'⟩ := bareLoop_pass hkept h hwhole
      rw [endsLine_pieces] at hwhole'
      rw [additions_line,files_cons,files_cons]
      have hfed' := fed_rest hfed htodo'
      rcases Nat.eq_zero_or_pos st.todo with htodo | htodo
      · rw [htodo,additions_zero] at hkept
        have hnone : hasBare l = false := List.any_eq_false.mpr fun q hq => by rw [hkept q hq]; exact Bool.false_ne_true
        rw [htodo,additions_zero,pieces_flatten]
        have hstep : (documented unquote).step m l = (eager unquote).step m l :=
          step_congr (by simp [documented,eager,hnone]) rfl
        rw [hstep,ih hwhole' (fun hpos => absurd hpos (by rw [htodo',htodo,Nat.zero_sub]; exact Nat.lt_irrefl 0)) hfed' hrest]
      · obtain ⟨⟨c,hc,t,rfl⟩,t',ht'⟩ := fed_line htodo hfed
        rw [ht',hmode htodo,step_content hc,step_content (List.mem_cons_self),ih hwhole' (fun _ => rfl) hfed' hrest]
    · -- an unnumbered hunk is numbered here
      have hlone : hasBare l = true := by simp [hasBare,hpieces,hbare]
      have htake : st.take ⟨l,true⟩ = ⟨l,true⟩ := by rw [take,htodo,if_neg (Nat.lt_irrefl 0)]
      rw [hpieces,singleton_append,bareLoop,htake] at h
      rw [hpieces,singleton_append,numbersLines,htake] at hwhole
      dsimp only at h hwhole
      split at h
      · cases h
      · rename_i entered henter
        rw [if_pos hbare] at h
        split at h
        · cases h
        · rename_i header located hlocate
          have hzero : entered.todo = 0 := by rw [enter_todo henter,htodo]
          obtain ⟨hheader,hfed'⟩ := locate_header hzero hlocate
          have hwhole' : numbersLines tree located true (ls.flatMap pieces) = true := by
            simpa [henter,hbare,hlocate] using hwhole
          cases hrest : bareLoop tree located (ls.flatMap pieces) with
          | error e => rw [hrest] at h; cases h
          | ok rest =>
            rw [hrest] at h
            cases h
            rw [regroup,files_cons,files_cons,step_bare hbare hlone,step_opens hheader,
              ih hwhole' (fun _ => rfl) hfed' hrest]

end Verdict.Patch

import Verdict.Patch.Recount

/-! # A diff that is taken out of a reply

`extract_diff` of a text that is a diff from its start to its end. What it returns changes
the same files in the same way, unless a line of the diff has no line feed, a line of a hunk
looks like a header, blanks are stripped off the last line, or a hunk loses all its context.
-/
namespace Verdict.Patch
open GitPatch Path UnifiedDiff
open JsonNumeral.Numeral (Digits)
open scoped Members
open List (any_eq_true append_assoc append_nil filter_append flatMap_cons forall_mem_cons
  getLast?_concat mem_append mem_append_right mem_cons mem_cons_self mem_flatMap mem_map
  mem_singleton not_mem_nil)

/-! ### The text -/

section
variable {l t sub a b : Text} {xs : List Text}

theorem lines_textOf (hxs : ∀ x ∈ xs, '\n' ∉ x) (hl : '\n' ∉ l) : lines (textOf xs ++ l) = xs ++ [l] := by
  induction xs with
  | nil => exact List.splitOn_eq_singleton hl
  | cons x xs ih =>
    obtain ⟨hx,hxs⟩ := forall_mem_cons.mp hxs
    have hshape : textOf (x :: xs) ++ l = x ++ '\n' :: (textOf xs ++ l) := by simp [textOf_cons]
    have hfirst : List.splitOn '\n' x = [x] := List.splitOn_eq_singleton hx
    rw [hshape,lines,List.splitOn_append_cons_self,hfirst]
    exact congrArg (x :: ·) (ih hxs)

def Unfenced (t : Text) : Prop := ∀ a b, t = a ++ '\n' :: b → b.head? ≠ some '`'

theorem Unfenced.tail {c : Char} (h : Unfenced (c :: t)) : Unfenced t := fun a b heq => h (c :: a) b (by rw [heq]; rfl)

theorem fenceBlocks_unfenced (fuel : ℕ) (h : Unfenced t) : fenceBlocks fuel t = [] := by
  induction fuel generalizing t with
  | zero => rfl
  | succ fuel ih =>
    have htail : fenceBlocks fuel t.tail = [] := by
      cases t with
      | nil => exact ih h
      | cons c t => exact ih h.tail
    unfold fenceBlocks
    split
    · split
      · exact htail
      · rename_i c inner hinner
        have hcut : cut "\n```".toList inner = none := by
          cases hcut : cut "\n```".toList inner with
          | none => rfl
          | some p =>
            have hsplit := cut_some (b := p.2) hcut
            have hwhole : t = t.take 3 ++ ((t.drop 3).takeWhile (fun c => decide (c ≠ '\n')) ++ c :: inner) := by
              rw [← hinner,List.takeWhile_append_dropWhile,List.take_append_drop]
            refine absurd rfl (h (t.take 3 ++ (t.drop 3).takeWhile (fun c => decide (c ≠ '\n')) ++ c :: p.1) (['`','`','`'] ++ p.2) ?_)
            rw [hsplit] at hwhole
            simpa using hwhole
        rw [hcut]
        exact htail
    · exact htail

theorem unfenced_textOf (hxs : ∀ x ∈ xs, '\n' ∉ x ∧ x.head? ≠ some '`') (hl : '\n' ∉ l ∧ l.head? ≠ some '`') :
    Unfenced (textOf xs ++ l) := by
  induction xs with
  | nil =>
    intro a b heq
    rw [textOf_nil,List.nil_append] at heq
    rw [heq] at hl
    exact absurd (mem_append_right a mem_cons_self) hl.1
  | cons x xs ih =>
    obtain ⟨hx,hxs⟩ := forall_mem_cons.mp hxs
    have hshape : textOf (x :: xs) ++ l = x ++ '\n' :: (textOf xs ++ l) := by simp [textOf_cons]
    have hhead : (textOf xs ++ l).head? ≠ some '`' := by
      cases xs with
      | nil => exact hl.2
      | cons y xs =>
        have hy := (hxs y mem_cons_self).2
        rw [textOf_cons]
        cases y with
        | nil => simp
        | cons c y => exact hy
    intro a b heq
    rw [hshape] at heq
    rcases List.append_eq_append_iff.mp heq with ⟨mid,rfl,hmid⟩ | ⟨mid,rfl,hmid⟩
    · cases mid with
      | nil =>
        obtain ⟨-,rfl⟩ := List.cons.inj hmid
        exact hhead
      | cons c mid =>
        obtain ⟨-,htail⟩ := List.cons.inj hmid
        exact ih hxs mid b htail
    · cases mid with
      | nil =>
        obtain ⟨-,rfl⟩ := List.cons.inj hmid
        exact hhead
      | cons c mid =>
        obtain ⟨rfl,-⟩ := List.cons.inj hmid
        exact absurd (mem_append_right a mem_cons_self) hx.1

theorem contains_textOf {lit : String} {x : Text} (hx : x ∈ xs ++ [l]) (h : startsWith lit x = true) :
    contains lit (textOf xs ++ l) = true := by
  rcases mem_append.mp hx with hx | hx
  · obtain ⟨front,back,rfl⟩ := List.append_of_mem hx
    refine any_eq_true.mpr ⟨x ++ ['\n'] ++ textOf back ++ l,?_,?_⟩
    · rw [List.mem_tails]
      exact ⟨textOf front,by rw [textOf_append,textOf_cons]; simp only [append_assoc]⟩
    · rw [append_assoc,append_assoc]
      exact startsWith_append h
  · rw [mem_singleton.mp hx] at h
    refine any_eq_true.mpr ⟨l,?_,h⟩
    rw [List.mem_tails]
    exact List.suffix_append _ _

theorem extractDiff_lines {rest out : List Text} (hfeed : ∀ x ∈ xs ++ [l], '\n' ∉ x) (hfence : ∀ x ∈ xs ++ [l], x.head? ≠ some '`')
    (hhead : ∀ x ∈ (xs ++ [l]).head?, ∃ c ∈ x.head?, isSpace c = false) (hlast : ∃ c ∈ l.getLast?, isSpace c = false)
    (hlooks : looksLikeDiff (textOf xs ++ l) = true) (hrest : ∀ x ∈ rest, isEmptyLine x = true) (hout : Recounts (xs ++ [l]) out) :
    extractDiff (textOf (xs ++ [l] ++ rest)) = .ok out := by
  obtain ⟨c,hc,hcspace⟩ := hlast
  have hl : l ≠ [] := by
    rintro rfl
    cases hc
  have hstart : ∀ d ∈ (textOf xs ++ l).head?, isSpace d = false := by
    cases xs with
    | nil =>
      obtain ⟨d,hd,hdspace⟩ := hhead l rfl
      intro d' hd'
      exact Option.some.inj (hd.symm.trans hd') ▸ hdspace
    | cons x xs =>
      obtain ⟨d,hd,hdspace⟩ := hhead x rfl
      intro d' hd'
      cases x with
      | nil => cases hd
      | cons a x =>
        cases hd
        cases hd'
        exact hdspace
  have hend : ∀ d ∈ (textOf xs ++ l).getLast?, isSpace d = false := by
    intro d hd
    rw [List.getLast?_append_of_ne_nil _ hl,hc] at hd
    exact Option.some.inj hd ▸ hcspace
  have hne : textOf xs ++ l ≠ [] := List.append_ne_nil_of_right_ne_nil _ hl
  have hspaces : ∀ d ∈ '\n' :: textOf rest, isSpace d = true := by
    intro d hd
    rcases mem_cons.mp hd with rfl | hd
    · rfl
    · obtain ⟨x,hx,hd⟩ := mem_flatMap.mp hd
      rcases mem_append.mp hd with hd | hd
      · exact isSpace_of_isEmptyLine (hrest x hx) d hd
      · rw [mem_singleton.mp hd]
        rfl
  have hshape : textOf (xs ++ [l] ++ rest) = textOf xs ++ l ++ '\n' :: textOf rest := by
    simp [textOf_append,textOf_cons]
  have hstrip : strip (textOf (xs ++ [l] ++ rest)) = textOf xs ++ l := by rw [hshape,strip_spaces hstart hend hne hspaces]
  have hagain : strip (textOf xs ++ l) = textOf xs ++ l := by
    have hsame := strip_spaces hstart hend hne fun d hd => absurd hd not_mem_nil
    rwa [append_nil] at hsame
  obtain ⟨hfeeds,hfeed⟩ := List.forall_mem_append.mp hfeed
  obtain ⟨hticks,htick⟩ := List.forall_mem_append.mp hfence
  have hlines := lines_textOf hfeeds (hfeed l mem_cons_self)
  have hblocks : fenceBlocks (textOf xs ++ l).length (textOf xs ++ l) = [] :=
    fenceBlocks_unfenced _ (unfenced_textOf (fun x hx => ⟨hfeeds x hx,hticks x hx⟩)
      ⟨hfeed l mem_cons_self,htick l mem_cons_self⟩)
  have hbare : (lines (textOf xs ++ l)).filter (fun l => !isBareFence l) = lines (textOf xs ++ l) := by
    refine List.filter_eq_self.mpr fun x hx => ?_
    have htick : x.head? ≠ some '`' := hfence x (hlines ▸ hx)
    have hstarts : startsWith "```" x = false := by
      cases x with
      | nil => rfl
      | cons a x =>
        have ha : '`' ≠ a := fun heq => htick (congrArg some heq.symm)
        simp [startsWith,List.isPrefixOf,ha]
    rw [isBareFence,hstarts]
    rfl
  have hjoined : ['\n'].intercalate (lines (textOf xs ++ l)) = textOf xs ++ l := List.intercalate_splitOn '\n'
  have hopen : openLines (textOf xs ++ l) = xs ++ [l] := by
    rw [openLines,hlines,getLast?_concat,if_neg fun heq => hl (Option.some.inj heq)]
  rw [extractDiff,hstrip]
  simp only [if_neg hne,hblocks,List.map_nil,List.filter_nil,hbare,hjoined,hagain,hlooks,if_true,recount,hopen]
  rw [hout _ le_rfl]

end

/-! ### The diff -/

section
variable {h : HunkText} {f : FileText} {fs : List FileText} {rest out : List Text} {l : Text}

def diffLines (fs : List FileText) : List Text := fs.flatMap FileText.lines

structure WellFormed (fs : List FileText) : Prop where
  files : fs ≠ []
  delimited : Delimited fs
  hunks : ∀ f ∈ fs, f.sides.isSome → f.hunks ≠ []
  changes : ∀ f ∈ fs, ∀ h ∈ f.hunks, ∃ e ∈ h.hunk.edits, e.mark ≠ .same

/-- What a hunk needs for it to be counted again in its sense: each line has its line feed, none
looks like a header, and where there are lines of the old side, not all of them are blank ones
at the end. -/
structure KeptHunk (h : HunkText) : Prop where
  ended : ∀ e ∈ h.hunk.edits, e.text.getLast? = some '\n'
  content : ∀ e ∈ h.hunk.edits, isContent e = true
  place : olds (core h.hunk.edits) = [] → olds h.hunk.edits = []

def KeptEnd (fs : List FileText) : Prop :=
  ∀ l ∈ ((diffLines fs).filter fun l => !isEmptyLine l).getLast?, ∀ c ∈ l.getLast?, isSpace c = false

/-- What `_recount_hunks` makes of a hunk. -/
def recountedHunk (h : HunkText) : List Text := match hunkStarts h.head with
  | some (o,n) => hunkHeader o (olds (core h.hunk.edits)).length n (news (core h.hunk.edits)).length
      :: (core h.hunk.edits).map Edit.line
  | none => []

def recountedFile (f : FileText) : List Text := f.front ++ f.hunks.flatMap recountedHunk

theorem hunkStarts_none (hl : startsWith "@@ -" l = false) : hunkStarts l = none := by
  have hexpect : expect "@@ -" l = none := by rw [expect,hl]; rfl
  rw [hunkStarts,hexpect,Option.bind_none]

theorem head_of_startsWith {word : String} {c : Char} {w : List Char} (hword : word.toList = c :: w) (h : startsWith word l = true) :
    l.head? = some c := by
  obtain ⟨rest,rfl⟩ := startsWith_iff.mp h
  rw [hword]
  rfl

theorem head_note (h : isNote l = true) : ∃ c ∈ l.head?, c ≠ '`' ∧ isSpace c = false := by
  obtain ⟨word,hword,hl⟩ := any_eq_true.mp h
  obtain ⟨rest,rfl⟩ := startsWith_iff.mp hl
  simp only [noteWords,movers,List.cons_append,List.nil_append,mem_cons,not_mem_nil,or_false] at hword
  rcases hword with rfl | rfl | rfl | rfl | rfl | rfl | rfl | rfl | rfl | rfl | rfl <;> exact ⟨_,rfl,by decide⟩

theorem preamble_line (f : FileText) (hl : l ∈ f.git.toList ++ f.notes) : startsWith "@@ -" l = false ∧ startsWith "--- " l = false ∧
    startsWith "+++ " l = false ∧ ∃ c ∈ l.head?, c ≠ '`' ∧ isSpace c = false := by
  rcases mem_append.mp hl with hl | hl
  · have hgit := f.isGit l (Option.mem_toList.mp hl)
    obtain ⟨-,hhunk,hside⟩ := quiet_git hgit
    exact ⟨hhunk,hside,startsWith_other rfl rfl (by decide) hgit,'d',head_of_startsWith rfl hgit,by decide⟩
  · have hnote := f.isNote l hl
    obtain ⟨hhunk,hside,hother,-⟩ := quiet_note hnote
    exact ⟨hhunk,hside,hother,head_note hnote⟩

theorem front_line (f : FileText) (hl : l ∈ f.front) : startsWith "@@ -" l = false ∧ ∃ c ∈ l.head?, c ≠ '`' ∧ isSpace c = false := by
  rcases mem_append.mp hl with hl | hl
  · obtain ⟨hhunk,-,-,hhead⟩ := preamble_line f hl
    exact ⟨hhunk,hhead⟩
  · cases hsides : f.sides with
    | none =>
      rw [hsides] at hl
      cases hl
    | some s =>
      obtain ⟨⟨hold,hnew⟩,-⟩ := f.isSides s hsides
      rw [hsides] at hl
      rcases mem_cons.mp hl with rfl | hl
      · exact ⟨startsWith_other rfl rfl (by decide) hold,'-',head_of_startsWith rfl hold,by decide⟩
      · rw [mem_singleton.mp hl]
        exact ⟨startsWith_other rfl rfl (by decide) hnew,'+',head_of_startsWith rfl hnew,by decide⟩

theorem stops_front (f : FileText) (rest : List Text) : Stops (f.front ++ rest) := by
  obtain ⟨l,ls,hfront,hl⟩ := f.first
  rw [hfront]
  rintro x ⟨⟩
  rcases hl with hl | ⟨-,hl⟩ <;> simp [endsHunk,hl]

theorem stops_file (f : FileText) (rest : List Text) : Stops (f.lines ++ rest) := by
  rw [FileText.lines,append_assoc]
  exact stops_front f _

theorem stops_files (fs : List FileText) (hstop : Stops rest) : Stops (diffLines fs ++ rest) := by
  cases fs with
  | nil => exact hstop
  | cons f fs =>
    rw [diffLines,flatMap_cons,append_assoc]
    exact stops_file f _

theorem stops_hunks (hs : List HunkText) (hstop : Stops rest) : Stops (hs.flatMap HunkText.lines ++ rest) := by
  cases hs with
  | nil => exact hstop
  | cons h hs =>
    obtain ⟨o,n,hstarts,-⟩ := hunkStarts_of_readHeader h.reads
    rintro x ⟨⟩
    rw [endsHunk,hstarts]
    rfl

variable {es : List Edit}

theorem raw_of_ended (hes : ∀ e ∈ es, e.text.getLast? = some '\n') : es.flatMap Edit.raw = es.map Edit.line := by
  rw [← List.flatMap_pure_eq_map]
  exact List.flatMap_congr fun e he => by rw [Edit.raw,if_pos (hes e he)]; rfl

theorem recounts_hunkText (hkept : KeptHunk h) (hstop : Stops rest) (hrest : Recounts rest out) :
    Recounts (h.lines ++ rest) (recountedHunk h ++ out) := by
  obtain ⟨o,n,hstarts,-⟩ := hunkStarts_of_readHeader h.reads
  rw [HunkText.lines,raw_of_ended hkept.ended,recountedHunk,hstarts]
  exact recounts_hunk hstarts hkept.content hstop hrest

theorem recounts_hunks {hs : List HunkText} (hkept : ∀ h ∈ hs, KeptHunk h) (hstop : Stops rest) (hrest : Recounts rest out) :
    Recounts (hs.flatMap HunkText.lines ++ rest) (hs.flatMap recountedHunk ++ out) := by
  induction hs with
  | nil => exact hrest
  | cons h hs ih =>
    obtain ⟨hh,hhs⟩ := forall_mem_cons.mp hkept
    rw [flatMap_cons,append_assoc,flatMap_cons,append_assoc]
    exact recounts_hunkText hh (stops_hunks hs hstop) (ih hhs)

theorem recounts_front {ls : List Text} (hls : ∀ l ∈ ls, startsWith "@@ -" l = false) (hrest : Recounts rest out) :
    Recounts (ls ++ rest) (ls ++ out) := by
  induction ls with
  | nil => exact hrest
  | cons l ls ih =>
    obtain ⟨hl,hls⟩ := forall_mem_cons.mp hls
    exact recounts_cons (hunkStarts_none hl) (ih hls)

theorem recounts_files (hkept : ∀ f ∈ fs, ∀ h ∈ f.hunks, KeptHunk h) (hstop : Stops rest) (hrest : Recounts rest out) :
    Recounts (diffLines fs ++ rest) (fs.flatMap recountedFile ++ out) := by
  induction fs with
  | nil => exact hrest
  | cons f fs ih =>
    obtain ⟨hf,hfs⟩ := forall_mem_cons.mp hkept
    have hfile : Recounts (f.hunks.flatMap HunkText.lines ++ (diffLines fs ++ rest)) _ :=
      recounts_hunks hf (stops_files fs hstop) (ih hfs)
    have hwhole := recounts_front (fun l hl => (front_line f hl).1) hfile
    rw [diffLines,flatMap_cons,FileText.lines,flatMap_cons,recountedFile]
    simpa only [diffLines,append_assoc] using hwhole

theorem core_split (hchange : ∃ e ∈ es, e.mark ≠ .same) : ∃ front e behind, es = front ++ [e] ++ behind ∧
    core es = front ++ [e] ∧ isEmptyLine e.line = false ∧ ∀ b ∈ behind, isEmptyLine b.line = true := by
  have hne : core es ≠ [] := by
    intro hnil
    obtain ⟨e,he,hmark⟩ := hchange
    exact hmark (mark_of_isEmptyLine (List.rdropWhile_eq_nil_iff.mp hnil e he))
  have hlast : isEmptyLine ((core es).getLast hne).line = false := Bool.eq_false_iff.mpr (List.rdropWhile_last_not _ es hne)
  refine ⟨(core es).dropLast,(core es).getLast hne,es.rtakeWhile fun e => isEmptyLine e.line,?_,?_,hlast,?_⟩
  · rw [List.dropLast_append_getLast hne]
    exact List.rdropWhile_append_rtakeWhile.symm
  · exact (List.dropLast_append_getLast hne).symm
  · exact fun b hb => List.mem_rtakeWhile_imp (p := fun e : Edit => isEmptyLine e.line) hb

theorem core_core (es : List Edit) : core (core es) = core es := List.rdropWhile_idempotent _ es

variable {e : Edit}

theorem mem_core (h : e ∈ core es) : e ∈ es := (List.rdropWhile_prefix _ es).subset h

theorem preamble_last (f : FileText) (hsides : f.sides = none) : ∃ front last, f.front = front ++ [last] ∧
    (startsWith "--- " last = false ∧ startsWith "+++ " last = false) ∧ isEmptyLine last = false := by
  obtain ⟨first,rest,hfront,-⟩ := f.first
  obtain hnil | ⟨front,last,hlast⟩ := List.eq_nil_or_concat f.front
  · rw [hnil] at hfront
    cases hfront
  rw [List.concat_eq_append] at hlast
  have hpreamble : f.front = f.git.toList ++ f.notes := by rw [FileText.front,hsides,Option.elim_none,append_nil]
  have hmem : last ∈ f.git.toList ++ f.notes := by
    rw [← hpreamble,hlast]
    exact mem_append_right _ mem_cons_self
  obtain ⟨-,hold,hnew,c,hc,-,hspace⟩ := preamble_line f hmem
  refine ⟨front,last,hlast,⟨hold,hnew⟩,Bool.eq_false_iff.mpr fun hblank => ?_⟩
  rw [isSpace_of_isEmptyLine hblank c (List.mem_of_mem_head? hc)] at hspace
  cases hspace

theorem diff_split (hform : WellFormed fs) (hkept : ∀ f ∈ fs, ∀ h ∈ f.hunks, KeptHunk h) :
    ∃ front front' last behind, diffLines fs = front ++ [last] ++ behind ∧ fs.flatMap recountedFile = front' ++ [last] ∧
      (startsWith "--- " last = false ∧ startsWith "+++ " last = false) ∧ isEmptyLine last = false ∧
      (∀ l ∈ behind, isEmptyLine l = true) ∧ Recounts (front ++ [last]) (fs.flatMap recountedFile) := by
  obtain hnil | ⟨fs,f,rfl⟩ := List.eq_nil_or_concat fs
  · exact absurd hnil hform.files
  have hf : f ∈ fs.concat f := by simp
  have hkeptFs : ∀ g ∈ fs, ∀ k ∈ g.hunks, KeptHunk k := fun g hg => hkept g (by simp [hg])
  obtain hnil | ⟨hs,h,hhunks⟩ := List.eq_nil_or_concat f.hunks
  · have hsides : f.sides = none := by
      by_contra hne
      exact hform.hunks f hf (Option.isSome_iff_ne_none.mpr hne) hnil
    obtain ⟨front,last,hlast,hother,hline⟩ := preamble_last f hsides
    have hwhole := recounts_files hkeptFs (stops_front f []) (recounts_front (fun l hl => (front_line f hl).1) recounts_nil)
    refine ⟨diffLines fs ++ front,fs.flatMap recountedFile ++ front,last,[],?_,?_,hother,hline,fun b hb => absurd hb not_mem_nil,?_⟩
    · simp [diffLines,FileText.lines,hnil,hlast]
    · simp [recountedFile,hnil,hlast]
    · simpa [recountedFile,hnil,hlast] using hwhole
  have hh : h ∈ f.hunks := by simp [hhunks]
  obtain ⟨front,e,behind,hes,hcore,hlast,hbehind⟩ := core_split (hform.changes f hf h hh)
  obtain ⟨o,n,hstarts,-⟩ := hunkStarts_of_readHeader h.reads
  rw [List.concat_eq_append] at hhunks
  have hlines : h.lines = h.head :: (front.map Edit.line ++ [e.line]) ++ behind.map Edit.line := by
    rw [HunkText.lines,raw_of_ended (hkept f hf h hh).ended,hes]
    simp
  have hrecounted : recountedHunk h = hunkHeader o (olds (core h.hunk.edits)).length n (news (core h.hunk.edits)).length
      :: (core h.hunk.edits).map Edit.line := by rw [recountedHunk,hstarts]
  have hkeptHs : ∀ k ∈ hs, KeptHunk k := fun k hk => hkept f hf k (by simp [hhunks,hk])
  have hhunk : Recounts (h.head :: (core h.hunk.edits).map Edit.line ++ []) (recountedHunk h ++ []) := by
    have hcontent : ∀ d ∈ core h.hunk.edits, isContent d = true := fun d hd => (hkept f hf h hh).content d (mem_core hd)
    have hnil : Stops [] := by rintro x ⟨⟩
    have hone := recounts_hunk hstarts hcontent hnil recounts_nil
    rw [core_core] at hone
    rwa [hrecounted]
  have hstop : Stops (h.head :: (core h.hunk.edits).map Edit.line ++ []) := by
    rintro x ⟨⟩
    rw [endsHunk,hstarts]
    rfl
  have hwhole := recounts_files hkeptFs (stops_front f _) (recounts_front (fun l hl => (front_line f hl).1) (recounts_hunks hkeptHs hstop hhunk))
  refine ⟨diffLines fs ++ (f.front ++ (hs.flatMap HunkText.lines ++ h.head :: front.map Edit.line)),
    fs.flatMap recountedFile ++ (f.front ++ (hs.flatMap recountedHunk ++ (hunkHeader o (olds (core h.hunk.edits)).length n
      (news (core h.hunk.edits)).length :: front.map Edit.line))),e.line,behind.map Edit.line,?_,?_,
    by simpa [isContent] using (hkept f hf h hh).content e (hes ▸ by simp),hlast,?_,?_⟩
  · simp [diffLines,FileText.lines,hhunks,hlines]
  · simp [recountedFile,hhunks,hrecounted,hcore]
  · intro l hl
    obtain ⟨b,hb,rfl⟩ := mem_map.mp hl
    exact hbehind b hb
  · simpa [recountedFile,hhunks,hcore] using hwhole

theorem head_not_tick (hkept : ∀ f ∈ fs, ∀ h ∈ f.hunks, KeptHunk h) (hl : l ∈ diffLines fs) : l.head? ≠ some '`' := by
  obtain ⟨f,hf,hl⟩ := mem_flatMap.mp hl
  rcases mem_append.mp hl with hl | hl
  · obtain ⟨-,c,hc,htick,-⟩ := front_line f hl
    rw [hc]
    exact fun heq => htick (Option.some.inj heq)
  · obtain ⟨h,hh,hl⟩ := mem_flatMap.mp hl
    rw [HunkText.lines,raw_of_ended (hkept f hf h hh).ended] at hl
    rcases mem_cons.mp hl with rfl | hl
    · rw [head_of_startsWith rfl (startsWith_of_readHeader h.reads)]
      decide
    · obtain ⟨e,-,rfl⟩ := mem_map.mp hl
      cases hmark : e.mark <;> simp [Edit.line,hmark,Mark.char]

theorem head_first (hne : fs ≠ []) : ∀ l ∈ (diffLines fs).head?, ∃ c ∈ l.head?, isSpace c = false := by
  cases fs with
  | nil => exact absurd rfl hne
  | cons f fs =>
    obtain ⟨l,ls,hfront,-⟩ := f.first
    have hl : l ∈ f.front := by
      rw [hfront]
      exact mem_cons_self
    obtain ⟨-,c,hc,-,hspace⟩ := front_line f hl
    rw [diffLines,flatMap_cons,FileText.lines,hfront]
    rintro x ⟨⟩
    exact ⟨c,hc,hspace⟩

/-- Two lines that name a file, or a `diff --git` line, stand in front of the blank lines at the end. -/
theorem looksLikeDiff_diff {front behind : List Text} (hne : fs ≠ []) (hlines : diffLines fs = front ++ [l] ++ behind)
    (hbehind : ∀ b ∈ behind, isEmptyLine b = true) : looksLikeDiff (textOf front ++ l) = true := by
  have hnames : ∀ {word : String} {c : Char} {w : List Char}, word.toList = c :: w → isSpace c = false →
      (∃ x ∈ diffLines fs, startsWith word x = true) → contains word (textOf front ++ l) = true := by
    rintro word c w hword hspace ⟨x,hx,hstarts⟩
    rw [hlines] at hx
    rcases mem_append.mp hx with hx | hx
    · exact contains_textOf hx hstarts
    · have hblank := isSpace_of_isEmptyLine (hbehind x hx) c (List.mem_of_mem_head? (head_of_startsWith hword hstarts))
      rw [hspace] at hblank
      cases hblank
  obtain ⟨f,hf⟩ := List.exists_mem_of_ne_nil fs hne
  have hmem : ∀ x ∈ f.front, x ∈ diffLines fs := fun x hx => mem_flatMap.mpr ⟨f,hf,List.mem_append_left _ hx⟩
  cases hsides : f.sides with
  | some s =>
    obtain ⟨⟨hold,hnew⟩,-⟩ := f.isSides s hsides
    have hside : ∀ x ∈ [s.1,s.2], x ∈ diffLines fs := fun x hx => hmem x (mem_append_right _ (by rw [hsides]; exact hx))
    rw [looksLikeDiff,hnames rfl rfl ⟨s.1,hside _ (by simp),hold⟩,hnames rfl rfl ⟨s.2,hside _ (by simp),hnew⟩]
    rfl
  | none =>
    obtain ⟨x,rest,hfront,hx⟩ := f.first
    have hgit : startsWith "diff --git " x = true := by
      refine hx.resolve_right fun hnone => ?_
      have hsome := (f.opened hnone.1).2
      rw [hsides] at hsome
      cases hsome
    obtain ⟨tail,rfl⟩ := startsWith_iff.mp hgit
    have hshort : startsWith "diff --git" ("diff --git ".toList ++ tail) = true := startsWith_iff.mpr ⟨' ' :: tail,rfl⟩
    rw [looksLikeDiff,hnames rfl rfl ⟨_,hmem _ (by rw [hfront]; exact mem_cons_self),hshort⟩]
    exact Bool.or_true _

/-- What `extract_diff` returns for a diff. -/
theorem extractDiff_diff (hform : WellFormed fs) (hkept : ∀ f ∈ fs, ∀ h ∈ f.hunks, KeptHunk h) (hend : KeptEnd fs) :
    extractDiff (textOf (diffLines fs)) = .ok (fs.flatMap recountedFile) := by
  obtain ⟨front,front',last,behind,hlines,-,-,hlast,hbehind,hrecounts⟩ := diff_split hform hkept
  have hsub : ∀ x ∈ front ++ [last], x ∈ diffLines fs := fun x hx => hlines ▸ List.mem_append_left _ hx
  have hfeed : ∀ x ∈ diffLines fs, '\n' ∉ x := by
    intro x hx
    obtain ⟨f,-,hx⟩ := mem_flatMap.mp hx
    exact f.feedless_lines hx
  have hlastline : ((diffLines fs).filter fun l => !isEmptyLine l).getLast? = some last := by
    have hnone : behind.filter (fun l => !isEmptyLine l) = [] := List.filter_eq_nil_iff.mpr fun b hb => by simp [hbehind b hb]
    rw [hlines,filter_append,hnone,append_nil,filter_append,List.filter_cons_of_pos (by simp [hlast])]
    exact getLast?_concat
  have hlooks := looksLikeDiff_diff hform.files hlines hbehind
  rw [hlines]
  refine extractDiff_lines (fun x hx => hfeed x (hsub x hx)) (fun x hx => head_not_tick hkept (hsub x hx)) ?_ ?_ hlooks hbehind hrecounts
  · intro x hx
    refine head_first hform.files x ?_
    rw [hlines,List.head?_append,hx]
    rfl
  · obtain ⟨c,hc⟩ : ∃ c, last.getLast? = some c := by
      refine Option.isSome_iff_exists.mp (List.getLast?_isSome.mpr fun hnil => ?_)
      rw [hnil] at hlast
      cases hlast
    exact ⟨c,hc,hend last hlastline c hc⟩

structure Counted (h h' : HunkText) : Prop where
  lines : h'.lines = recountedHunk h
  again : recountedHunk h' = recountedHunk h
  kept : KeptHunk h'
  trimmed : Trimmed h.hunk h'.hunk
  changes : (∃ e ∈ h.hunk.edits, e.mark ≠ .same) → ∃ e ∈ h'.hunk.edits, e.mark ≠ .same

theorem mem_core_of_changed (he : e ∈ es) (hmark : e.mark ≠ .same) : e ∈ core es := by
  have hsplit : core es ++ es.rtakeWhile (fun e => isEmptyLine e.line) = es := List.rdropWhile_append_rtakeWhile
  rw [← hsplit] at he
  refine (mem_append.mp he).resolve_right fun hblank => hmark (mark_of_isEmptyLine ?_)
  exact List.mem_rtakeWhile_imp (p := fun e : Edit => isEmptyLine e.line) hblank

theorem exists_counted (h : HunkText) (hkept : KeptHunk h) : ∃ h', Counted h h' := by
  obtain ⟨o,n,hstarts,ho,hn,hold,-⟩ := hunkStarts_of_readHeader h.reads
  have hsplit : core h.hunk.edits ++ h.hunk.edits.rtakeWhile (fun e => isEmptyLine e.line) = h.hunk.edits :=
    List.rdropWhile_append_rtakeWhile
  have hended : ∀ e ∈ core h.hunk.edits, e.text.getLast? = some '\n' := fun e he => hkept.ended e (mem_core he)
  let c := (olds (core h.hunk.edits)).length
  let c' := (news (core h.hunk.edits)).length
  let h' : HunkText := {
    head := hunkHeader o c n c'
    hunk := ⟨place o c,place n c',core h.hunk.edits⟩
    reads := readHeader_hunkHeader ho hn c c'
    feedless := feedless_hunkHeader ho hn c c'
    isLine := fun e he => h.isLine e (mem_core he) }
  have hlines : h'.lines = recountedHunk h := by
    rw [HunkText.lines,raw_of_ended hended,recountedHunk,hstarts]
  have hplace : place o c = h.hunk.oldAt := by
    have hzero : c = 0 ↔ (olds h.hunk.edits).length = 0 := by
      rw [List.length_eq_zero_iff,List.length_eq_zero_iff]
      refine ⟨hkept.place,fun hnil => ?_⟩
      rw [← hsplit,olds_append] at hnil
      exact (List.append_eq_nil_iff.mp hnil).1
    have hat : h.hunk.oldAt = place o (olds h.hunk.edits).length := hold
    rw [hat]
    unfold place
    by_cases hc : c = 0
    · rw [if_pos hc,if_pos (hzero.mp hc)]
    · rw [if_neg hc,if_neg fun heq => hc (hzero.mpr heq)]
  refine ⟨h',hlines,?_,⟨hended,fun e he => hkept.content e (mem_core he),?_⟩,⟨hplace,_,hsplit.symm,?_⟩,?_⟩
  · have hstarts' : hunkStarts h'.head = some (o,n) := hunkStarts_hunkHeader ho hn c c'
    rw [recountedHunk,hstarts',recountedHunk,hstarts,core_core]
  · intro hnil
    rwa [core_core] at hnil
  · exact fun e he => mark_of_isEmptyLine (List.mem_rtakeWhile_imp (p := fun e : Edit => isEmptyLine e.line) he)
  · rintro ⟨e,he,hmark⟩
    exact ⟨e,mem_core_of_changed he hmark,hmark⟩

theorem exists_forall₂ {α β : Type} {R : α → β → Prop} {xs : List α} (h : ∀ x ∈ xs, ∃ y, R x y) : ∃ ys, List.Forall₂ R xs ys := by
  induction xs with
  | nil => exact ⟨[],.nil⟩
  | cons x xs ih =>
    obtain ⟨⟨y,hy⟩,hxs⟩ := forall_mem_cons.mp h
    obtain ⟨ys,hys⟩ := ih hxs
    exact ⟨y :: ys,.cons hy hys⟩

theorem flatMap_forall₂ {α β : Type} {R : α → β → Prop} {xs : List α} {ys : List β} {F : α → List Text} {G : β → List Text}
    (h : List.Forall₂ R xs ys) (heq : ∀ x y, R x y → G y = F x) : ys.flatMap G = xs.flatMap F := by
  induction h with
  | nil => rfl
  | cons hxy _ ih => rw [flatMap_cons,flatMap_cons,heq _ _ hxy,ih]

structure CountedFile (f f' : FileText) : Prop where
  git : f'.git = f.git
  notes : f'.notes = f.notes
  sides : f'.sides = f.sides
  hunks : List.Forall₂ Counted f.hunks f'.hunks

theorem exists_countedFile (f : FileText) (hkept : ∀ h ∈ f.hunks, KeptHunk h) : ∃ f', CountedFile f f' := by
  obtain ⟨hs,hhs⟩ := exists_forall₂ fun h hh => exists_counted h (hkept h hh)
  have hbare : f.sides = none → hs = [] := by
    intro hsides
    rw [f.bare hsides] at hhs
    exact List.forall₂_nil_left_iff.mp hhs
  exact ⟨{f with hunks := hs, bare := hbare},rfl,rfl,rfl,hhs⟩

variable {f' : FileText} {fs' : List FileText}

theorem CountedFile.front (h : CountedFile f f') : f'.front = f.front := by
  rw [FileText.front,FileText.front,h.git,h.notes,h.sides]

theorem CountedFile.lines (h : CountedFile f f') : f'.lines = recountedFile f := by
  rw [FileText.lines,recountedFile,h.front,flatMap_forall₂ h.hunks fun _ _ hc => hc.lines]

theorem CountedFile.again (h : CountedFile f f') : recountedFile f' = recountedFile f := by
  rw [recountedFile,recountedFile,h.front,flatMap_forall₂ h.hunks fun _ _ hc => hc.again]

theorem forall₂_right {α β : Type} {R : α → β → Prop} {xs : List α} {ys : List β} (h : List.Forall₂ R xs ys) {y : β} (hy : y ∈ ys) :
    ∃ x ∈ xs, R x y := by
  induction h with
  | nil => cases hy
  | cons hxy _ ih =>
    rcases mem_cons.mp hy with rfl | hy
    · exact ⟨_,mem_cons_self,hxy⟩
    · obtain ⟨x,hx,hR⟩ := ih hy
      exact ⟨x,List.mem_cons_of_mem _ hx,hR⟩

theorem CountedFile.sections (h : CountedFile f f') : List.Forall₂ TrimmedSection f.sections f'.sections := by
  have htrim : List.Forall₂ Trimmed (f.hunks.map HunkText.hunk) (f'.hunks.map HunkText.hunk) := by
    rw [List.forall₂_map_left_iff,List.forall₂_map_right_iff]
    exact h.hunks.imp fun _ _ hc => hc.trimmed
  unfold FileText.sections
  rw [h.git,h.notes,h.sides]
  cases f.sides with
  | none => exact List.forall₂_same.mpr fun s _ => ⟨rfl,rfl,List.forall₂_same.mpr fun k _ => ⟨rfl,[],(append_nil _).symm,by simp⟩⟩
  | some s =>
    rw [List.forall₂_map_left_iff,List.forall₂_map_right_iff]
    exact List.forall₂_same.mpr fun file _ => ⟨rfl,rfl,htrim⟩

theorem sections_counted (h : List.Forall₂ CountedFile fs fs') :
    List.Forall₂ TrimmedSection (fs.flatMap FileText.sections) (fs'.flatMap FileText.sections) := by
  induction h with
  | nil => exact .nil
  | cons hf _ ih =>
    rw [flatMap_cons,flatMap_cons]
    exact List.rel_append hf.sections ih

theorem delimited_counted (h : List.Forall₂ CountedFile fs fs') (hfs : Delimited fs) : Delimited fs' := by
  induction h with
  | nil => exact .nil
  | @cons f f' fs fs' hf hrest ih =>
    cases hrest with
    | nil => exact .singleton f'
    | @cons g g' gs gs' hg hgs =>
      refine List.isChain_cons_cons.mpr ⟨fun hsides => ?_,ih hfs.tail⟩
      rw [hg.git]
      exact (List.isChain_cons_cons.mp hfs).1 (hf.sides ▸ hsides)

/-- No hunk is changed in its sense, and nothing is stripped off the last line. -/
structure Kept (fs : List FileText) : Prop where
  hunks : ∀ f ∈ fs, ∀ h ∈ f.hunks, KeptHunk h
  last : KeptEnd fs

/-- What is extracted from a diff applies wherever the diff does, with the same result, and is
extracted from itself unchanged. -/
def Preserved (fs : List FileText) : Prop := ∃ out, extractDiff (textOf (diffLines fs)) = .ok out ∧
  extractDiff (textOf out) = .ok out ∧ ∀ tree tree', applyPatch (textOf (diffLines fs)) tree = some tree' →
    applyPatch (textOf out) tree = some tree'

theorem lastLine_counted (hform : WellFormed fs) (hkept : ∀ f ∈ fs, ∀ h ∈ f.hunks, KeptHunk h) :
    ((fs.flatMap recountedFile).filter fun l => !isEmptyLine l).getLast?
      = ((diffLines fs).filter fun l => !isEmptyLine l).getLast? := by
  obtain ⟨front,front',last,behind,hlines,hout,-,hlast,hbehind,-⟩ := diff_split hform hkept
  have hnone : behind.filter (fun l => !isEmptyLine l) = [] := List.filter_eq_nil_iff.mpr fun b hb => by simp [hbehind b hb]
  have hone : [last].filter (fun l => !isEmptyLine l) = [last] := List.filter_cons_of_pos (by simp [hlast])
  rw [hlines,hout,filter_append,filter_append,filter_append,hnone,hone,append_nil,getLast?_concat,
    getLast?_concat]

theorem CountedFile.formed (h : List.Forall₂ CountedFile fs fs') (hform : WellFormed fs) : WellFormed fs' := by
  refine ⟨?_,delimited_counted h hform.delimited,fun f' hf' hsides => ?_,fun f' hf' k' hk' => ?_⟩
  · rintro rfl
    cases h
    exact hform.files rfl
  · obtain ⟨f,hf,hcounted⟩ := forall₂_right h hf'
    intro hnil
    have hhunks := hcounted.hunks
    rw [hnil] at hhunks
    exact hform.hunks f hf (hcounted.sides ▸ hsides) (List.forall₂_nil_right_iff.mp hhunks)
  · obtain ⟨f,hf,hcounted⟩ := forall₂_right h hf'
    obtain ⟨k,hk,hcounted⟩ := forall₂_right hcounted.hunks hk'
    exact hcounted.changes (hform.changes f hf k hk)

/-- A well-formed diff whose hunks keep their sense, and from whose last line nothing is stripped,
is extracted as one that does the same. -/
theorem extract_preserves (fs : List FileText) (hform : WellFormed fs) (hkept : Kept fs) : Preserved fs := by
  obtain ⟨fs',hcounted⟩ := exists_forall₂ fun f hf => exists_countedFile f (hkept.hunks f hf)
  have hlines : diffLines fs' = fs.flatMap recountedFile := flatMap_forall₂ hcounted fun _ _ h => h.lines
  have hagain : fs'.flatMap recountedFile = fs.flatMap recountedFile := flatMap_forall₂ hcounted fun _ _ h => h.again
  have hkept' : ∀ f ∈ fs', ∀ h ∈ f.hunks, KeptHunk h := by
    intro f' hf' h' hh'
    obtain ⟨f,-,hfile⟩ := forall₂_right hcounted hf'
    obtain ⟨h,-,hhunk⟩ := forall₂_right hfile.hunks hh'
    exact hhunk.kept
  have hend' : KeptEnd fs' := by
    rw [KeptEnd,hlines,lastLine_counted hform hkept.hunks]
    exact hkept.last
  refine ⟨fs.flatMap recountedFile,extractDiff_diff hform hkept.hunks hkept.last,?_,fun tree tree' happly => ?_⟩
  · rw [← hlines,extractDiff_diff (CountedFile.formed hcounted hform) hkept' hend',hagain,hlines]
  · rw [applyPatch,diffLines,parse_fileTexts hform.delimited,Option.bind_some] at happly
    rw [← hlines,applyPatch,diffLines,parse_fileTexts (delimited_counted hcounted hform.delimited),Option.bind_some,
      vacate_trimmed (sections_counted hcounted)]
    exact foldlM_trimmed (sections_counted hcounted) happly

def oneHunk (h : HunkText) : FileText where
  git := none
  notes := []
  sides := some ("--- a/a".toList,"+++ b/a".toList)
  hunks := [h]
  isGit := fun _ hl => nomatch hl
  isNote := fun _ hl => nomatch hl
  isSides := fun s hs => by
    cases hs
    exact ⟨⟨rfl,rfl⟩,rfl⟩
  feedless := by decide
  opened := fun _ => ⟨rfl,rfl⟩
  bare := fun h => nomatch h

def lineHunk : HunkText where
  head := "@@ -1,2 +1,2 @@ def f():".toList
  hunk := ⟨0,0,[⟨.del,['x','\n']⟩,⟨.ins,['y','\n']⟩,⟨.same,['\n']⟩]⟩
  reads := by decide +kernel
  feedless := by decide +kernel
  isLine := by decide

/-- A section behind a `diff --git` line. -/
def gitSection (line : String) (notes : List String) (sides : Option (String × String)) (hunks : List HunkText)
    (isGit : startsWith "diff --git " line.toList = true) (isNote : ∀ l ∈ notes, isNote l.toList = true)
    (isSides : ∀ s ∈ sides, (startsWith "--- " s.1.toList = true ∧ startsWith "+++ " s.2.toList = true) ∧
      ((extended (some line.toList) (notes.map String.toList)).sides s.1.toList s.2.toList).isSome)
    (feedless : ∀ l ∈ line :: notes ++ sides.elim [] (fun s => [s.1,s.2]), '\n' ∉ l.toList) (bare : sides = none → hunks = []) :
    FileText where
  git := some line.toList
  notes := notes.map String.toList
  sides := sides.map fun s => (s.1.toList,s.2.toList)
  hunks := hunks
  isGit := fun _ hl => Option.some.inj hl ▸ isGit
  isNote := List.forall_mem_map.mpr isNote
  isSides := fun _ hmapped => by
    obtain ⟨s,hs,rfl⟩ := Option.map_eq_some_iff.mp hmapped
    exact isSides s hs
  feedless := by
    rw [← List.forall_mem_map (f := String.toList) (P := fun l => '\n' ∉ l)] at feedless
    cases sides <;> simpa using feedless
  opened := fun h => nomatch h
  bare := fun h => bare (Option.map_eq_none_iff.mp h)

def createdFile : FileText := gitSection "diff --git a/n b/n" ["new file mode 100644","index 0000000..1a2b3c4"]
  (some ("--- /dev/null","+++ b/n"))
  [⟨"@@ -0,0 +1 @@".toList,⟨0,0,[⟨.ins,['n','\n']⟩]⟩,by decide +kernel,by decide +kernel,by decide⟩]
  (by decide +kernel) (by decide +kernel) (by decide +kernel) (by decide +kernel) (by decide)

def movedFile : FileText := gitSection "diff --git a/p b/q" ["similarity index 100%","rename from p","rename to q"] none []
  (by decide +kernel) (by decide +kernel) (by decide +kernel) (by decide +kernel) fun _ => rfl

def deletedFile : FileText := gitSection "diff --git a/d b/d" ["deleted file mode 100644"] (some ("--- a/d","+++ /dev/null"))
  [⟨"@@ -1 +0,0 @@".toList,⟨0,0,[⟨.del,['d','\n']⟩]⟩,by decide +kernel,by decide +kernel,by decide⟩]
  (by decide +kernel) (by decide +kernel) (by decide +kernel) (by decide +kernel) (by decide)

def fourSections : List FileText := [oneHunk lineHunk,createdFile,movedFile,deletedFile]

def fourFiles : Files := fun path =>
  if path = ['a'] then some ['x','\n','\n'] else if path = ['p'] then some ['p','\n']
  else if path = ['d'] then some ['d','\n'] else none

/-- A file is modified, one created, one renamed and one deleted. -/
theorem four_sections_preserved : Preserved fourSections ∧
    (applyPatch (textOf (diffLines fourSections)) fourFiles).map (fun tree => ["a","n","p","q","d"].map fun path => tree path.toList)
      = some [some ['y','\n','\n'],some ['n','\n'],none,some ['p','\n'],none] := by
  have hkept : ∀ f ∈ fourSections, ∀ h ∈ f.hunks, (∀ e ∈ h.hunk.edits, e.text.getLast? = some '
') ∧
      (∀ e ∈ h.hunk.edits, isContent e = true) ∧ (olds (core h.hunk.edits) = [] → olds h.hunk.edits = []) := by decide +kernel
  refine ⟨extract_preserves _ ⟨List.cons_ne_nil _ _,?_,by decide,by decide⟩ ⟨fun f hf h hh => ?_,?_⟩,by decide +kernel⟩
  · unfold Delimited
    decide
  · obtain ⟨hended,hcontent,hplace⟩ := hkept f hf h hh
    exact ⟨hended,hcontent,hplace⟩
  · unfold KeptEnd
    decide +kernel

def openHunk : HunkText where
  head := "@@ -1 +1 @@".toList
  hunk := ⟨0,0,[⟨.del,['x']⟩,⟨.ins,['y']⟩]⟩
  reads := by decide +kernel
  feedless := by decide +kernel
  isLine := by decide

def openFile : Files := fun path => if path = ['a'] then some ['x'] else none

/-- A line that says that there is no line feed becomes context that no file has. -/
theorem missing_line_feed_lost : WellFormed [oneHunk openHunk] ∧ ¬ Preserved [oneHunk openHunk] := by
  refine ⟨⟨List.cons_ne_nil _ _,.singleton _,by decide,by decide⟩,?_⟩
  rintro ⟨out,hout,-,happly⟩
  have hbefore : (applyPatch (textOf (diffLines [oneHunk openHunk])) openFile).isSome = true := by decide +kernel
  have hafter : ∀ d, extractDiff (textOf (diffLines [oneHunk openHunk])) = .ok d → (applyPatch (textOf d) openFile).isSome = false := by
    have hchecked : (extractDiff (textOf (diffLines [oneHunk openHunk]))).toOption.all
        (fun d => (applyPatch (textOf d) openFile).isNone) = true := by decide +kernel
    intro d hd
    rw [hd] at hchecked
    exact Option.not_isSome_iff_eq_none.mpr (Option.isNone_iff_eq_none.mp hchecked) |> Bool.eq_false_iff.mpr
  obtain ⟨tree',htree⟩ := Option.isSome_iff_exists.mp hbefore
  have hsame := hafter out hout
  rw [happly openFile tree' htree] at hsame
  cases hsame

end

end Verdict.Patch

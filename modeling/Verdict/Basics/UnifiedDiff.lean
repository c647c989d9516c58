import Verdict.Basics.GitPatch
import Verdict.Basics.JsonNumeral

/-! # Unified diffs

The text of a unified diff, how it is read, and what it does to the files of a tree. Lines end
at line feeds. A section modifies a file, creates, deletes, renames or copies one. A hunk applies
at its place and nowhere else; a line that is followed by a line with a backslash has no line feed.
-/
namespace Verdict.UnifiedDiff
open GitPatch (Text documented field isMove movers stripFirst startsWith startsWith_iff)
open Function (comp_def update update_of_ne)
open List (append_assoc cons_append cons_ne_nil drop_left filter_append flatMap_cons flatten_cons
  foldlM_cons forall_mem_append forall_mem_cons length_append map_cons mem_append mem_append_right
  mem_cons mem_cons_of_mem mem_cons_self mem_flatMap mem_map_of_mem mem_singleton nil_append
  not_mem_nil singleton_append)
open Option (bind_eq_some_iff bind_some map_eq_some_iff map_some mem_toList)

/-! ### Files as lines -/

def fileLines : Text → List Text
  | [] => []
  | c :: t =>
    if c = '\n' then [c] :: fileLines t
    else match fileLines t with
      | [] => [[c]]
      | l :: ls => (c :: l) :: ls

def chomp (l : Text) : Text := if l.getLast? = some '\n' then l.dropLast else l

theorem flatten_fileLines (t : Text) : (fileLines t).flatten = t := by
  induction t with
  | nil => rfl
  | cons c t ih =>
    unfold fileLines
    split
    · rw [flatten_cons,ih]
      rfl
    · cases hls : fileLines t with
      | nil =>
        rw [hls] at ih
        rw [← ih]
        rfl
      | cons l ls =>
        rw [hls,flatten_cons] at ih
        simp only [flatten_cons,cons_append,ih]

theorem fileLines_cons {l : Text} (h : '\n' ∉ l) (t : Text) : fileLines (l ++ '\n' :: t) = (l ++ ['\n']) :: fileLines t := by
  induction l with
  | nil => rfl
  | cons c l ih =>
    have hc : c ≠ '\n' := fun heq => h (heq ▸ mem_cons_self)
    rw [cons_append,fileLines,if_neg hc,ih fun hmem => h (mem_cons_of_mem c hmem)]
    rfl

theorem chomp_ended (l : Text) : chomp (l ++ ['\n']) = l := by
  rw [chomp,List.getLast?_concat,if_pos rfl,List.dropLast_concat]

def IsLine (l : Text) : Prop := l ≠ [] ∧ '\n' ∉ l.dropLast

instance (l : Text) : Decidable (IsLine l) := inferInstanceAs (Decidable (_ ∧ _))

theorem isLine_cons {l : Text} {c : Char} (hc : c ≠ '\n') (h : IsLine l) : IsLine (c :: l) := by
  refine ⟨cons_ne_nil c l,?_⟩
  rw [List.dropLast_cons_of_ne_nil h.1,mem_cons]
  exact not_or.mpr ⟨Ne.symm hc,h.2⟩

theorem isLine_of_mem {l t : Text} (h : l ∈ fileLines t) : IsLine l := by
  induction t generalizing l with
  | nil => cases h
  | cons c t ih =>
    unfold fileLines at h
    split at h
    · rcases mem_cons.mp h with rfl | h
      · exact ⟨cons_ne_nil c [],not_mem_nil⟩
      · exact ih h
    · rename_i hc
      cases hls : fileLines t with
      | nil =>
        rw [hls,mem_singleton] at h
        rw [h]
        exact ⟨cons_ne_nil c [],not_mem_nil⟩
      | cons a ls =>
        rw [hls] at h ih
        rcases mem_cons.mp h with rfl | h
        · exact isLine_cons hc (ih mem_cons_self)
        · exact ih (mem_cons_of_mem a h)

theorem IsLine.not_mem_chomp {l : Text} (h : IsLine l) : '\n' ∉ chomp l := by
  unfold chomp
  split
  · exact h.2
  · rename_i hlast
    intro hmem
    rw [← List.dropLast_append_getLast h.1,mem_append,mem_singleton] at hmem
    refine hmem.elim h.2 fun heq => hlast ?_
    rw [List.getLast?_eq_some_getLast h.1,← heq]

theorem chomp_append {l : Text} (h : l.getLast? = some '\n') : chomp l ++ ['\n'] = l := by
  rw [chomp,if_pos h]
  exact List.dropLast_append_getLast? '\n' h

theorem chomp_of_open {l : Text} (h : l.getLast? ≠ some '\n') : chomp l = l := if_neg h

theorem fileLines_flatMap {ls : List Text} (h : ∀ l ∈ ls, '\n' ∉ l) : (fileLines (ls.flatMap (· ++ ['\n']))).map chomp = ls := by
  induction ls with
  | nil => rfl
  | cons l ls ih =>
    obtain ⟨hl,hls⟩ := forall_mem_cons.mp h
    rw [flatMap_cons,append_assoc,singleton_append,fileLines_cons hl,map_cons,chomp_ended,ih hls]

/-! ### The text of a diff -/

inductive Mark
  | same
  | del
  | ins
  deriving DecidableEq

def Mark.char : Mark → Char
  | .same => ' '
  | .del => '-'
  | .ins => '+'

structure Edit where
  mark : Mark
  text : Text

/-- What changes behind `oldAt` lines of the old side and `newAt` lines of the new one. -/
structure Hunk where
  (oldAt newAt : ℕ)
  edits : List Edit

variable (edits : List Edit)

def olds : List Text := (edits.filter (·.mark ≠ .ins)).map Edit.text
def news : List Text := (edits.filter (·.mark ≠ .del)).map Edit.text

structure FileDiff where
  path : Text
  hunks : List Hunk

def headLines (path : Text) : List Text :=
  ["diff --git a/".toList ++ path ++ " b/".toList ++ path,"--- a/".toList ++ path,"+++ b/".toList ++ path]

def noNewline : Text := "\\ No newline at end of file".toList

def Edit.line (e : Edit) : Text := e.mark.char :: chomp e.text

def Edit.raw (e : Edit) : List Text :=
  (e.mark.char :: chomp e.text) :: if e.text.getLast? = some '\n' then [] else [noNewline]

def decimal (n : ℕ) : Text := Nat.toDigits 10 n

/-- A range of `count` lines behind `at` lines. -/
def range (start count : ℕ) : Text :=
  if count = 1 then decimal (start + 1)
  else decimal (if count = 0 then start else start + 1) ++ ',' :: decimal count

def header (oldAt oldCount newAt newCount : ℕ) : Text :=
  "@@ -".toList ++ range oldAt oldCount ++ " +".toList ++ range newAt newCount ++ " @@".toList

def Hunk.raw (h : Hunk) : List Text :=
  header h.oldAt (olds h.edits).length h.newAt (news h.edits).length :: h.edits.flatMap Edit.raw

def FileDiff.raw (f : FileDiff) : List Text := headLines f.path ++ f.hunks.flatMap Hunk.raw

def textOf (ls : List Text) : Text := ls.flatMap (· ++ ['\n'])

theorem textOf_append (ls ls' : List Text) : textOf (ls ++ ls') = textOf ls ++ textOf ls' := List.flatMap_append

theorem textOf_nil : textOf [] = [] := rfl

theorem textOf_cons (l : Text) (ls : List Text) : textOf (l :: ls) = l ++ ['\n'] ++ textOf ls := flatMap_cons

/-! ### How a diff is read -/

def readNumber (t : Text) : Option (ℕ × Text) :=
  let ds := t.takeWhile Char.isDigit
  if ds = [] then none else some (Nat.ofDigitChars 10 ds 0,t.dropWhile Char.isDigit)

def expect (word : String) (t : Text) : Option Text := if startsWith word t then some (t.drop word.length) else none

def readRange (t : Text) : Option (ℕ × ℕ × Text) := (readNumber t).bind fun (start,rest) =>
  match rest with
  | ',' :: rest => (readNumber rest).map fun (count,rest) => (if count = 0 then start else start - 1,count,rest)
  | _ => some (start - 1,1,rest)

structure Ranges where
  (oldAt oldCount newAt newCount : ℕ)
  deriving DecidableEq

def readHeader (l : Text) : Option Ranges :=
  (expect "@@ -" l).bind fun rest => (readRange rest).bind fun (oldAt,oldCount,rest) =>
    (expect " +" rest).bind fun rest => (readRange rest).bind fun (newAt,newCount,rest) =>
      (expect " @@" rest).map fun _ => ⟨oldAt,oldCount,newAt,newCount⟩

/-- What a section does to the file at its path. -/
inductive Change
  | modify
  | create
  | delete
  | rename (source : Text)
  | copy (source : Text)

def Change.source : Change → Option Text
  | .rename source | .copy source => some source
  | _ => none

structure Section where
  path : Text
  change : Change
  hunks : List Hunk

def FileDiff.section (f : FileDiff) : Section := ⟨f.path,.modify,f.hunks⟩

/-- What the lines of a `diff --git` section say in front of its `---` line. -/
structure Extended where
  git : Bool := false
  file : Option Text := none
  source : Option Text := none
  target : Option Text := none
  copied : Bool := false
  created : Bool := false
  deleted : Bool := false

/-- Where a reader stands: between files, behind a `diff --git` line, behind a `---` line, or in a
hunk with lines of both sides to come. -/
inductive Mode
  | loose
  | headers (g : Extended)
  | named (g : Extended) (old : Text)
  | body (old new : ℕ)

structure Parsed where
  edits : List Edit := []
  hunks : List Hunk := []
  sections : List Section := []

def Parsed.addEdit (e : Edit) (p : Parsed) : Parsed := {p with edits := e :: p.edits}
def Parsed.addHunk (r : Ranges) (p : Parsed) : Parsed := {p with edits := [], hunks := ⟨r.oldAt,r.newAt,p.edits⟩ :: p.hunks}
def Parsed.addFile (file : Text × Change) (p : Parsed) : Parsed :=
  {p with hunks := [], sections := ⟨file.1,file.2,p.hunks⟩ :: p.sections}
def Parsed.add (sections : List Section) (p : Parsed) : Parsed := {p with sections := sections ++ p.sections}

def readMark : Text → Option (Mark × Text)
  | [] => some (.same,[])
  | c :: t =>
    if c = ' ' then some (.same,t) else if c = '-' then some (.del,t) else if c = '+' then some (.ins,t) else none

def Mark.spend : Mark → ℕ → ℕ → Option (ℕ × ℕ)
  | .same, o + 1, n + 1 => some (o,n)
  | .del, o + 1, n => some (o,n)
  | .ins, o, n + 1 => some (o,n)
  | _, _, _ => none

def isMarker (l : Text) : Bool := l.head? = some '\\'

def endedBy (t : Text) (behind : List Text) : Text := if behind.head?.any isMarker then t else t ++ ['\n']

def nameOf (l : Text) : Option Text := stripFirst (field (l.drop 4))

/-! ### Headers -/

def gitHead (l : Text) : Extended := {git := true, file := ((documented fun _ => none).gitFile l).map GitPatch.Found.name}

def noteWords : List String :=
  ["index ","old mode ","new mode ","similarity index ","dissimilarity index ","new file mode ","deleted file mode "] ++ movers

def isNote (l : Text) : Bool := noteWords.any (startsWith · l)

def Extended.add (g : Extended) (l : Text) : Extended :=
  if startsWith "new file mode " l then {g with created := true}
  else if startsWith "deleted file mode " l then {g with deleted := true}
  else if startsWith "rename from " l then {g with source := some (field (l.drop 12))}
  else if startsWith "rename to " l then {g with target := some (field (l.drop 10))}
  else if startsWith "copy from " l then {g with source := some (field (l.drop 10)), copied := true}
  else if startsWith "copy to " l then {g with target := some (field (l.drop 8))}
  else g

def Extended.moved (g : Extended) : Option (Text × Change) := match g.source, g.target with
  | some source, some target => some (target,if g.copied then .copy source else .rename source)
  | _, _ => none

/-- A section of headers alone; a new mode changes no text. -/
def Extended.alone (g : Extended) : List Section := match g.moved with
  | some (path,change) => [⟨path,change,[]⟩]
  | none =>
    if g.created then g.file.toList.map (⟨·,.create,[]⟩)
    else if g.deleted then g.file.toList.map (⟨·,.delete,[]⟩)
    else []

def sideOf (l : Text) : Option (Option Text) :=
  if field (l.drop 4) = "/dev/null".toList then some none else (nameOf l).map some

/-- The file that the `---` and `+++` lines name. Without a `diff --git` line a name may go on
behind the other one, as `file.orig` does. -/
def Extended.sides (g : Extended) (old new : Text) : Option (Text × Change) := match sideOf old, sideOf new with
  | some none, some (some new) => some (new,.create)
  | some (some old), some none => some (old,.delete)
  | some (some old), some (some new) => match g.moved with
    | some (path,change) => if change.source = some old ∧ path = new then some (path,change) else none
    | none => if g.git = true ∧ old ≠ new then none else some (if old <+: new then old else new,.modify)
  | _, _ => none

def read : Mode → List Text → Option Parsed
  | .body 0 0, [] => some {}
  | .body _ _, [] => none
  | .headers g, [] => some {sections := g.alone}
  | _, [] => some {}
  | .loose, l :: ls =>
    if startsWith "@@ -" l then none
    else if startsWith "--- " l then read (.named {} l) ls
    else if startsWith "diff --git " l then read (.headers (gitHead l)) ls
    else read .loose ls
  | .headers g, l :: ls =>
    if startsWith "@@ -" l then none
    else if startsWith "--- " l then read (.named g l) ls
    else if startsWith "diff --git " l then (read (.headers (gitHead l)) ls).map (Parsed.add g.alone)
    else if isNote l then read (.headers (g.add l)) ls
    else (read .loose ls).map (Parsed.add g.alone)
  | .named g old, l :: ls =>
    if startsWith "+++ " l then (g.sides old l).bind fun file => (read (.body 0 0) ls).map (Parsed.addFile file) else none
  | .body 0 0, l :: ls =>
    if isMarker l then read (.body 0 0) ls
    else if startsWith "@@ -" l then (readHeader l).bind fun r => (read (.body r.oldCount r.newCount) ls).map (Parsed.addHunk r)
    else if startsWith "--- " l then read (.named {} l) ls
    else if startsWith "diff --git " l then read (.headers (gitHead l)) ls
    else read .loose ls
  | .body o n, l :: ls =>
    if isMarker l then read (.body o n) ls
    else (readMark l).bind fun (mark,t) => (mark.spend o n).bind fun (o',n') =>
      (read (.body o' n') ls).map (Parsed.addEdit ⟨mark,endedBy t ls⟩)

def parse (patch : Text) : Option (List Section) := (read .loose ((fileLines patch).map chomp)).map Parsed.sections

section Reading
variable {rest : Text}

theorem readNumber_decimal (n : ℕ) (h : ∀ c ∈ rest.head?, c.isDigit = false) : readNumber (decimal n ++ rest) = some (n,rest) := by
  have hdigits : ∀ c ∈ decimal n, c.isDigit = true := fun c hc => Nat.isDigit_of_mem_toDigits (by decide) (by decide) hc
  simp only [readNumber,JsonNumeral.takeWhile_digits hdigits h,JsonNumeral.dropWhile_digits hdigits h,
    if_neg (show decimal n ≠ [] from Nat.toDigits_ne_nil)]
  rw [decimal,Nat.ofDigitChars_toDigits (by decide) (by decide)]

theorem expect_append (word : String) (t : Text) : expect word (word.toList ++ t) = some t := by
  rw [expect,if_pos (startsWith_iff.mpr ⟨t,rfl⟩),← String.length_toList,drop_left]

theorem readRange_range (start count : ℕ) (h : ∀ c ∈ rest.head?, c.isDigit = false ∧ c ≠ ',') :
    readRange (range start count ++ rest) = some (start,count,rest) := by
  unfold range
  by_cases hone : count = 1
  · rw [if_pos hone,readRange,readNumber_decimal _ fun c hc => (h c hc).1,bind_some]
    cases rest with
    | nil =>
      rw [hone]
      rfl
    | cons c rest =>
      have hcomma : c ≠ ',' := (h c rfl).2
      dsimp only
      split
      · rename_i heq
        exact absurd (List.cons.inj heq).1 hcomma
      · rw [hone,Nat.add_sub_cancel]
  · rw [if_neg hone,append_assoc,readRange,readNumber_decimal _ (by simp),bind_some]
    simp only [cons_append,readNumber_decimal count fun c hc => (h c hc).1,map_some]
    split <;> rfl

theorem readHeader_header (r : Ranges) : readHeader (header r.oldAt r.oldCount r.newAt r.newCount) = some r := by
  simp only [header,append_assoc,readHeader,expect_append,bind_some]
  rw [readRange_range _ _ (by simp),bind_some,expect_append,bind_some,readRange_range _ _ (by simp),
    bind_some]
  rfl

variable {ls : List Text} {l t : Text} {m : Mark} {o n o' n' : ℕ}

theorem read_marker (h : isMarker l = true) : read (.body o n) (l :: ls) = read (.body o n) ls := by
  cases o <;> cases n <;> rw [read,if_pos h]
  all_goals exact fun ho hn => by cases ho <;> cases hn

theorem read_line (hspend : m.spend o n = some (o',n')) (hl : isMarker l = false) (hmark : readMark l = some (m,t)) :
    read (.body o n) (l :: ls) = (read (.body o' n') ls).map (Parsed.addEdit ⟨m,endedBy t ls⟩) := by
  have hopen : o = 0 → n = 0 → False := by
    rintro rfl rfl
    cases m <;> cases hspend
  rw [read,if_neg (ne_true_of_eq_false hl),hmark]
  · simp only [bind_some,hspend]
  · exact hopen

theorem readMark_char (m : Mark) (t : Text) : readMark (m.char :: t) = some (m,t) := by cases m <;> rfl

theorem isMarker_char (m : Mark) (t : Text) : isMarker (m.char :: t) = false := by cases m <;> rfl

theorem spend_edit (e : Edit) (es : List Edit) :
    e.mark.spend (olds (e :: es)).length (news (e :: es)).length = some ((olds es).length,(news es).length) := by
  cases hmark : e.mark <;> simp [olds,news,hmark,Mark.spend]

def Opens (ls : List Text) : Prop := ls.head?.any isMarker = false

theorem opens_edits (es : List Edit) (h : Opens ls) : Opens (es.flatMap Edit.raw ++ ls) := by
  cases es with
  | nil => exact h
  | cons e es => simp [Opens,Edit.raw,isMarker_char]

variable {e : Edit}

theorem read_edit (h : Opens ls) (hspend : e.mark.spend o n = some (o',n')) :
    read (.body o n) (e.raw ++ ls) = (read (.body o' n') ls).map (Parsed.addEdit e) := by
  have hline := fun ls => @read_line ls _ _ _ _ _ _ _ hspend (isMarker_char e.mark (chomp e.text)) (readMark_char e.mark (chomp e.text))
  unfold Edit.raw
  split
  · rename_i hlast
    rw [singleton_append,hline,endedBy,h,if_neg Bool.false_ne_true,chomp_append hlast]
  · rename_i hlast
    have hmarker : isMarker noNewline = true := rfl
    rw [cons_append,singleton_append,hline,read_marker hmarker,endedBy,List.head?_cons,Option.any_some,hmarker,
      if_pos rfl,chomp_of_open hlast]

theorem read_edits (es : List Edit) (h : Opens ls) : read (.body (olds es).length (news es).length) (es.flatMap Edit.raw ++ ls)
    = (read (.body 0 0) ls).map fun p => {p with edits := es ++ p.edits} := by
  induction es with
  | nil => exact Option.map_id'.symm
  | cons e es ih =>
    rw [flatMap_cons,append_assoc,read_edit (opens_edits es h) (spend_edit e es),ih,Option.map_map]
    rfl

def Reads (ls : List Text) (hs : List Hunk) (ss : List Section) : Prop := Opens ls ∧ read (.body 0 0) ls = some ⟨[],hs,ss⟩

variable {r : Ranges}

theorem startsWith_of_readHeader (h : readHeader l = some r) : startsWith "@@ -" l = true := by
  obtain ⟨rest,hrest,-⟩ := bind_eq_some_iff.mp h
  unfold expect at hrest
  split at hrest
  · assumption
  · cases hrest

variable {word : String} {c : Char} {w : List Char}

theorem startsWith_other {word' : String} {d : Char} {w' : List Char} (hword : word.toList = c :: w)
    (hword' : word'.toList = d :: w') (hne : c ≠ d) (h : startsWith word l = true) : startsWith word' l = false := by
  obtain ⟨rest,rfl⟩ := startsWith_iff.mp h
  simp only [startsWith,hword,hword',cons_append,List.isPrefixOf,Bool.and_eq_false_iff,beq_eq_false_iff_ne]
  exact .inl (Ne.symm hne)

theorem not_marker_of_startsWith (hword : word.toList = c :: w) (hne : c ≠ '\\')
    (h : startsWith word l = true) : isMarker l = false := by
  obtain ⟨rest,rfl⟩ := startsWith_iff.mp h
  simpa [isMarker,hword] using hne

variable {ss : List Section}

theorem reads_hunk {head : Text} {es : List Edit} {hs : List Hunk}
    (hhead : readHeader head = some r) (hold : r.oldCount = (olds es).length) (hnew : r.newCount = (news es).length)
    (h : Reads ls hs ss) : Reads (head :: es.flatMap Edit.raw ++ ls) (⟨r.oldAt,r.newAt,es⟩ :: hs) ss := by
  have hopens := startsWith_of_readHeader hhead
  have hplain : isMarker head = false := not_marker_of_startsWith rfl (by decide) hopens
  refine ⟨hplain,?_⟩
  rw [cons_append,read,hplain,if_neg Bool.false_ne_true,if_pos hopens,hhead,bind_some,hold,hnew,
    read_edits es h.1,h.2]
  simp [Parsed.addHunk]

theorem reads_hunks (hs : List Hunk) {hs' : List Hunk} (h : Reads ls hs' ss) :
    Reads (hs.flatMap Hunk.raw ++ ls) (hs ++ hs') ss := by
  induction hs with
  | nil => exact h
  | cons k hs ih =>
    rw [flatMap_cons,append_assoc]
    exact reads_hunk (readHeader_header ⟨k.oldAt,(olds k.edits).length,k.newAt,(news k.edits).length⟩) rfl rfl ih

/-- The headers that stand in front of a `---` line that is read now. -/
def Mode.extended : Mode → Option Extended
  | .loose | .body 0 0 => some {}
  | .headers g => some g
  | _ => none

variable {old new : Text} {mode : Mode}

theorem read_sides {g : Extended} (hmode : mode.extended = some g) (hold : startsWith "--- " old = true)
    (hnew : startsWith "+++ " new = true) {file : Text × Change} (hsides : g.sides old new = some file) :
    read mode (old :: new :: ls) = (read (.body 0 0) ls).map (Parsed.addFile file) := by
  have hhunk : startsWith "@@ -" old = false := startsWith_other rfl rfl (by decide) hold
  have hmarker : isMarker old = false := not_marker_of_startsWith rfl (by decide) hold
  have hnamed : read mode (old :: new :: ls) = read (.named g old) (new :: ls) := by
    unfold Mode.extended at hmode
    split at hmode
    · cases hmode
      rw [read,hhunk,hold]
      rfl
    · cases hmode
      conv_lhs => rw [read,hmarker,hhunk,hold]
      rfl
    · cases hmode
      rw [read,hhunk,hold]
      rfl
    · cases hmode
  rw [hnamed,read,if_pos hnew,hsides,bind_some]

theorem quiet_git (h : startsWith "diff --git " l = true) :
    isMarker l = false ∧ startsWith "@@ -" l = false ∧ startsWith "--- " l = false :=
  ⟨not_marker_of_startsWith rfl (by decide) h,startsWith_other rfl rfl (by decide) h,startsWith_other rfl rfl (by decide) h⟩

theorem read_git (hmode : mode = .loose ∨ mode = .body 0 0) (h : startsWith "diff --git " l = true) :
    read mode (l :: ls) = read (.headers (gitHead l)) ls := by
  obtain ⟨hmarker,hhunk,hside⟩ := quiet_git h
  rcases hmode with rfl | rfl
  · rw [read,hhunk,hside,h]
    rfl
  · conv_lhs => rw [read,hmarker,hhunk,hside,h]
    rfl

def Plain (path : Text) : Prop := ∀ c ∈ path, c ≠ '\t' ∧ c ≠ '\r' ∧ c ≠ '\n'

instance (path : Text) : Decidable (Plain path) := List.decidableBAll _ path

variable {path : Text}
variable {side : Char}

theorem field_header (hside : side = 'a' ∨ side = 'b') (h : Plain path) :
    field (side :: '/' :: path) = side :: '/' :: path := by
  refine List.takeWhile_eq_self_iff.mpr fun c hc => ?_
  rcases mem_cons.mp hc with rfl | hc
  · rcases hside with rfl | rfl <;> rfl
  · rcases mem_cons.mp hc with rfl | hc
    · rfl
    · exact decide_eq_true ⟨(h c hc).1,(h c hc).2.1⟩

theorem nameOf_header {word : Text} (hword : word.length = 4) (hside : side = 'a' ∨ side = 'b') (h : Plain path) :
    nameOf (word ++ side :: '/' :: path) = some path := by
  rw [nameOf,← hword,drop_left,field_header hside h]
  rcases hside with rfl | rfl <;> rfl

variable {name : Text}

theorem ne_devNull (hside : side = 'a' ∨ side = 'b') : side :: '/' :: name ≠ "/dev/null".toList := by
  rcases hside with rfl | rfl <;> exact fun h => absurd (List.cons.inj h).1 (by decide)

theorem sideOf_header {word : Text} (hword : word.length = 4) {side : Char} (hside : side = 'a' ∨ side = 'b') (h : Plain path) :
    sideOf (word ++ side :: '/' :: path) = some (some path) := by
  rw [sideOf,nameOf_header hword hside h,if_neg]
  · rfl
  · rw [← hword,drop_left,field_header hside h]
    exact ne_devNull hside

theorem read_headLines (h : Plain path) (hmode : mode = .loose ∨ mode = .body 0 0) :
    read mode (headLines path ++ ls) = (read (.body 0 0) ls).map (Parsed.addFile (path,.modify)) := by
  have hold : sideOf ("--- a/".toList ++ path) = some (some path) := @sideOf_header path "--- ".toList rfl _ (.inl rfl) h
  have hnew : sideOf ("+++ b/".toList ++ path) = some (some path) := @sideOf_header path "+++ ".toList rfl _ (.inr rfl) h
  have hgit : startsWith "diff --git " ("diff --git a/".toList ++ path ++ " b/".toList ++ path) = true :=
    startsWith_iff.mpr ⟨"a/".toList ++ path ++ " b/".toList ++ path,rfl⟩
  rw [headLines,cons_append,read_git hmode hgit]
  refine read_sides rfl rfl rfl ?_
  rw [Extended.sides,hold,hnew]
  simp [gitHead,Extended.moved]

theorem reads_files {fs : List FileDiff} (h : ∀ f ∈ fs, Plain f.path) :
    Reads (fs.flatMap FileDiff.raw) [] (fs.map FileDiff.section) := by
  induction fs with
  | nil => exact ⟨rfl,rfl⟩
  | cons f fs ih =>
    obtain ⟨hf,hfs⟩ := forall_mem_cons.mp h
    have hhunks := reads_hunks f.hunks (ih hfs)
    refine ⟨rfl,?_⟩
    rw [flatMap_cons,FileDiff.raw,append_assoc,read_headLines hf (.inr rfl),hhunks.2]
    simp [Parsed.addFile,FileDiff.section]

theorem read_files {fs : List FileDiff} (h : ∀ f ∈ fs, Plain f.path) :
    read .loose (fs.flatMap FileDiff.raw) = some ⟨[],[],fs.map FileDiff.section⟩ := by
  cases fs with
  | nil => rfl
  | cons f fs =>
    obtain ⟨hf,hfs⟩ := forall_mem_cons.mp h
    have hhunks := reads_hunks f.hunks (reads_files hfs)
    rw [flatMap_cons,FileDiff.raw,append_assoc,read_headLines hf (.inl rfl),hhunks.2]
    simp [Parsed.addFile,FileDiff.section]

theorem not_mem_decimal (n : ℕ) : '\n' ∉ decimal n := by
  intro h
  have hdigit := Nat.isDigit_of_mem_toDigits (by decide) (by decide) h
  exact absurd hdigit (by decide)

theorem not_mem_header (r : Ranges) : '\n' ∉ header r.oldAt r.oldCount r.newAt r.newCount := by
  have hrange : ∀ start count, '\n' ∉ range start count := by
    intro start count
    unfold range
    split <;> simp [not_mem_decimal]
  simp [header,hrange]

theorem not_mem_edit (h : IsLine e.text) (hl : l ∈ e.raw) : '\n' ∉ l := by
  have hchomp := h.not_mem_chomp
  rcases mem_cons.mp hl with rfl | hl
  · cases hmark : e.mark <;> simp [Mark.char,hchomp]
  · split at hl
    · cases hl
    · rw [mem_singleton.mp hl]
      decide

theorem not_mem_raw {f : FileDiff} (hpath : Plain f.path) (hlines : ∀ h ∈ f.hunks, ∀ e ∈ h.edits, IsLine e.text)
    (hl : l ∈ f.raw) : '\n' ∉ l := by
  have hfeed : '\n' ∉ f.path := fun h => (hpath _ h).2.2 rfl
  rcases mem_append.mp hl with hl | hl
  · simp only [headLines,mem_cons,not_mem_nil,or_false] at hl
    rcases hl with rfl | rfl | rfl <;> simp [hfeed]
  · obtain ⟨h,hh,hl⟩ := mem_flatMap.mp hl
    rcases mem_cons.mp hl with rfl | hl
    · exact not_mem_header ⟨h.oldAt,_,h.newAt,_⟩
    · obtain ⟨e,he,hl⟩ := mem_flatMap.mp hl
      exact not_mem_edit (hlines h hh e he) hl

theorem parse_textOf {fs : List FileDiff} (hpath : ∀ f ∈ fs, Plain f.path)
    (hlines : ∀ f ∈ fs, ∀ h ∈ f.hunks, ∀ e ∈ h.edits, IsLine e.text) : parse
    (textOf (fs.flatMap FileDiff.raw)) = some (fs.map FileDiff.section) := by
  have hfeed : ∀ l ∈ fs.flatMap FileDiff.raw, '\n' ∉ l := by
    intro l hl
    obtain ⟨f,hf,hl⟩ := mem_flatMap.mp hl
    exact not_mem_raw (hpath f hf) (hlines f hf) hl
  rw [parse,textOf,fileLines_flatMap hfeed,read_files hpath]
  rfl

theorem field_plain (h : '\n' ∉ t) : Plain (field t) := by
  intro c hc
  have hkept := of_decide_eq_true (List.mem_takeWhile_imp (p := fun c => decide (c ≠ '\t' ∧ c ≠ '\r')) hc)
  exact ⟨hkept.1,hkept.2,fun heq => h (heq ▸ (List.takeWhile_prefix _).subset hc)⟩

theorem stripFirst_plain (hname : Plain name) (h : stripFirst name = some path) : Plain path := by
  intro c hc
  unfold stripFirst at h
  split at h
  · cases h
  · rename_i heq
    rw [← Option.some.inj h] at hc
    exact hname c ((List.dropWhile_suffix _).subset (heq ▸ mem_cons_of_mem _ hc))

theorem not_mem_drop (h : '\n' ∉ l) : '\n' ∉ l.drop n := fun hmem => h (List.mem_of_mem_drop hmem)

theorem sideOf_plain (hl : '\n' ∉ l) (h : sideOf l = some (some path)) : Plain path := by
  unfold sideOf at h
  split at h
  · cases h
  · obtain ⟨name,hname,heq⟩ := map_eq_some_iff.mp h
    cases heq
    exact stripFirst_plain (field_plain (not_mem_drop hl)) hname

def Extended.names (g : Extended) : List Text := g.file.toList ++ g.source.toList ++ g.target.toList

def Section.paths (s : Section) : List Text := s.path :: s.change.source.toList

variable {g : Extended}

theorem gitHead_plain (hl : '\n' ∉ l) : ∀ p ∈ (gitHead l).names, Plain p := by
  intro p hp
  simp only [Extended.names,gitHead,Option.toList_none,List.append_nil,mem_toList,map_eq_some_iff] at hp
  obtain ⟨found,hfound,rfl⟩ := hp
  obtain ⟨name,hname,rfl⟩ := map_eq_some_iff.mp hfound
  obtain ⟨k,-,hk⟩ := List.exists_of_findSome?_eq_some hname
  split at hk
  · split at hk
    · rename_i hnew
      split at hk
      · cases hk
        obtain ⟨whole,hwhole,hstrip⟩ := bind_eq_some_iff.mp hnew
        unfold GitPatch.Reading.nameOf at hwhole
        split at hwhole
        · cases hwhole
        · cases hwhole
          exact stripFirst_plain (field_plain (not_mem_drop (not_mem_drop hl))) hstrip
      · cases hk
    · cases hk
  · cases hk

theorem add_plain (hl : '\n' ∉ l) (hg : ∀ p ∈ g.names, Plain p) : ∀ p ∈ (g.add l).names, Plain p := by
  have hfield : ∀ n, Plain (field (l.drop n)) := fun n => field_plain (not_mem_drop hl)
  simp only [Extended.names,forall_mem_append,mem_toList] at hg ⊢
  obtain ⟨⟨hfile,hsource⟩,htarget⟩ := hg
  unfold Extended.add
  split_ifs
  all_goals
    refine ⟨⟨hfile,?_⟩,?_⟩
    all_goals first
      | assumption
      | exact fun p hp => Option.some.inj hp ▸ hfield _

variable {change : Change}

theorem moved_plain (hg : ∀ p ∈ g.names, Plain p) (h : g.moved = some (path,change)) :
    Plain path ∧ ∀ p ∈ change.source, Plain p := by
  simp only [Extended.names,forall_mem_append,mem_toList] at hg
  unfold Extended.moved at h
  split at h
  · rename_i source target hsource htarget
    cases h
    refine ⟨hg.2 _ htarget,fun p hp => hg.1.2 p ?_⟩
    rw [hsource,← hp]
    split <;> rfl
  · cases h

theorem alone_plain (hg : ∀ p ∈ g.names, Plain p) : ∀ s ∈ g.alone, ∀ p ∈ s.paths, Plain p := by
  have hfile : ∀ p ∈ g.file, Plain p := by
    simp only [Extended.names,forall_mem_append,mem_toList] at hg
    exact hg.1.1
  unfold Extended.alone
  split
  · rename_i path change hmoved
    obtain ⟨hpath,hsource⟩ := moved_plain hg hmoved
    rintro s hs
    rw [mem_singleton.mp hs]
    exact forall_mem_cons.mpr ⟨hpath,fun p hp => hsource p (mem_toList.mp hp)⟩
  · split_ifs
    · simpa [Section.paths,Change.source] using hfile
    · simpa [Section.paths,Change.source] using hfile
    · exact fun s hs => absurd hs not_mem_nil

theorem sides_plain (hold : '\n' ∉ old) (hnew : '\n' ∉ new) (hg : ∀ p ∈ g.names, Plain p)
    (h : g.sides old new = some (path,change)) : Plain path ∧ ∀ p ∈ change.source, Plain p := by
  unfold Extended.sides at h
  split at h
  · rename_i new' _ hside
    cases h
    exact ⟨sideOf_plain hnew hside,fun p hp => nomatch hp⟩
  · rename_i old' hside _
    cases h
    exact ⟨sideOf_plain hold hside,fun p hp => nomatch hp⟩
  · rename_i old' new' hside hside'
    split at h
    · rename_i hmoved
      split at h
      · cases h
        exact moved_plain hg hmoved
      · cases h
    · split at h
      · cases h
      · cases h
        refine ⟨?_,fun p hp => nomatch hp⟩
        split
        · exact sideOf_plain hold hside
        · exact sideOf_plain hnew hside'
  · cases h

def Mode.Plain : Mode → Prop
  | .headers g => ∀ p ∈ g.names, UnifiedDiff.Plain p
  | .named g old => (∀ p ∈ g.names, UnifiedDiff.Plain p) ∧ '\n' ∉ old
  | _ => True

theorem read_plain {mode : Mode} (hls : ∀ l ∈ ls, '\n' ∉ l) (hmode : mode.Plain) {p : Parsed} (h : read mode ls = some p) :
    ∀ s ∈ p.sections, ∀ path ∈ s.paths, Plain path := by
  fun_induction read mode ls generalizing p with
  | case1 | case4 =>
    cases h
    exact fun s hs => absurd hs not_mem_nil
  | case2 | case5 | case9 | case15 => cases h
  | case3 g =>
    cases h
    exact alone_plain hmode
  | case6 l ls _ _ ih | case18 l ls _ _ _ ih =>
    obtain ⟨hl,hls⟩ := forall_mem_cons.mp hls
    exact ih hls ⟨fun p hp => absurd hp not_mem_nil,hl⟩ h
  | case7 l ls _ _ _ ih | case19 l ls _ _ _ _ ih =>
    obtain ⟨hl,hls⟩ := forall_mem_cons.mp hls
    exact ih hls (gitHead_plain hl) h
  | case8 l ls _ _ _ ih | case16 l ls _ ih | case20 l ls _ _ _ _ ih | case21 o n l ls _ _ ih =>
    exact ih (forall_mem_cons.mp hls).2 trivial h
  | case10 g l ls _ _ ih =>
    obtain ⟨hl,hls⟩ := forall_mem_cons.mp hls
    exact ih hls ⟨hmode,hl⟩ h
  | case11 g l ls _ _ _ ih =>
    obtain ⟨hl,hls⟩ := forall_mem_cons.mp hls
    obtain ⟨q,hq,rfl⟩ := map_eq_some_iff.mp h
    exact forall_mem_append.mpr ⟨alone_plain hmode,ih hls (gitHead_plain hl) hq⟩
  | case12 g l ls _ _ _ _ ih =>
    obtain ⟨hl,hls⟩ := forall_mem_cons.mp hls
    exact ih hls (add_plain hl hmode) h
  | case13 g l ls _ _ _ _ ih =>
    obtain ⟨q,hq,rfl⟩ := map_eq_some_iff.mp h
    exact forall_mem_append.mpr ⟨alone_plain hmode,ih (forall_mem_cons.mp hls).2 trivial hq⟩
  | case14 g old l ls _ ih =>
    obtain ⟨hl,hls⟩ := forall_mem_cons.mp hls
    obtain ⟨⟨path,change⟩,hsides,h⟩ := bind_eq_some_iff.mp h
    obtain ⟨q,hq,rfl⟩ := map_eq_some_iff.mp h
    obtain ⟨hpath,hsource⟩ := sides_plain hmode.2 hl hmode.1 hsides
    refine forall_mem_cons.mpr ⟨?_,ih hls trivial hq⟩
    exact forall_mem_cons.mpr ⟨hpath,fun p hp => hsource p (mem_toList.mp hp)⟩
  | case17 l ls _ _ ih =>
    obtain ⟨r,-,h⟩ := bind_eq_some_iff.mp h
    obtain ⟨q,hq,rfl⟩ := map_eq_some_iff.mp h
    have hsections := ih r (forall_mem_cons.mp hls).2 trivial hq
    exact hsections
  | case22 o n l ls _ _ ih =>
    obtain ⟨⟨mark,t⟩,-,h⟩ := bind_eq_some_iff.mp h
    obtain ⟨⟨o',n'⟩,-,h⟩ := bind_eq_some_iff.mp h
    obtain ⟨q,hq,rfl⟩ := map_eq_some_iff.mp h
    have hsections := ih o' n' (forall_mem_cons.mp hls).2 trivial hq
    exact hsections

theorem parse_plain {patch : Text} (h : parse patch = some ss) : ∀ s ∈ ss, ∀ path ∈ s.paths, Plain path := by
  obtain ⟨p,hp,rfl⟩ := map_eq_some_iff.mp h
  refine @read_plain _ .loose (fun l hl => ?_) trivial p hp
  obtain ⟨a,ha,rfl⟩ := List.mem_map.mp hl
  exact (isLine_of_mem ha).not_mem_chomp

end Reading

/-! ### Diffs as they may be written -/

structure HunkText where
  head : Text
  hunk : Hunk
  reads : readHeader head = some ⟨hunk.oldAt,(olds hunk.edits).length,hunk.newAt,(news hunk.edits).length⟩
  feedless : '\n' ∉ head
  isLine : ∀ e ∈ hunk.edits, IsLine e.text

def HunkText.lines (h : HunkText) : List Text := h.head :: h.hunk.edits.flatMap Edit.raw

def extended (git : Option Text) (notes : List Text) : Extended := notes.foldl Extended.add (git.elim {} gitHead)

/-- A section as it may be written: a `diff --git` line and extended headers, or none of them, and
the two lines that name its file, which only a section of headers alone does without. -/
structure FileText where
  git : Option Text
  notes : List Text
  sides : Option (Text × Text)
  hunks : List HunkText
  isGit : ∀ l ∈ git, startsWith "diff --git " l = true
  isNote : ∀ l ∈ notes, isNote l = true
  isSides : ∀ s ∈ sides, (startsWith "--- " s.1 = true ∧ startsWith "+++ " s.2 = true) ∧ ((extended git notes).sides s.1 s.2).isSome
  feedless : ∀ l ∈ git.toList ++ notes ++ sides.elim [] (fun s => [s.1,s.2]), '\n' ∉ l
  opened : git = none → notes = [] ∧ sides.isSome
  bare : sides = none → hunks = []

def FileText.front (f : FileText) : List Text := f.git.toList ++ f.notes ++ f.sides.elim [] fun s => [s.1,s.2]

def FileText.lines (f : FileText) : List Text := f.front ++ f.hunks.flatMap HunkText.lines

def FileText.sections (f : FileText) : List Section := match f.sides with
  | some (old,new) => ((extended f.git f.notes).sides old new).toList.map fun file => ⟨file.1,file.2,f.hunks.map HunkText.hunk⟩
  | none => (extended f.git f.notes).alone

/-- Headers alone end only at a `diff --git` line. -/
def Delimited (fs : List FileText) : Prop := fs.IsChain fun f f' => f.sides = none → f'.git.isSome

section Written
variable {ls : List Text} {l : Text}
variable {ss : List Section}

theorem reads_hunkTexts (hs : List HunkText) {hs' : List Hunk} (h : Reads ls hs' ss) :
    Reads (hs.flatMap HunkText.lines ++ ls) (hs.map HunkText.hunk ++ hs') ss := by
  induction hs with
  | nil => exact h
  | cons k hs ih =>
    rw [flatMap_cons,append_assoc]
    exact reads_hunk k.reads rfl rfl ih

theorem quiet_note (h : isNote l = true) :
    startsWith "@@ -" l = false ∧ startsWith "--- " l = false ∧ startsWith "+++ " l = false ∧ startsWith "diff --git " l = false := by
  obtain ⟨word,hword,hl⟩ := List.any_eq_true.mp h
  obtain ⟨rest,rfl⟩ := startsWith_iff.mp hl
  simp only [noteWords,movers,cons_append,nil_append,mem_cons,not_mem_nil,or_false] at hword
  rcases hword with rfl | rfl | rfl | rfl | rfl | rfl | rfl | rfl | rfl | rfl | rfl <;> exact ⟨rfl,rfl,rfl,rfl⟩

theorem read_notes {notes : List Text} {g : Extended} (h : ∀ l ∈ notes, isNote l = true) :
    read (.headers g) (notes ++ ls) = read (.headers (notes.foldl Extended.add g)) ls := by
  induction notes generalizing g with
  | nil => rfl
  | cons l notes ih =>
    obtain ⟨hl,hnotes⟩ := forall_mem_cons.mp h
    obtain ⟨hhunk,hside,-,hgit⟩ := quiet_note hl
    rw [cons_append,read,hhunk,hside,hgit,hl]
    exact ih hnotes

theorem read_closed {g : Extended} (h : ∀ l ∈ ls.head?, startsWith "diff --git " l = true) :
    read (.headers g) ls = (read (.body 0 0) ls).map (Parsed.add g.alone) := by
  cases ls with
  | nil => simp [read,Parsed.add]
  | cons l ls =>
    have hl := h l rfl
    obtain ⟨-,hhunk,hside⟩ := quiet_git hl
    rw [read_git (.inr rfl) hl,read,hhunk,hside,hl]
    rfl

variable {mode : Mode}

theorem read_front (f : FileText) (hmode : mode = .loose ∨ mode = .body 0 0) : ∃ mode' : Mode,
    mode'.extended = some (extended f.git f.notes) ∧
    (f.git.isSome → mode' = .headers (extended f.git f.notes)) ∧ ∀ rest, read mode
    (f.git.toList ++ f.notes ++ rest) = read mode' rest := by
  cases hgit : f.git with
  | none =>
    rw [(f.opened hgit).1]
    exact ⟨mode,by rcases hmode with rfl | rfl <;> rfl,fun hsome => (nomatch hsome),fun rest => rfl⟩
  | some l =>
    refine ⟨.headers (extended (some l) f.notes),rfl,fun _ => rfl,fun rest => ?_⟩
    rw [Option.toList_some,append_assoc,singleton_append,read_git hmode (f.isGit l hgit),read_notes f.isNote]
    rfl

theorem read_fileText (f : FileText) (h : Reads ls [] ss)
    (hclosed : f.sides = none → ∀ l ∈ ls.head?, startsWith "diff --git " l = true)
    (hmode : mode = .loose ∨ mode = .body 0 0) : read mode (f.lines ++ ls) = some ⟨[],[],f.sections ++ ss⟩ := by
  obtain ⟨mode',hextended,hgit,hread⟩ := read_front f hmode
  rw [FileText.lines,FileText.front,append_assoc,append_assoc,hread]
  cases hsides : f.sides with
  | none =>
    have hsome : f.git.isSome := Option.isSome_iff_ne_none.mpr fun hnone => by simpa [hsides] using (f.opened hnone).2
    rw [f.bare hsides,hgit hsome]
    simp only [Option.elim_none,List.flatMap_nil,nil_append]
    rw [read_closed (hclosed hsides),h.2]
    simp [Parsed.add,FileText.sections,hsides]
  | some s =>
    obtain ⟨⟨hold,hnew⟩,hfile⟩ := f.isSides s hsides
    obtain ⟨file,hfile⟩ := Option.isSome_iff_exists.mp hfile
    simp only [Option.elim_some,cons_append,nil_append]
    rw [read_sides hextended hold hnew hfile,(reads_hunkTexts f.hunks h).2]
    simp [Parsed.addFile,FileText.sections,hsides,hfile]

theorem FileText.first (f : FileText) : ∃ l ls, f.front = l :: ls ∧ (startsWith "diff --git " l = true ∨
    f.git = none ∧ startsWith "--- " l = true) := by
  unfold FileText.front
  cases hgit : f.git with
  | some l => exact ⟨l,_,rfl,.inl (f.isGit l hgit)⟩
  | none =>
    obtain ⟨hnotes,hsides⟩ := f.opened hgit
    obtain ⟨s,hs⟩ := Option.isSome_iff_exists.mp hsides
    rw [hnotes,hs]
    exact ⟨s.1,[s.2],rfl,.inr ⟨rfl,(f.isSides s hs).1.1⟩⟩

theorem FileText.opens (f : FileText) : Opens (f.lines ++ ls) := by
  obtain ⟨l,rest,hfront,hl⟩ := f.first
  rw [FileText.lines,hfront]
  rcases hl with hl | ⟨-,hl⟩
  · exact not_marker_of_startsWith rfl (by decide) hl
  · exact not_marker_of_startsWith rfl (by decide) hl

variable {f : FileText}

theorem Delimited.head {fs : List FileText} (h : Delimited (f :: fs)) (hsides : f.sides = none) :
    ∀ l ∈ (fs.flatMap FileText.lines).head?, startsWith "diff --git " l = true := by
  cases fs with
  | nil => exact fun l hl => nomatch hl
  | cons f' fs =>
    obtain ⟨l,rest,hfront,hl⟩ := f'.first
    have hgit : f'.git.isSome := (List.isChain_cons_cons.mp h).1 hsides
    rw [flatMap_cons,FileText.lines,hfront]
    rintro x ⟨⟩
    refine hl.resolve_right fun hnone => ?_
    rw [hnone.1] at hgit
    cases hgit

theorem Delimited.tail {fs : List FileText} (h : Delimited (f :: fs)) : Delimited fs := by
  cases fs with
  | nil => exact .nil
  | cons f' fs => exact (List.isChain_cons_cons.mp h).2

theorem reads_fileTexts {fs : List FileText} (h : Delimited fs) : Reads (fs.flatMap FileText.lines) [] (fs.flatMap FileText.sections) := by
  induction fs with
  | nil => exact ⟨rfl,rfl⟩
  | cons f fs ih =>
    rw [flatMap_cons,flatMap_cons]
    exact ⟨f.opens,read_fileText f (ih h.tail) h.head (.inr rfl)⟩

theorem HunkText.feedless_lines (h : HunkText) (hl : l ∈ h.lines) : '\n' ∉ l := by
  rcases mem_cons.mp hl with rfl | hl
  · exact h.feedless
  · obtain ⟨e,he,hl⟩ := mem_flatMap.mp hl
    exact not_mem_edit (h.isLine e he) hl

theorem FileText.feedless_lines (f : FileText) (hl : l ∈ f.lines) : '\n' ∉ l := by
  rcases mem_append.mp hl with hl | hl
  · exact f.feedless l hl
  · obtain ⟨h,-,hl⟩ := mem_flatMap.mp hl
    exact h.feedless_lines hl

theorem parse_fileTexts {fs : List FileText} (h : Delimited fs) :
    parse (textOf (fs.flatMap FileText.lines)) = some (fs.flatMap FileText.sections) := by
  have hfeed : ∀ l ∈ fs.flatMap FileText.lines, '\n' ∉ l := by
    intro l hl
    obtain ⟨f,-,hl⟩ := mem_flatMap.mp hl
    exact f.feedless_lines hl
  have hread : read .loose (fs.flatMap FileText.lines) = some ⟨[],[],fs.flatMap FileText.sections⟩ := by
    cases fs with
    | nil => rfl
    | cons f fs =>
      rw [flatMap_cons,flatMap_cons]
      exact read_fileText f (reads_fileTexts h.tail) h.head (.inl rfl)
  rw [parse,textOf,fileLines_flatMap hfeed,hread]
  rfl

end Written

/-! ### What a diff does -/

/-- Hunks on the lines of a file behind its first `n` ones. -/
def applyHunks : ℕ → List Hunk → List Text → Option (List Text)
  | _, [], rest => some rest
  | n, h :: hs, rest =>
    let gap := h.oldAt - n
    if n ≤ h.oldAt ∧ gap ≤ rest.length ∧ olds h.edits <+: rest.drop gap then
      (applyHunks (h.oldAt + (olds h.edits).length) hs (rest.drop (gap + (olds h.edits).length))).map
        (rest.take gap ++ news h.edits ++ ·)
    else none

abbrev Files := Text → Option Text

def Section.vacated (s : Section) : Option Text := match s.change with
  | .delete => some s.path
  | .rename source => some source
  | _ => none

/-- What is deleted or moved is taken away before anything is written. -/
def vacate (ss : List Section) (tree : Files) : Files := fun path => if some path ∈ ss.map Section.vacated then none else tree path

/-- The text that a section changes; what is moved, copied or deleted is read from the tree as it was. -/
def Section.before (base tree : Files) (s : Section) : Option Text := match s.change with
  | .modify => tree s.path
  | .delete => base s.path
  | .create => if tree s.path = none then some [] else none
  | .rename source | .copy source => if tree s.path = none then base source else none

def Section.after (tree : Files) (s : Section) (ls : List Text) : Option Files := match s.change with
  | .delete => if ls = [] then some tree else none
  | _ => some (update tree s.path (some ls.flatten))

def applySection (base tree : Files) (s : Section) : Option Files :=
  (s.before base tree).bind fun t => (applyHunks 0 s.hunks (fileLines t)).bind (s.after tree)

def applyPatch (patch : Text) (tree : Files) : Option Files :=
  (parse patch).bind fun ss => ss.foldlM (applySection tree) (vacate ss tree)

/-- A correct edit script between lists of lines, of which `i` and `j` lines lie behind. -/
inductive Script : ℕ → ℕ → List Text → List Text → List Hunk → Prop
  | done (i j : ℕ) (ls : List Text) : Script i j ls ls []
  | hunk (i j : ℕ) (gap : List Text) (h : Hunk) (a b : List Text) (hs : List Hunk) (hold : h.oldAt = i + gap.length)
      (hnew : h.newAt = j + gap.length)
      (rest : Script (h.oldAt + (olds h.edits).length) (h.newAt + (news h.edits).length) a b hs) :
      Script i j (gap ++ olds h.edits ++ a) (gap ++ news h.edits ++ b) (h :: hs)

section
variable {i j : ℕ} {a b : List Text} {hs : List Hunk}

theorem Script.applyHunks (h : Script i j a b hs) : applyHunks i hs a = some b := by
  induction h with
  | done => rfl
  | hunk i j gap h a b hs hold hnew rest ih =>
    have hgap : h.oldAt - i = gap.length := by omega
    have hle : i ≤ h.oldAt := by omega
    have htake : (gap ++ olds h.edits ++ a).take gap.length = gap := by rw [append_assoc,List.take_left]
    have hdrop : (gap ++ olds h.edits ++ a).drop (gap.length + (olds h.edits).length) = a := by
      rw [← length_append,drop_left]
    have hplace : olds h.edits <+: (gap ++ olds h.edits ++ a).drop gap.length := by
      rw [append_assoc,drop_left]
      exact List.prefix_append _ _
    have hlen : gap.length ≤ (gap ++ olds h.edits ++ a).length := by
      rw [append_assoc,length_append]
      exact Nat.le_add_right _ _
    simp only [UnifiedDiff.applyHunks,hgap,hle,hlen,hplace,and_self,if_true,htake,hdrop,ih,map_some]

variable {e : Edit}

theorem mem_olds_or_news {es : List Edit} (h : e ∈ es) : e.text ∈ olds es ∨ e.text ∈ news es := by
  by_cases hmark : e.mark = .ins
  · refine .inr (mem_map_of_mem (List.mem_filter.mpr ⟨h,?_⟩))
    rw [hmark]
    decide
  · exact .inl (mem_map_of_mem (List.mem_filter.mpr ⟨h,by simpa using hmark⟩))

theorem Script.text_mem (h : Script i j a b hs) {k : Hunk} (hk : k ∈ hs) (he : e ∈ k.edits) :
    e.text ∈ a ∨ e.text ∈ b := by
  induction h with
  | done => cases hk
  | hunk i j gap h a b hs hold hnew rest ih =>
    rcases mem_cons.mp hk with rfl | hk
    · exact (mem_olds_or_news he).imp (fun ho => List.mem_append_left _ (mem_append_right _ ho))
        (fun hn => List.mem_append_left _ (mem_append_right _ hn))
    · exact (ih hk).imp (mem_append_right _) (mem_append_right _)

theorem Script.ne_nil (h : Script i j a b hs) (hne : a ≠ b) : hs ≠ [] := by
  cases h with
  | done => exact absurd rfl hne
  | hunk => exact cons_ne_nil _ _

def replaceAll (a b : List Text) : List Hunk :=
  if a = b then [] else [⟨0,0,a.map (Edit.mk .del) ++ b.map (Edit.mk .ins)⟩]

theorem olds_replaceAll (a b : List Text) : olds (a.map (Edit.mk .del) ++ b.map (Edit.mk .ins)) = a := by
  simp [olds,filter_append,List.filter_map,comp_def]

theorem news_replaceAll (a b : List Text) : news (a.map (Edit.mk .del) ++ b.map (Edit.mk .ins)) = b := by
  simp [news,filter_append,List.filter_map,comp_def]

theorem script_replaceAll (a b : List Text) : Script 0 0 a b (replaceAll a b) := by
  unfold replaceAll
  split
  · rename_i heq
    exact heq ▸ .done 0 0 a
  · have hscript := Script.hunk 0 0 [] ⟨0,0,a.map (Edit.mk .del) ++ b.map (Edit.mk .ins)⟩ [] [] [] rfl rfl (.done _ _ [])
    simpa only [olds_replaceAll,news_replaceAll,nil_append,List.append_nil] using hscript

end

section
variable {hs hs' : List Hunk} {rest out : List Text} {n : ℕ}
variable (es es' : List Edit)

theorem olds_append : olds (es ++ es') = olds es ++ olds es' := by simp [olds,filter_append]

theorem news_append : news (es ++ es') = news es ++ news es' := by simp [news,filter_append]

theorem applyHunks_skip (passed : List Text) (h : applyHunks (n + passed.length) hs rest = some out) :
    applyHunks n hs (passed ++ rest) = some (passed ++ out) := by
  cases hs with
  | nil =>
    rw [applyHunks] at h
    rw [applyHunks,Option.some.inj h]
  | cons k hs =>
    simp only [applyHunks] at h ⊢
    split at h
    · rename_i hplace
      obtain ⟨hle,hlen,hpre⟩ := hplace
      have hgap : k.oldAt - n = passed.length + (k.oldAt - (n + passed.length)) := by omega
      have hbehind : k.oldAt - n + (olds k.edits).length
          = passed.length + (k.oldAt - (n + passed.length) + (olds k.edits).length) := by omega
      rw [hbehind,hgap,List.drop_length_add_append,List.drop_length_add_append,List.take_length_add_append,if_pos]
      · obtain ⟨tail,htail,rfl⟩ := map_eq_some_iff.mp h
        rw [htail]
        simp only [map_some,append_assoc]
      · refine ⟨by omega,?_,hpre⟩
        rw [length_append]
        omega
    · cases h

def Trimmed (h h' : Hunk) : Prop := h'.oldAt = h.oldAt ∧ ∃ es, h.edits = h'.edits ++ es ∧ ∀ e ∈ es, e.mark = .same

theorem applyHunks_trimmed (htrim : List.Forall₂ Trimmed hs hs') (h : applyHunks n hs rest = some out) :
    applyHunks n hs' rest = some out := by
  induction htrim generalizing n rest out with
  | nil => exact h
  | @cons k k' hs hs' hk _ ih =>
    obtain ⟨hat,es,hedits,hsame⟩ := hk
    have hctx : olds es = news es := by
      rw [olds,news,List.filter_eq_self.mpr fun e he => by simp [hsame e he],
        List.filter_eq_self.mpr fun e he => by simp [hsame e he]]
    simp only [applyHunks] at h ⊢
    split at h
    · rename_i hplace
      obtain ⟨hle,hlen,hpre⟩ := hplace
      rw [hedits,olds_append] at hpre h
      obtain ⟨tail,htail,rfl⟩ := map_eq_some_iff.mp h
      obtain ⟨behind,hbehind⟩ := hpre
      have hpre : olds k'.edits <+: rest.drop (k.oldAt - n) := ⟨olds es ++ behind,by rw [← hbehind,append_assoc]⟩
      have hdrop : rest.drop (k.oldAt - n + (olds k'.edits).length)
          = olds es ++ rest.drop (k.oldAt - n + ((olds k'.edits).length + (olds es).length)) := by
        rw [← length_append,← List.drop_drop,← List.drop_drop,← hbehind,drop_left,append_assoc,drop_left]
      have hskip := applyHunks_skip (olds es) (ih (by rwa [length_append,← Nat.add_assoc] at htail))
      rw [hat,if_pos ⟨hle,hlen,hpre⟩,hdrop,hskip,map_some,news_append,hctx]
      simp only [append_assoc]
    · cases h

end

/-! ### What a diff does to a tree -/

section
variable {base tree tree' : Files}
variable {s : Section}

theorem applySection_other (h : applySection base tree s = some tree') {path : Text} (hpath : s.path ≠ path) :
    tree' path = tree path := by
  obtain ⟨t,-,h⟩ := bind_eq_some_iff.mp h
  obtain ⟨ls,-,h⟩ := bind_eq_some_iff.mp h
  unfold Section.after at h
  split at h
  · split at h
    · rw [Option.some.inj h]
    · cases h
  · rw [← Option.some.inj h,update_of_ne (Ne.symm hpath)]

variable {ss : List Section}

theorem vacate_other {path : Text} (hpath : ∀ s ∈ ss, path ∉ s.paths) : vacate ss tree path = tree path := by
  refine if_neg fun hmem => ?_
  obtain ⟨s,hs,hvacated⟩ := List.mem_map.mp hmem
  refine hpath s hs ?_
  unfold Section.vacated at hvacated
  split at hvacated
  · rw [← Option.some.inj hvacated]
    exact mem_cons_self
  · rename_i source hchange
    rw [Section.paths,hchange,← Option.some.inj hvacated]
    exact mem_cons_of_mem _ (mem_singleton.mpr rfl)
  · cases hvacated

theorem foldlM_applySection_other (h : ss.foldlM (applySection base) tree = some tree') {path : Text}
    (hpath : ∀ s ∈ ss, path ∉ s.paths) : tree' path = tree path := by
  induction ss generalizing tree with
  | nil =>
    cases h
    rfl
  | cons s ss ih =>
    rw [foldlM_cons] at h
    obtain ⟨mid,hmid,h⟩ := bind_eq_some_iff.mp h
    obtain ⟨hs,hss⟩ := forall_mem_cons.mp hpath
    have hne : s.path ≠ path := fun heq => hs (heq ▸ mem_cons_self)
    rw [ih h hss,applySection_other hmid hne]

/-- Only context at the end of hunks is gone. -/
def TrimmedSection (s s' : Section) : Prop := s'.path = s.path ∧ s'.change = s.change ∧ List.Forall₂ Trimmed s.hunks s'.hunks

theorem applySection_trimmed {s' : Section} (htrim : TrimmedSection s s') (h : applySection base tree s = some tree') :
    applySection base tree s' = some tree' := by
  obtain ⟨hpath,hchange,hhunks⟩ := htrim
  obtain ⟨t,ht,h⟩ := bind_eq_some_iff.mp h
  obtain ⟨ls,hls,h⟩ := bind_eq_some_iff.mp h
  have hbefore : s'.before base tree = some t := by rw [← ht,Section.before,Section.before,hpath,hchange]
  have hafter : s'.after tree ls = some tree' := by rw [← h,Section.after,Section.after,hpath,hchange]
  rw [applySection,hbefore,bind_some,applyHunks_trimmed hhunks hls,bind_some,hafter]

variable {ss' : List Section}

theorem vacate_trimmed (htrim : List.Forall₂ TrimmedSection ss ss') : vacate ss' tree = vacate ss tree := by
  have hsame : ss'.map Section.vacated = ss.map Section.vacated := by
    induction htrim with
    | nil => rfl
    | @cons s s' ss ss' hs _ ih =>
      have hvacated : s'.vacated = s.vacated := by rw [Section.vacated,Section.vacated,hs.1,hs.2.1]
      rw [List.map_cons,List.map_cons,hvacated,ih]
  funext path
  rw [vacate,vacate,hsame]

theorem foldlM_trimmed (htrim : List.Forall₂ TrimmedSection ss ss')
    (h : ss.foldlM (applySection base) tree = some tree') : ss'.foldlM (applySection base) tree = some tree' := by
  induction htrim generalizing tree with
  | nil => exact h
  | cons hs _ ih =>
    rw [foldlM_cons] at h ⊢
    obtain ⟨mid,hmid,h⟩ := bind_eq_some_iff.mp h
    rw [applySection_trimmed hs hmid]
    exact ih h

variable {fs : List FileDiff}

theorem vacate_sections (fs : List FileDiff) (tree : Files) : vacate (fs.map FileDiff.section) tree = tree := by
  funext path
  refine if_neg fun hmem => ?_
  obtain ⟨s,hs,hvacated⟩ := List.mem_map.mp hmem
  obtain ⟨f,-,rfl⟩ := List.mem_map.mp hs
  cases hvacated

variable {f : FileDiff}

theorem applySection_modify : applySection base tree f.section =
    (tree f.path).bind fun t => (applyHunks 0 f.hunks (fileLines t)).map fun ls => update tree f.path (some ls.flatten) := by
  rw [applySection]
  refine congrArg _ (funext fun t => ?_)
  rw [Option.map_eq_bind]
  rfl

theorem foldlM_applySection_each (hnodup : (fs.map FileDiff.path).Nodup)
    (h : (fs.map FileDiff.section).foldlM (applySection base) tree = some tree') (hf : f ∈ fs) :
    ∃ t ls, tree f.path = some t ∧ applyHunks 0 f.hunks (fileLines t) = some ls := by
  induction fs generalizing tree with
  | nil => cases hf
  | cons g fs ih =>
    rw [map_cons,foldlM_cons,applySection_modify] at h
    obtain ⟨mid,hmid,h⟩ := bind_eq_some_iff.mp h
    obtain ⟨t,ht,hmid⟩ := bind_eq_some_iff.mp hmid
    obtain ⟨ls,hls,rfl⟩ := map_eq_some_iff.mp hmid
    obtain ⟨hfresh,hnodup⟩ := List.nodup_cons.mp hnodup
    rcases mem_cons.mp hf with rfl | hf
    · exact ⟨t,ls,ht,hls⟩
    · obtain ⟨u,us,hu,hus⟩ := ih hnodup h hf
      have hne : f.path ≠ g.path := fun heq => hfresh (heq ▸ mem_map_of_mem hf)
      exact ⟨u,us,by rwa [update_of_ne hne] at hu,hus⟩

theorem foldlM_applySection (new : Text → Text) (hnodup : (fs.map FileDiff.path).Nodup)
    (h : ∀ f ∈ fs, ∃ t ls, tree f.path = some t ∧ applyHunks 0 f.hunks (fileLines t) = some ls ∧ ls.flatten = new f.path) :
    (fs.map FileDiff.section).foldlM (applySection base) tree
      = some fun path => if path ∈ fs.map FileDiff.path then some (new path) else tree path := by
  induction fs generalizing tree with
  | nil => rfl
  | cons f fs ih =>
    obtain ⟨⟨t,ls,ht,hls,hnew⟩,hrest⟩ := forall_mem_cons.mp h
    obtain ⟨hfresh,hnodup⟩ := List.nodup_cons.mp hnodup
    have hfile : applySection base tree f.section = some (update tree f.path (some (new f.path))) := by
      rw [applySection_modify,ht,bind_some,hls,map_some,hnew]
    rw [map_cons,foldlM_cons,hfile]
    refine (ih hnodup fun g hg => ?_).trans (congrArg some (funext fun path => ?_))
    · obtain ⟨u,us,hu,hus⟩ := hrest g hg
      have hne : g.path ≠ f.path := fun heq => hfresh (heq ▸ mem_map_of_mem hg)
      exact ⟨u,us,by rwa [update_of_ne hne],hus⟩
    · by_cases hpath : path = f.path
      · rw [hpath,if_neg hfresh,Function.update_self,if_pos (mem_map_of_mem mem_cons_self)]
      · simp only [map_cons,mem_cons,hpath,false_or,update_of_ne hpath]

end

end Verdict.UnifiedDiff

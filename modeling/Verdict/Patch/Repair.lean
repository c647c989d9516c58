import Verdict.Patch.Extract

/-! # The repairs of a diff

`repair_new_file_diff` and `repair_bare_hunks`, which rewrite a diff behind the check of its
paths, and `_apply_diff_reply`. A working tree is what can be asked of it.
-/
namespace Verdict.Patch
open GitPatch Path WorkUnit

/-- Why a file is not read: an unsafe path or an `OSError`, or an exception that nobody catches. -/
inductive ReadError
  | refused (reason : String)
  | raised

/-- A working tree: whether a path exists, which may be an `OSError`, and `read_repository_text`. -/
structure Tree where
  exists? : Text → Except String Bool
  read : Text → Except ReadError Text

/-- A pair of `---` and `+++` lines with the lines behind it. -/
structure Section where
  (old new : Text)
  body : List Text

def sideField (word : String) (l : Text) : Option Text :=
  match expect word l with
  | some (c :: rest) => some (c :: rest)
  | _ => none

/-- The lines before the first match of `_DIFF_SECTION_RE`, and a section for each match. -/
def sections : Diff → List Text × List Section
  | a :: b :: rest => match sideField "--- " a,sideField "+++ " b with
    | some old,some new => ([],⟨old,new,(sections rest).1⟩ :: (sections rest).2)
    | _,_ => (a :: (sections (b :: rest)).1,(sections (b :: rest)).2)
  | ls => (ls,[])

def Section.lines (sec : Section) : List Text :=
  ("--- ".toList ++ sec.old) :: ("+++ ".toList ++ sec.new) :: sec.body

variable (literalEval : Text → Literal)

/-- `_diff_section_path`; a quoted value that is no text raises. -/
def diffSectionPath (headerField : Text) : Except Stop (Option Text) :=
  let candidate := strip headerField
  let spelled : Except Stop (Option Text) :=
    if isQuoted candidate then match literalEval candidate with
      | .text decoded => .ok (some decoded)
      | .refused => .ok none
      | .value | .raised => .error .raised
    else .ok (some candidate)
  spelled.map (fun spelled => spelled.bind (fun candidate =>
    if beforeTab candidate = devNull then none else some (stripSide (beforeTab candidate))))

def addedLines (body : List Text) : List Text :=
  (body.filter fun l => l.head? ≠ some '-' ∧ (hunkStarts l).isNone).map
    (fun l => if l.head? = some '+' ∨ l.head? = some ' ' then l.tail else l)

def newFileHeader (path : Text) : List Text := lines ("+++ b/".toList ++ path)

def newFileLines (path : Text) (body : List Text) : List Text :=
  "--- /dev/null".toList :: newFileHeader path
    ++ ("@@ -0,0 +1,".toList ++ number (addedLines body).length ++ " @@".toList)
      :: (addedLines body).map fun l => '+' :: l

variable (tree : Tree)

def rewrites (sec : Section) : Except Stop (Option Text) :=
  match diffSectionPath literalEval sec.old with
  | .error e => .error e
  | .ok source => match diffSectionPath literalEval sec.new with
    | .error e => .error e
    | .ok dest =>
      let path := if dest = none ∨ dest = some [] then source else dest
      match source,path with
      | some _,some path => match tree.exists? path with
        | .ok true => .ok none
        | .ok false => .ok (some path)
        | .error _ => .error .raised
      | _,_ => .ok none

def repairSection (sec : Section) : Except Stop (List Text) :=
  (rewrites literalEval tree sec).map (fun path => match path with
    | some path => newFileLines path sec.body
    | none => sec.lines)

def repairNewFileDiff (diff : Diff) : Except Stop Diff :=
  ((sections diff).2.mapM (repairSection literalEval tree)).map fun parts => (sections diff).1 ++ parts.flatten

/-- A piece of a line as `splitlines` cuts it; `last` has the line feed. -/
structure Piece where
  text : Text
  last : Bool

/-- The breaks of `splitlines` beside the line feed. -/
def isBreak (c : Char) : Bool :=
  let n := c.toNat
  (11 ≤ n && n ≤ 13) || (28 ≤ n && n ≤ 30) || n == 0x85 || n == 0x2028 || n == 0x2029

def pieces : Text → List Piece
  | [] => [⟨[],true⟩]
  | c :: t =>
    if isBreak c ∧ ¬ (c = '\r' ∧ t = []) then ⟨[c],false⟩ :: pieces t
    else match pieces t with
      | p :: ps => ⟨c :: p.text,p.last⟩ :: ps
      | [] => []

def regroup : List Piece → List Text
  | [] => []
  | ⟨t,true⟩ :: ps => t :: regroup ps
  | ⟨t,false⟩ :: ps => match regroup ps with
    | l :: ls => (t ++ l) :: ls
    | [] => [t]

def Piece.whole (p : Piece) : Text := if p.last then p.text ++ ['\n'] else p.text

def isBare (t : Text) : Bool := strip t = ['@','@']

def endsBare (p : Piece) : Bool := startsWith "@@" p.text || startsWith "diff --git " p.text || startsWith "--- " p.text

def starts (marks : List Char) (p : Piece) : Bool := match p.text.head? with
  | some c => decide (c ∈ marks)
  | none => false

/-- What the loop of `repair_bare_hunks` carries: the file, the lines added so far, and how many
of the next pieces are the content of a new file. -/
structure Locating where
  path : Option Text := none
  offset : ℤ := 0
  todo : ℕ := 0

def asAddition (p : Piece) : Piece := {p with text := '+' :: p.text.tail}

def Locating.take (st : Locating) (p : Piece) : Piece := if 0 < st.todo then asAddition p else p

def namedPath (t : Text) : Except Stop (Option Text) := match normalizeOwnedPath (strip (t.drop 6)) with
  | .ok path => .ok (some path)
  | .error _ => .error .raised

def Locating.enter (st : Locating) (t : Text) : Except Stop Locating :=
  let st := {st with todo := st.todo - 1}
  let st := if startsWith "--- " t then {st with path := none, offset := 0} else st
  if startsWith "--- a/" t || startsWith "+++ b/" t then (namedPath t).map fun path => {st with path}
  else .ok st

def oldText (body : List Piece) : Text := ((body.filter (starts [' ','-'])).map fun p => p.whole.tail).flatten

def Locating.numbered (st : Locating) (body : List Piece) (start : ℕ) : Text × Locating :=
  let oldCount := body.countP (starts [' ','-'])
  let newCount := body.countP (starts [' ','+'])
  (hunkHeader (number start) oldCount (number (start + st.offset)) newCount,
    {st with offset := st.offset + newCount - oldCount})

def Locating.locate (st : Locating) (rest : List Piece) : Except Stop (Text × Locating) :=
  match st.path with
  | none => .error (.refused .bareNoFile)
  | some path =>
    let body := rest.takeWhile fun p => !endsBare p
    match tree.exists? path with
    | .error reason => .error (.refused (.unreadable reason))
    | .ok false =>
      if body = [] ∨ ¬ body.all (starts ['+',' ']) then .error (.refused .bareNewFile)
      else .ok ("@@ -0,0 +1,".toList ++ number body.length ++ " @@".toList,{st with todo := body.length})
    | .ok true =>
      let old := oldText body
      match tree.read path with
      | .error (.refused reason) => .error (.refused (.unreadable reason))
      | .error .raised => .error .raised
      | .ok source => match cut old source with
        | some (before,after) =>
          if old = [] ∨ (cut old after).isSome then .error (.refused .bareMismatch)
          else .ok (st.numbered body (before.count '\n' + 1))
        | none => .error (.refused .bareMismatch)

/-- The loop of `repair_bare_hunks`. -/
def bareLoop (tree : Tree) (st : Locating) : List Piece → Except Stop (List Piece)
  | [] => .ok []
  | p :: rest => match st.enter (st.take p).text with
    | .error e => .error e
    | .ok entered =>
      if isBare (st.take p).text then
        match entered.locate tree rest with
        | .error e => .error e
        | .ok (header,located) => (bareLoop tree located rest).map (⟨header,true⟩ :: ·)
      else (bareLoop tree entered rest).map (st.take p :: ·)

def repairBareHunks (diff : Diff) : Except Stop Diff :=
  (bareLoop tree {} (diff.flatMap pieces)).map regroup

/-- How a reply ends: rejected, with or without a turn to repair it, by an exception that is
not caught, or with a diff for `git apply` and the files that will be reported. -/
inductive Outcome
  | rejected (e : PatchError)
  | outside (paths : List Text)
  | raised
  | handed (diff : Diff) (paths : List Text)
  deriving DecidableEq

def ending : Stop → Outcome
  | .refused e => .rejected e
  | .raised => .raised

def applyDiffReply (u : WorkUnit) (content : Text) : Outcome :=
  match extractDiff content with
  | .error e => .rejected e
  | .ok diff => match parsePatchPaths literalEval diff with
    | .error e => ending e
    | .ok paths =>
      if u.outOfBounds paths ≠ [] then .outside (u.outOfBounds paths)
      else match repairNewFileDiff literalEval tree diff with
        | .error e => ending e
        | .ok repaired => match repairBareHunks tree repaired with
          | .error e => ending e
          | .ok located => .handed located paths

end Verdict.Patch

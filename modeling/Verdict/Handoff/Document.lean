import Verdict.Basics.Dict
import Verdict.Basics.Regex
import Verdict.Basics.TextLines
import Verdict.Basics.UnifiedDiff
import Verdict.Patch.Extract

/-! # Handoff documents

`.verdict/handoff.md` names the story of a worktree and what was done and is left to do. It is
written as markdown with labelled scalars and titled lists and read back line by line.
-/
namespace Verdict.Handoff
open Path (isSpace strip)

abbrev Text := List Char

inductive Scalar
  | story
  | worker
  | worktree
  | branch
  | baseSha
  | currentSha
  | previousWorker
  | objective
  deriving DecidableEq

inductive Section
  | completed
  | currentlyWorkingOn
  | nextExactSteps
  | acceptanceCriteria
  | testsProof
  | filesChanged
  | contractsChanged
  | importantDecisions
  | knownFailures
  | dependenciesBlockers
  | doNot
  deriving DecidableEq

def HANDOFF_TITLE : Text := "# Verdict Handoff".toList

def SECTION_ALIASES : List (Text × Section) := [("completed".toList,.completed),
  ("currently working on".toList,.currentlyWorkingOn),
  ("next exact steps".toList,.nextExactSteps),
  ("acceptance criteria".toList,.acceptanceCriteria),
  ("tests/proof executed".toList,.testsProof),
  ("tests/proof".toList,.testsProof),
  ("files changed".toList,.filesChanged),
  ("contracts changed".toList,.contractsChanged),
  ("important decisions".toList,.importantDecisions),
  ("known failures".toList,.knownFailures),
  ("dependencies/blockers".toList,.dependenciesBlockers),
  ("dependencies".toList,.dependenciesBlockers),
  ("blockers".toList,.dependenciesBlockers),
  ("do not / warnings".toList,.doNot),
  ("do not".toList,.doNot),
  ("warnings".toList,.doNot)]

def SCALAR_ALIASES : List (Text × Scalar) := [("story".toList,.story), ("worker/harness".toList,.worker),
  ("worker".toList,.worker),
  ("harness".toList,.worker),
  ("worktree".toList,.worktree),
  ("branch".toList,.branch),
  ("base sha".toList,.baseSha),
  ("base_sha".toList,.baseSha),
  ("current sha".toList,.currentSha),
  ("current_sha".toList,.currentSha),
  ("head sha".toList,.currentSha),
  ("head_sha".toList,.currentSha),
  ("previous worker".toList,.previousWorker),
  ("previous_worker".toList,.previousWorker),
  ("objective".toList,.objective)]

structure HandoffDocument where
  scalar : Scalar → Text
  items : Section → List Text
  extraScalars : Dict Text Text := Dict.empty

def HandoffDocument.ofStory (story : Text) : HandoffDocument where
  scalar
    | .story => story
    | .previousWorker => "none".toList
    | _ => []
  items := fun _ => []

inductive HandoffError
  | empty
  | storyRequired
  deriving DecidableEq

def HandoffError.message : HandoffError → String
  | .empty => "handoff document is empty"
  | .storyRequired => "handoff requires Story: field"

/-! ### Reading -/

section
variable (lower : Text → Text)

def isParenthetical (t : Text) : Bool := match t.dropWhile isSpace with
  | '(' :: body => match body.dropWhile (· ≠ ')') with
    | ')' :: rest => rest.all isSpace
    | _ => false
  | _ => false

/-- `re.sub(r"\s*\([^)]*\)\s*$", "", header)`; a match goes to the end of the text. -/
def dropParenthetical : Text → Text
  | [] => []
  | c :: cs => if isParenthetical (c :: cs) then [] else c :: dropParenthetical cs

variable (stripped : Text)

def matchSectionHeader : Option Section :=
  if stripped.getLast? = some ':' then
    SECTION_ALIASES.lookup (lower (strip (dropParenthetical (strip stripped.dropLast))))
  else none

/-- `re.match(r"^\d+\.\s+(.*)$", stripped)` of a line: the text of its group. -/
def numbered : Option Text :=
  if stripped.takeWhile Patch.isDigit = [] then none
  else match stripped.dropWhile Patch.isDigit with
    | '.' :: c :: rest => if isSpace c then some (rest.dropWhile isSpace) else none
    | _ => none

def stripListMarker : Text :=
  if "- ".toList <+: stripped ∨ "* ".toList <+: stripped then strip (stripped.drop 2)
  else match numbered stripped with
    | some item => strip item
    | none => stripped

/-- `text.partition(":")` of a text with a colon, without the colon. -/
def partitionColon (t : Text) : Text × Text := (t.takeWhile (· ≠ ':'),(t.dropWhile (· ≠ ':')).tail)

structure Reading where
  scalars : Scalar → Option Text
  sections : Section → List Text
  current : Option Section

def Reading.start : Reading := ⟨fun _ => none,fun _ => [],none⟩

def Reading.take (r : Reading) (stripped : Text) : Reading := match matchSectionHeader lower stripped with
  | some key => {r with current := some key}
  | none => match r.current with
    | none =>
      if ':' ∈ stripped then
        match SCALAR_ALIASES.lookup (lower (strip (partitionColon stripped).1)) with
        | some name => {r with scalars := Function.update r.scalars name (some (strip (partitionColon stripped).2))}
        | none => r
      else r
    | some key =>
      if stripListMarker stripped = [] then r
      else {r with sections := Function.update r.sections key (r.sections key ++ [stripListMarker stripped])}

def Reading.read (r : Reading) (raw : Text) : Reading :=
  let stripped := strip raw
  if stripped = [] ∨ stripped = HANDOFF_TITLE ∨ "# ".toList <+: stripped then
    if "# ".toList <+: stripped ∧ stripped ≠ HANDOFF_TITLE then {r with current := none} else r
  else r.take lower stripped

/-- `len(key.split())`. -/
def wordCount : Text → ℕ
  | [] => 0
  | c :: cs => if isSpace c = false ∧ cs.head?.all isSpace then wordCount cs + 1 else wordCount cs

local instance keyLawful : LawfulBEq (List Char) := inferInstance

def readExtra (extra : Dict Text Text) (raw : Text) : Dict Text Text :=
  let stripped := strip raw
  let key := (partitionColon stripped).1
  let value := strip (partitionColon stripped).2
  if stripped = [] ∨ stripped.head? = some '#' ∨ stripped.getLast? = some ':' then extra
  else if ':' ∉ stripped then extra
  else if lower (strip key) ∈ SCALAR_ALIASES.map (·.1) ∨ (matchSectionHeader lower stripped).isSome then extra
  else if lower (strip key) ∈ SECTION_ALIASES.map (fun e => lower e.1) then extra
  else if stripped.head? = some '-' ∨ stripped.head? = some '*' ∨ stripped.head? = some '[' then extra
  else if wordCount key ≤ 4 ∧ value ≠ [] ∧ lower (strip key) ∉ SCALAR_ALIASES.map (fun e => lower e.1) then
    extra.set (strip key) value
  else extra

/-- `parse_handoff`. Cutting `\r\n` twice only adds a blank line, which is skipped. -/
def parseHandoff (text : Text) : Except HandoffError HandoffDocument :=
  if strip text = [] then .error .empty
  else
    let r := (TextLines.splitlines text).foldl (Reading.read lower) Reading.start
    let story := strip ((r.scalars .story).getD [])
    if story = [] then .error .storyRequired
    else .ok {
      scalar := fun
        | .story => story
        | .previousWorker =>
          let worker := (r.scalars .previousWorker).getD "none".toList
          if worker = [] then "none".toList else worker
        | name => (r.scalars name).getD []
      items := r.sections
      extraScalars := (TextLines.splitlines text).foldl (readExtra lower) Dict.empty }

end

/-! ### Writing -/

def Scalar.label : Scalar → Text
  | .story => "Story".toList
  | .worker => "Worker/harness".toList
  | .worktree => "Worktree".toList
  | .branch => "Branch".toList
  | .baseSha => "Base SHA".toList
  | .currentSha => "Current SHA".toList
  | .previousWorker => "Previous worker".toList
  | .objective => "Objective".toList

def Section.title : Section → Text
  | .completed => "Completed".toList
  | .currentlyWorkingOn => "Currently working on".toList
  | .nextExactSteps => "Next exact steps".toList
  | .acceptanceCriteria => "Acceptance criteria".toList
  | .testsProof => "Tests/proof executed".toList
  | .filesChanged => "Files changed".toList
  | .contractsChanged => "Contracts changed".toList
  | .importantDecisions => "Important decisions".toList
  | .knownFailures => "Known failures".toList
  | .dependenciesBlockers => "Dependencies/blockers".toList
  | .doNot => "Do not / warnings".toList

def scalarNames : List Scalar :=
  [.story,.worker,.worktree,.branch,.baseSha,.currentSha,.previousWorker,.objective]

def sectionNames : List Section :=
  [.completed,.currentlyWorkingOn,.nextExactSteps,.acceptanceCriteria,.testsProof,.filesChanged,.contractsChanged,
    .importantDecisions,.knownFailures,.dependenciesBlockers,.doNot]

variable (d : HandoffDocument)

def HandoffDocument.shown : Scalar → Text
  | .previousWorker => if d.scalar .previousWorker = [] then "none".toList else d.scalar .previousWorker
  | name => d.scalar name

def scalarLine (label value : Text) : Text := label ++ ':' :: ' ' :: value

def bullet (item : Text) : Text := '-' :: ' ' :: item

def numberedItem (item : Text) (idx : ℕ) : Text := UnifiedDiff.decimal idx ++ '.' :: ' ' :: item

def itemLines (numbered : Bool) (items : List Text) : List Text :=
  if items = [] then ["- (none)".toList]
  else if numbered then (items.zipIdx 1).map fun e => numberedItem e.1 e.2
  else items.map bullet

def appendSection (title : Text) (items : List Text) (numbered : Bool) : List Text :=
  (title ++ [':']) :: (itemLines numbered items ++ [[]])

def HandoffDocument.lines : List Text :=
  [HANDOFF_TITLE,[]] ++ scalarNames.map (fun n => scalarLine n.label (d.shown n)) ++ [[]] ++
    sectionNames.flatMap fun s => appendSection s.title (d.items s) (decide (s = .nextExactSteps))

def rstrip (t : Text) : Text := (t.reverse.dropWhile isSpace).reverse

def renderHandoff : Text := rstrip (['\n'].intercalate d.lines) ++ ['\n']

/-! ### The stories of a document -/

structure Letters where
  isWord : Char → Bool
  upper : Text → Text

/-- `[A-Z]` without regard to case. -/
def isLetter (c : Char) : Bool :=
  ('A' ≤ c ∧ c ≤ 'Z') ∨ ('a' ≤ c ∧ c ≤ 'z') ∨ c.toNat = 0x130 ∨ c.toNat = 0x131 ∨ c.toNat = 0x17F ∨ c.toNat = 0x212A

open Regex in
/-- `\b([A-Z]{2,10}-\d+)\b`. -/
def storyId (o : Letters) : List Pattern :=
  [border o.isWord,
    seqs ([.one isLetter,.one isLetter] ++ List.replicate 8 (maybe (.one isLetter)) ++ [.one (· = '-'),some₁ (.one Patch.isDigit)]),
    border o.isWord]

def HandoffDocument.primaryStoryIds (o : Letters) (d : HandoffDocument) : List Text :=
  ((Regex.findall (storyId o) (d.scalar .story)).filterMap fun groups => (groups.drop 1).head?.map o.upper).eraseDups

end Verdict.Handoff

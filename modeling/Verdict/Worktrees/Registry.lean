import Verdict.Handoff.Document

/-! # The registry of story worktrees

One story has one worktree. A worktree belongs to a story by the names of its path and branch or
by the handoff document in it, and a story that has one is attached to it again.
-/
namespace Verdict.Worktrees
open Handoff (Text HandoffDocument HandoffError Letters)
open Path (strip)

/-- One entry of `git worktree list`. -/
structure WorktreeEntry where
  (path headSha : Text)
  branch : Option Text
  dirty : Bool := false
  deriving DecidableEq

structure StoryWorktreeBinding where
  (storyId path : Text)
  branch : Option Text
  headSha : Text
  baseSha : Text := []
  dirty : Bool := false
  reattached : Bool := false
  handoffPresent : Bool := false
  deriving DecidableEq

inductive WorktreeRegistryError
  | invalidStoryId (raw : Text)
  | duplicateWorktree (sid path : Text)
  | pathExists (dest : Text)
  | handoff (e : HandoffError)
  | git
  deriving DecidableEq

/-- What the registry reads outside of itself: the worktrees that are listed, the handoff files in them, paths and git. -/
structure World where
  letters : Letters
  lower : Text → Text
  repo : Text
  resolve : Text → Text
  worktrees : List WorktreeEntry
  handoffText : Text → Option Text
  pathExists : Text → Bool
  revParse : Text → Option Text
  worktreeAdd : Text → Text → Text → Option Text

def isAsciiLetter (c : Char) : Bool := ('A' ≤ c ∧ c ≤ 'Z') ∨ ('a' ≤ c ∧ c ≤ 'z')

/-- `^([A-Za-z]{2,10})-(\d+)$` on a stripped text, the letters in capitals. -/
def normalizeStoryId (raw : Text) : Except WorktreeRegistryError Text :=
  let text := strip raw
  let letters := text.takeWhile isAsciiLetter
  match text.dropWhile isAsciiLetter with
  | '-' :: digits =>
    if 2 ≤ letters.length ∧ letters.length ≤ 10 ∧ digits ≠ [] ∧ digits.all Patch.isDigit then
      .ok (letters.map Char.toUpper ++ '-' :: digits)
    else .error (.invalidStoryId raw)
  | _ => .error (.invalidStoryId raw)

def splitRuns (keep : Char → Bool) : Text → List Text
  | [] => [[]]
  | c :: cs =>
    if keep c then match splitRuns keep cs with
      | [] => [[c]]
      | piece :: pieces => (c :: piece) :: pieces
    else if cs.head?.any (fun next => !keep next) then splitRuns keep cs
    else [] :: splitRuns keep cs

/-- `[a-z0-9]`. -/
def isPartChar (c : Char) : Bool := ('a' ≤ c ∧ c ≤ 'z') ∨ ('0' ≤ c ∧ c ≤ '9')

def dehyphened (t : Text) : Text := t.filter (· ≠ '-')

namespace World
variable (w : World)

def branchText (entry : WorktreeEntry) : Text := entry.branch.getD []

def discoverHandoff (path : Text) : Except WorktreeRegistryError (Option HandoffDocument) := match w.handoffText path with
  | none => .ok none
  | some text => match Handoff.parseHandoff w.lower text with
    | .ok d => .ok (some d)
    | .error e => .error (.handoff e)

def namedFor (token : Text) (entry : WorktreeEntry) : Bool :=
  let path := w.lower entry.path
  let branch := w.lower (branchText entry)
  if [path,branch].any (fun h => decide (token <:+: h) || decide (dehyphened token <:+: dehyphened h)) then
    let parts := splitRuns isPartChar (path ++ ' ' :: branch)
    decide (token <:+: path) || decide (token <:+: branch) || parts.contains token ||
      parts.any fun part => decide (token ++ ['-'] <+: part) || decide (part = token)
  else false

local instance storyLawful : LawfulBEq (List Char) := inferInstance

variable (storyId : Text)

def storyMatchesEntry (entry : WorktreeEntry) : Except WorktreeRegistryError Bool := do
  let sid ← normalizeStoryId storyId
  if w.namedFor (w.lower sid) entry then return true
  let handoff ← w.discoverHandoff entry.path
  return handoff.any fun d => decide (sid ∈ d.primaryStoryIds w.letters)

variable (sid : Text)

def rank (entry : WorktreeEntry) : Except WorktreeRegistryError (ℕ × Text) := do
  let handoff ← w.discoverHandoff entry.path
  let exact := if handoff.any (fun d => decide (sid ∈ d.primaryStoryIds w.letters)) then 0 else 1
  let isMain := if w.resolve entry.path = w.repo then '1' else '0'
  return (exact,isMain :: entry.path)

def rankLe (a b : ℕ × Text) : Bool := decide (a.1 < b.1) || (decide (a.1 = b.1) && decide (a.2 ≤ b.2))

def matching : Except WorktreeRegistryError (List WorktreeEntry) := do
  let looked ← w.worktrees.mapM fun entry => do
    let isMatch ← w.storyMatchesEntry sid entry
    return (isMatch,entry)
  return (looked.filter Prod.fst).map Prod.snd

def chosenWorktree : Except WorktreeRegistryError (Option WorktreeEntry) := do
  let found ← w.matching sid
  let ranked ← found.mapM fun entry => do
    let key ← w.rank sid entry
    return (key,entry)
  return ((ranked.mergeSort fun a b => rankLe a.1 b.1).head?).map Prod.snd

def bindingOf (entry : WorktreeEntry) : Except WorktreeRegistryError StoryWorktreeBinding := do
  let handoff ← w.discoverHandoff entry.path
  return {
    storyId := sid
    path := w.resolve entry.path
    branch := entry.branch
    headSha := entry.headSha
    baseSha := (handoff.map fun d => d.scalar .baseSha).getD []
    dirty := entry.dirty
    handoffPresent := handoff.isSome }

def findStoryWorktree : Except WorktreeRegistryError (Option StoryWorktreeBinding) := do
  let sid ← normalizeStoryId storyId
  match ← w.chosenWorktree sid with
  | none => return none
  | some chosen =>
    let binding ← w.bindingOf sid chosen
    return some binding

def findAllStoryBindings : Except WorktreeRegistryError (List StoryWorktreeBinding) := do
  let sid ← normalizeStoryId storyId
  let found ← w.matching sid
  found.mapM (w.bindingOf sid)

def createStoryWorktree (storyId path branch baseRef : Text) : Except WorktreeRegistryError StoryWorktreeBinding := do
  let sid ← normalizeStoryId storyId
  match ← w.findAllStoryBindings sid with
  | first :: _ => throw (.duplicateWorktree sid first.path)
  | [] =>
    if w.pathExists path then throw (.pathExists path)
    match w.revParse baseRef with
    | none => throw .git
    | some baseSha => match w.worktreeAdd branch path baseRef with
      | none => throw .git
      | some headSha => return {
          storyId := sid
          path := w.resolve path
          branch := some branch
          headSha := headSha
          baseSha := baseSha }

def ensureStoryWorktree (storyId desiredPath desiredBranch baseRef : Text) : Except WorktreeRegistryError StoryWorktreeBinding := do
  let sid ← normalizeStoryId storyId
  match ← w.findStoryWorktree sid with
  | none => w.createStoryWorktree sid desiredPath desiredBranch baseRef
  | some found =>
    if found.baseSha ≠ [] then return {found with reattached := true}
    match w.revParse baseRef with
    | none => throw .git
    | some baseSha => return {found with baseSha, reattached := true}

end World
end Verdict.Worktrees

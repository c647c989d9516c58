import Mathlib.Data.List.Sort
import Verdict.Basics.FileTree
import Verdict.Contracts.Path

/-! # Salvage and restore of partial work

`salvage_owned_files` copies what a failed attempt changed in its worktree into a salvage
directory, and `restore_salvaged_files` copies it into the worktree of the next attempt. A file is
copied if it lies under an owned entry, behind no link, within the size limits, and shows no
credential. Paths are texts; on disk a path is the list of its components.
-/
namespace Verdict.Salvage
open FileTree Path

abbrev Text := List Char

def maxFileBytes : Nat := 1048576

def maxTotalBytes : Nat := 4194304

def maxEvidencePaths : Nat := 50

/-- What the functions take from outside: decoding with replacement, `redact_text`, the digest, and
where a path through a link ends up. -/
structure Env where
  decode : List UInt8 → Text
  redactText : Text → Text
  sha256 : List UInt8 → Text
  within : List Text → Bool

/-- `str.rstrip("/")`. -/
def rstripSlash (text : Text) : Text := (text.reverse.dropWhile (· = '/')).reverse

def safeRelativePath (relative : Text) : Option Text :=
  if relative = [] ∨ '\x00' ∈ relative then none
  else
    let stripped := rstripSlash relative
    if stripped = [] ∨ isAbsolute stripped then none
    else if (stripped.splitOn '/').any (fun part => part = [] ∨ part = ['.'] ∨ part = ['.','.']) then none
    else some (join (parts stripped))

def safeOwnedSet (ownedFiles : List Text) : List Text := ownedFiles.filterMap safeRelativePath

local instance relativeLawful : LawfulBEq (List Char) := inferInstance

/-- The path itself or a directory above it is an owned entry. -/
def isOwned (relative : Text) (ownedFiles : List Text) : Bool := match safeRelativePath relative with
  | none => false
  | some safe =>
    let pieces := safe.splitOn '/'
    safe ∈ ownedFiles ∨
      (List.range' 1 (pieces.length - 1)).any fun i => ['/'].intercalate (pieces.take i) ∈ ownedFiles

/-- What stands at the path of a salvage directory or a worktree; something else may be a link to a
directory. -/
inductive Place
  | absent
  | dangling
  | other (toDir : Bool)
  | dir (tree : FileTree)

/-- `Path.exists`, which follows links. -/
def Place.present : Place → Bool
  | .absent => false
  | .dangling => false
  | .other _ => true
  | .dir _ => true

def troubleName : Trouble → Text
  | .missing => "FileNotFoundError".toList
  | .notDirectory => "NotADirectoryError".toList
  | .isDirectory => "IsADirectoryError".toList
  | .exists => "FileExistsError".toList
  | .denied => "PermissionError".toList
  | .loop => "OSError".toList
  | .refused => "OSError".toList
  | .elsewhere => "behind a link".toList

section
variable (env : Env) (tree : FileTree)
variable (path : List Text)

/-- `_regular_file_size_no_follow`. -/
def regularFileSize : Option Nat := match tree.lstat path with
  | .ok (.file content _) => some content.length
  | _ => none

/-- A path through no link resolves to itself. -/
def resolvedWithin (strict : Bool) : Bool := match tree.lstat path with
  | .ok (.link _) => env.within path
  | .ok _ => true
  | .error .elsewhere => env.within path
  | .error _ => !strict

/-- `_has_symlink_component` of a path below another one. -/
def hasSymlinkComponent (current : List Text) : List Text → Bool
  | [] => false
  | part :: rest => match tree.lstat (current ++ [part]) with
    | .error .missing => hasSymlinkComponent (current ++ [part]) rest
    | .error _ => true
    | .ok (.link _) => true
    | .ok _ => hasSymlinkComponent (current ++ [part]) rest

/-- The loop of `_ensure_safe_parent`; directories made on the way stay. -/
def ensureDirs (tree : FileTree) (current : List Text) : List Text → Bool × FileTree
  | [] => (true,tree)
  | part :: rest => match tree.lstat (current ++ [part]) with
    | .error .missing => match tree.mkdir (current ++ [part]) with
      | .error _ => (false,tree)
      -- a directory just made passes the checks below
      | .ok tree => ensureDirs tree (current ++ [part]) rest
    | .ok .dir =>
      if resolvedWithin env tree (current ++ [part]) true then ensureDirs tree (current ++ [part]) rest else (false,tree)
    | _ => (false,tree)

def ensureSafeParent : Bool × FileTree :=
  if !resolvedWithin env tree path false then (false,tree)
  else if hasSymlinkComponent tree [] path then (false,tree)
  else ensureDirs env tree [] path.dropLast

/-- Open a file without following a link, and read it if it is a regular one of at most the limit. -/
def readNoFollow : Except Trouble (List UInt8) := match tree.lstat path with
  | .ok (.file _ false) => .error .denied
  | .ok (.file content true) => if content.length > maxFileBytes then .error .refused else .ok content
  | .ok (.link _) => .error .loop
  | .ok _ => .error .refused
  | .error trouble => .error trouble

def hasCredentialContent : Bool := match readNoFollow tree path with
  | .error _ => true
  | .ok content =>
    let raw := env.decode content
    env.redactText raw ≠ raw

/-- `_copy_regular_no_follow`; what could be read can be read in a new copy. -/
def copyRegular (target : FileTree) (path : List Text) : Except Trouble FileTree := do
  let content ← readNoFollow tree path
  target.write path content true

end

section
variable (tree : FileTree) (root : List Text)

/-- `os.walk` lists a link to a directory among the directories. -/
def listedAsDir (path : List Text) : Bool := match tree.get? path with
  | some .dir => true
  | some (.link toDir) => toDir
  | _ => false

/-- The order of a walk below `root`: the directories of a directory, its files, then what lies in its
directories. -/
def walkOrder (current : List Text) : List Text → List Text → Bool
  | [], _ => true
  | _, [] => false
  | [x], [y] =>
    if listedAsDir tree (current ++ [x]) = listedAsDir tree (current ++ [y]) then decide (x ≤ y)
    else listedAsDir tree (current ++ [x])
  | [_], _ => true
  | _, [_] => false
  | x :: xs, y :: ys => if x = y then walkOrder (current ++ [x]) xs ys else decide (x ≤ y)

/-- What `os.walk(root, followlinks=False)` comes to, as paths below the root. -/
def walk : List (List Text) :=
  ((tree.entries.keys.filter fun path => decide (root <+: path ∧ path ≠ root)).map
    (·.drop root.length)).mergeSort (walkOrder tree root)

/-- The verdict of the walk on one entry: a candidate, skipped, or a directory to descend into. -/
inductive Visit
  | candidate (relative : Text)
  | skipped (relative : Text)
  | descended

def visit (below : List Text) : Visit :=
  let relative := join below
  match safeRelativePath relative with
  | none => .skipped relative
  | some safe =>
    if hasSymlinkComponent tree root (parts safe) then .skipped relative
    else match tree.lstat (root ++ parts safe) with
      | .ok .dir => .descended
      | .ok (.file _ _) => .candidate safe
      | _ => .skipped relative

def Visit.candidate? : Visit → Option Text
  | .candidate relative => some relative
  | _ => none

def Visit.skipped? : Visit → Option Text
  | .skipped relative => some relative
  | _ => none

/-- The candidates and the skipped paths. A walk comes to each path once. -/
def iterRegularRelativeFiles : List Text × List Text :=
  ((walk tree root).filterMap fun below => (visit tree root below).candidate?,
    (walk tree root).filterMap fun below => (visit tree root below).skipped?)

end

/-! ## Salvage -/

structure FileEvidence where
  path : Text
  bytes : Nat
  sha256 : Text

structure SalvageResult where
  saved : List Text := []
  skipped : List Text := []
  totalBytes : Nat := 0
  error : Text := []
  files : List FileEvidence := []
  evidenceTruncated : Bool := false

abbrev Collected := List Text × List Text

variable (acc : Collected)

def Collected.add (relative : Text) : Collected :=
  if relative ∈ acc.1 then acc else (acc.1 ++ [relative],acc.2)

def Collected.skip (relative : Text) : Collected := (acc.1,acc.2 ++ [relative])

def addChanged (changed : Text) : Collected := match safeRelativePath changed with
  | none => acc.skip changed
  | some relative => acc.add relative

def changedCandidates (changedFiles : List Text) : Collected := changedFiles.foldl addChanged ([],[])

def addOwned (env : Env) (worktree : FileTree) (acc : Collected) (owned : Text) : Collected :=
  match safeRelativePath owned with
  | none => acc.skip owned
  | some relative =>
    let full := parts relative
    if hasSymlinkComponent worktree [] full || !resolvedWithin env worktree full false then acc.skip relative
    else match worktree.lstat full with
      | .ok (.file _ _) => acc.add relative
      | .ok .dir =>
        let (children,skippedChildren) := iterRegularRelativeFiles worktree full
        children.foldl (fun acc child => acc.add (relative ++ '/' :: child))
          (skippedChildren.foldl (fun acc child => acc.skip (relative ++ '/' :: child)) acc)
      | _ => acc

def ownedCandidates (env : Env) (worktree : FileTree) (ownedFiles : List Text) : Collected :=
  ownedFiles.foldl (addOwned env worktree) ([],[])

/-- Where the loop of `salvage_owned_files` stands; `target` is the salvage directory. -/
structure Progress where
  target : FileTree
  saved : List Text := []
  skipped : List Text
  totalBytes : Nat := 0
  files : List FileEvidence := []

def Progress.skip (p : Progress) (relative : Text) : Progress := {p with skipped := p.skipped ++ [relative]}

def saveOne (env : Env) (worktree : FileTree) (owned : List Text) (p : Progress) (relPath : Text) :
    Except Trouble Progress :=
  let src := parts relPath
  if !isOwned relPath owned then .ok (p.skip relPath)
  else if hasSymlinkComponent worktree [] src || !resolvedWithin env worktree src true then .ok (p.skip relPath)
  else match regularFileSize worktree src with
    | none => .ok (if (worktree.get? src).isSome then p.skip relPath else p)
    | some size =>
      if size > maxFileBytes then .ok (p.skip relPath)
      else if p.totalBytes + size > maxTotalBytes then .ok (p.skip relPath)
      else if hasCredentialContent env worktree src then .ok (p.skip relPath)
      else match ensureSafeParent env p.target src with
        | (false,target) => .ok ({p with target}.skip relPath)
        | (true,target) => do
          let content ← readNoFollow worktree src
          let target ← copyRegular worktree target src
          .ok { p with
            target
            saved := p.saved ++ [relPath]
            totalBytes := p.totalBytes + size
            files := if p.files.length < maxEvidencePaths then p.files ++ [⟨relPath,size,env.sha256 content⟩] else p.files }

/-- The end of `salvage_owned_files`, with the candidates it collected. -/
def salvageCandidates (env : Env) (worktree : FileTree) (owned : List Text) (candidates skipped : List Text) :
    Place → SalvageResult × Place
  -- `mkdir` of a salvage directory that is there in some other form
  | .dangling => ({error := troubleName .exists},.dangling)
  | .other false => ({error := troubleName .exists},.other false)
  | .other true => ({skipped, error := "unsafe_salvage_dir".toList},.other true)
  | .absent => run .empty
  | .dir tree => run tree
where
  run (target : FileTree) : SalvageResult × Place :=
    match candidates.foldlM (saveOne env worktree owned) {target, skipped} with
    -- after an exception the directory is removed
    | .error trouble => ({error := troubleName trouble},.absent)
    | .ok p =>
      ({ saved := p.saved, skipped := p.skipped, totalBytes := p.totalBytes, files := p.files,
         evidenceTruncated := p.saved.length > p.files.length },
        if p.saved = [] then .absent else .dir p.target)

/-- `_clear_existing_salvage_dir`. -/
def clearExisting : Place → Text × Place
  | .absent => ([],.absent)
  | .dangling => ([],.dangling)
  | .other toDir => ("unsafe_salvage_dir".toList,.other toDir)
  | .dir _ => ([],.absent)

/-- The result, and what is at the salvage directory's path afterwards. -/
def salvageOwnedFiles (env : Env) (worktree : Place) (ownedFiles : List Text) (salvageDir : Place)
    (changedFiles : Option (List Text)) (replaceExisting : Bool) : SalvageResult × Place := match worktree with
  | .dir worktree =>
    let owned := safeOwnedSet ownedFiles
    let (clearError,salvageDir) := if replaceExisting then clearExisting salvageDir else ([],salvageDir)
    if clearError ≠ [] then
      ({skipped := (iterRegularRelativeFiles worktree []).1.filter (isOwned · owned), error := clearError},salvageDir)
    else
      let (candidates,skipped) := match changedFiles with
        | some changed => changedCandidates changed
        | none => ownedCandidates env worktree ownedFiles
      if candidates = [] then ({skipped},salvageDir)
      else salvageCandidates env worktree owned candidates skipped salvageDir
  | _ => ({error := "unsafe_worktree".toList},salvageDir)

/-! ## Restore -/

structure RestoreResult where
  restored : List Text := []
  skipped : List Text := []
  totalBytes : Nat := 0
  error : Text := []

/-- Where the loop of `restore_salvaged_files` stands; `target` is the worktree. -/
structure Restoring where
  target : FileTree
  restored : List Text := []
  skipped : List Text
  totalBytes : Nat := 0

def Restoring.skip (p : Restoring) (relative : Text) : Restoring := {p with skipped := p.skipped ++ [relative]}

def restoreOne (env : Env) (salvage : FileTree) (owned : List Text) (p : Restoring) (relPath : Text) :
    Except (Trouble × FileTree) Restoring :=
  let src := parts relPath
  if !isOwned relPath owned then .ok (p.skip relPath)
  else if hasSymlinkComponent salvage [] src || !resolvedWithin env salvage src true then .ok (p.skip relPath)
  else match regularFileSize salvage src with
    | none => .ok (p.skip relPath)
    | some size =>
      if size > maxFileBytes then .ok (p.skip relPath)
      else if p.totalBytes + size > maxTotalBytes then .ok (p.skip relPath)
      else if hasCredentialContent env salvage src then .ok (p.skip relPath)
      else match ensureSafeParent env p.target src with
        | (false,target) => .ok ({p with target}.skip relPath)
        | (true,target) => match copyRegular salvage target src with
          | .error trouble => .error (trouble,target)
          | .ok target => .ok {p with target, restored := p.restored ++ [relPath], totalBytes := p.totalBytes + size}

/-- The result, and the worktree afterwards. -/
def restoreSalvagedFiles (env : Env) (salvageDir worktree : Place) (ownedFiles : List Text) :
    RestoreResult × Place :=
  if !salvageDir.present then ({},worktree)
  else match salvageDir, worktree with
    | .dir salvage, .dir target =>
      let (candidates,rejected) := iterRegularRelativeFiles salvage []
      match candidates.foldlM (restoreOne env salvage (safeOwnedSet ownedFiles)) {target, skipped := rejected} with
      | .error (trouble,target) => ({error := troubleName trouble},.dir target)
      | .ok p => ({restored := p.restored, skipped := p.skipped, totalBytes := p.totalBytes},.dir p.target)
    | _, _ => ({error := "unsafe_restore_root".toList},worktree)

end Verdict.Salvage

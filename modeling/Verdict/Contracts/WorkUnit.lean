import Mathlib.Data.Char
import Mathlib.Data.List.Dedup
import Mathlib.Data.List.Lex
import Mathlib.Data.List.Sort
import Verdict.Contracts.Path

/-! # The files of a work unit

`normalize_owned_path` and the boundary of a `WorkUnit`: unlike `_norm_path` it refuses
backslashes and paths that name no file, and a unit owns files, not directories. Names are
lists of characters, as the readers of a patch take them.
-/
namespace Verdict.WorkUnit
open Path

inductive WorkUnitError
  | empty
  | backslash (raw : List Char)
  | absolute (raw : List Char)
  | nameless (raw : List Char)
  | escapes (raw : List Char)
  | blank
  | noFiles
  | duplicates (paths : List (List Char))
  deriving DecidableEq

/-- The text of an error; `repr` is Python's. -/
def WorkUnitError.message (repr : List Char → String) (reprs : List (List Char) → String) : WorkUnitError → String
  | .empty => "owned_files entries must be non-empty strings"
  | .backslash raw => "owned_files entry must use POSIX separators: " ++ repr raw
  | .absolute raw => "owned_files entry must be repo-relative: " ++ repr raw
  | .nameless raw => "owned_files entry does not name a file: " ++ repr raw
  | .escapes raw => "owned_files entry must not escape the repo: " ++ repr raw
  | .blank => "owned_files must contain non-empty strings"
  | .noFiles => "owned_files must name at least one path"
  | .duplicates paths => "owned_files contains duplicate path(s): " ++ reprs paths

local instance ownedLawful : LawfulBEq (List Char) := inferInstance

def normalizeOwnedPath (path : List Char) : Except WorkUnitError (List Char) :=
  let raw := strip path
  if raw = [] then .error .empty
  else if '\\' ∈ raw then .error (.backslash raw)
  else if isAbsolute raw then .error (.absolute raw)
  else if parts raw = [] then .error (.nameless raw)
  else if ['.','.'] ∈ parts raw then .error (.escapes raw)
  else .ok (join (parts raw))

def sorted (paths : List (List Char)) : List (List Char) := paths.dedup.insertionSort fun p q => p ≤ q

/-- What `__post_init__` makes of `owned_files`. -/
def ownedOf (owned : List (List Char)) : Except WorkUnitError (List (List Char)) :=
  if owned.any (fun path => strip path = []) then .error .blank
  else if owned = [] then .error .noFiles
  else match (owned.map strip).mapM normalizeOwnedPath with
    | .error e => .error e
    | .ok normalized =>
      let duplicates := sorted (normalized.filter fun path => decide (1 < normalized.count path))
      if duplicates = [] then .ok normalized else .error (.duplicates duplicates)

end WorkUnit

structure WorkUnit where
  unitId : String
  ownedFiles : List (List Char)
  built : ∃ owned, WorkUnit.ownedOf owned = .ok ownedFiles

namespace WorkUnit
open Path

attribute [local instance] ownedLawful

variable (u : WorkUnit)

def owns (path : List Char) : Bool := match normalizeOwnedPath path with
  | .ok candidate => decide (candidate ∈ u.ownedFiles)
  | .error _ => false

def outOfBounds (paths : List (List Char)) : List (List Char) := sorted (paths.filter fun path => !u.owns path)

variable {paths : List (List Char)} {p : List Char}

theorem mem_sorted : p ∈ sorted paths ↔ p ∈ paths := by
  rw [sorted,List.mem_insertionSort,List.mem_dedup]

theorem outOfBounds_nil {u : WorkUnit} : u.outOfBounds paths = [] ↔ ∀ p ∈ paths, u.owns p = true := by
  constructor
  · intro h p hp
    by_contra hno
    have hmem : p ∈ u.outOfBounds paths := mem_sorted.mpr (List.mem_filter.mpr ⟨hp,by simpa using hno⟩)
    rw [h] at hmem
    exact List.not_mem_nil hmem
  · intro h
    refine List.eq_nil_iff_forall_not_mem.mpr fun p hp => ?_
    obtain ⟨hmem,hno⟩ := List.mem_filter.mp (mem_sorted.mp hp)
    rw [h p hmem] at hno
    exact absurd hno (by decide)

def Owned (name : List Char) : Prop := isAbsolute name = false ∧ join (parts name) ∈ u.ownedFiles

instance (u : WorkUnit) (name : List Char) : Decidable (u.Owned name) := inferInstanceAs (Decidable (_ ∧ _))

theorem normalizeOwnedPath_ok {path : List Char} (h : normalizeOwnedPath path = .ok p) :
    isAbsolute (strip path) = false ∧ p = join (parts (strip path)) := by
  simp only [normalizeOwnedPath] at h
  repeat' split at h
  all_goals first | cases h; done | skip
  rename_i habs _ _
  exact ⟨by simpa using habs,(Except.ok.inj h).symm⟩

end WorkUnit
end Verdict

import Verdict.Basics.Dict
import Verdict.Basics.Occurrence
import Verdict.Basics.Raising
import Verdict.Basics.Run
import Verdict.Patch.Repair

/-! # Search and replace blocks

`apply_search_replace_blocks` edits copies of the files that its blocks name. A block is to
match exactly once, which is tested with a count that goes on behind each match it finds.
-/
namespace Verdict.Patch
open GitPatch Path
open Occurrence (At Unique Knotted count replaceFirst)

structure Block where
  (path search replacement : Text)

/-- The loop of `apply_search_replace_blocks`: the edited copies, the numbers of the blocks that
matched without their last line feed, and the number of the next block. -/
structure Editing where
  files : Dict Text Text := .empty
  newlineTrimmed : List ℕ := []
  number : ℕ := 1

inductive EditError
  | unread (e : ReadError)
  /-- `search/replace block {number} for {path} matches {count} times`. -/
  | matchesTimes (number : ℕ) (path : Text) (count : ℕ)

def minTrimmedSearchChars : ℕ := 16

/-- The checks of `_newline_trimmed_block` on the block alone. -/
def trimmable (search replacement : Text) : Option (Text × Text) :=
  if search.getLast? = some '\n' ∧ replacement.getLast? = some '\n' ∧ '\n' ∉ search.dropLast ∧ '\n' ∉ replacement.dropLast ∧
      minTrimmedSearchChars ≤ (search.dropLast.filter fun c => !isSpace c).length then
    some (search.dropLast,replacement.dropLast)
  else none

def newlineTrimmedBlock (text search replacement : Text) : Option (Text × Text) :=
  (trimmable search replacement).filter fun trimmed => count trimmed.1 text = 1

section
variable (read : Text → Except ReadError Text)

def Editing.content (st : Editing) (path : Text) : Except ReadError Text := match st.files.get? path with
  | some text => .ok text
  | none => read path

/-- `files[path].count(search) if search else 0`. -/
def Block.found (b : Block) (text : Text) : ℕ := if b.search = [] then 0 else count b.search text

def applyBlock (st : Editing) (b : Block) : Except EditError Editing :=
  match st.content read b.path with
  | .error e => .error (.unread e)
  | .ok text =>
    match if b.found text = 0 then newlineTrimmedBlock text b.search b.replacement else none with
    | some (search,replacement) => .ok {
        files := st.files.set b.path (replaceFirst search replacement text)
        newlineTrimmed := st.newlineTrimmed ++ [st.number]
        number := st.number + 1 }
    | none =>
      if b.found text ≠ 1 then .error (.matchesTimes st.number b.path (b.found text))
      else .ok {st with
        files := st.files.set b.path (replaceFirst b.search b.replacement text)
        number := st.number + 1 }

/-- `apply_search_replace_blocks`. What it reads of the repository it only copies. -/
def applyBlocks : Editing → List Block → Except EditError Editing
  | st, [] => .ok st
  | st, b :: rest => match applyBlock read st b with
    | .error e => .error e
    | .ok st' => applyBlocks st' rest

def applySearchReplaceBlocks (blocks : List Block) : Except EditError (Dict Text Text × List ℕ) :=
  (applyBlocks read {} blocks).map fun st => (st.files,st.newlineTrimmed)

end

/-! ### What the blocks are to do -/

/-- The text that a block is matched by in a file: its search text, or the trimmed form where the
search text does not occur. -/
inductive Form (text : Text) (b : Block) : Text → Text → Prop
  | whole (i : ℕ) : b.search ≠ [] → At b.search text i → Form text b b.search b.replacement
  | trimmed (search replacement : Text) : (b.search ≠ [] → ∀ i, ¬ At b.search text i) →
      trimmable b.search b.replacement = some (search,replacement) → Form text b search replacement

/-- The block's text occurs at exactly one position, and that occurrence is replaced. -/
def EditsOnce (text : Text) (b : Block) (result : Text) : Prop :=
  ∃ search replacement i, Form text b search replacement ∧ At search text i ∧ (∀ k, At search text k → k = i) ∧
    result = text.take i ++ replacement ++ text.drop (i + search.length)

section
variable (read : Text → Except ReadError Text)

/-- Every block edits the then-current content of its file once. -/
inductive Edits : Dict Text Text → List Block → Dict Text Text → Prop
  | done (files : Dict Text Text) : Edits files [] files
  | block {files files' : Dict Text Text} {b : Block} {rest : List Block} {text result : Text} :
      Editing.content read {files := files} b.path = .ok text → EditsOnce text b result →
      Edits (files.set b.path result) rest files' → Edits files (b :: rest) files'

def Unambiguous (blocks : List Block) : Prop :=
  ∀ files trimmed, applySearchReplaceBlocks read blocks = .ok (files,trimmed) → Edits read .empty blocks files

/-- The occurrences of the block's text in its file overlap in the first one, and are several. -/
def Tangled (st : Editing) (b : Block) : Prop :=
  ∃ text search replacement, st.content read b.path = .ok text ∧ Form text b search replacement ∧ Knotted search text

end

variable {search replacement s r : Text}

theorem trimmable_ne_nil (h : trimmable search replacement = some (s,r)) : s ≠ [] := by
  rw [trimmable] at h
  split at h
  · rename_i hall
    cases h
    intro hnil
    have hlong := hall.2.2.2.2
    rw [hnil] at hlong
    exact absurd hlong (by decide)
  · cases h

variable {b : Block} {text : Text}

theorem found_eq_zero : b.found text = 0 ↔ (b.search ≠ [] → ∀ i, ¬ At b.search text i) := by
  rw [Block.found]
  split
  · rename_i hnil
    exact iff_of_true rfl fun hne => absurd hnil hne
  · rename_i hne
    exact (Occurrence.count_eq_zero hne).trans ⟨fun h _ => h,fun h => h hne⟩

theorem found_eq_one : b.found text = 1 ↔ b.search ≠ [] ∧ count b.search text = 1 := by
  rw [Block.found]
  split
  · rename_i hnil
    exact iff_of_false Nat.zero_ne_one fun h => h.1 hnil
  · rename_i hne
    exact (and_iff_right hne).symm

theorem Form.ne_nil (h : Form text b search replacement) : search ≠ [] := by
  cases h with
  | whole i hne _ => exact hne
  | trimmed _ _ _ htrim => exact trimmable_ne_nil htrim

variable {r' : Text}

theorem Form.functional {s' : Text} (h : Form text b s r) (h' : Form text b s' r') :
    s = s' ∧ r = r' := by
  cases h with
  | whole i hne hi =>
    cases h' with
    | whole => exact ⟨rfl,rfl⟩
    | trimmed _ _ hno _ => exact absurd hi (hno hne i)
  | trimmed _ _ hno htrim =>
    cases h' with
    | whole i hne hi => exact absurd hi (hno hne i)
    | trimmed _ _ _ htrim' =>
      rw [htrim] at htrim'
      cases htrim'
      exact ⟨rfl,rfl⟩

theorem EditsOnce.functional (h : EditsOnce text b r) (h' : EditsOnce text b r') : r = r' := by
  obtain ⟨s,p,i,hform,hi,-,rfl⟩ := h
  obtain ⟨s',p',i',hform',-,hall',rfl⟩ := h'
  obtain ⟨rfl,rfl⟩ := hform.functional hform'
  rw [hall' i hi]

section
variable {read : Text → Except ReadError Text}
variable {st st' : Editing} {b : Block}

theorem applyBlock_ok (h : applyBlock read st b = .ok st') :
    ∃ text search replacement, st.content read b.path = .ok text ∧ Form text b search replacement ∧ count search text = 1 ∧
      st'.files = st.files.set b.path (replaceFirst search replacement text) := by
  rw [applyBlock] at h
  split at h
  · cases h
  · rename_i text hcontent
    refine ⟨text,?_⟩
    split at h
    · rename_i search replacement hform
      cases h
      obtain ⟨hzero,hform⟩ := Option.ite_none_right_eq_some.mp hform
      obtain ⟨htrim,hcount⟩ := Option.filter_eq_some_iff.mp hform
      exact ⟨search,replacement,hcontent,.trimmed search replacement (found_eq_zero.mp hzero) htrim,of_decide_eq_true hcount,rfl⟩
    · split at h
      · cases h
      · rename_i hone
        cases h
        obtain ⟨hne,hcount⟩ := found_eq_one.mp (not_not.mp hone)
        obtain ⟨i,hi,-⟩ := (Occurrence.count_eq_one hne).mp hcount
        exact ⟨b.search,b.replacement,hcontent,.whole i hne hi,hcount,rfl⟩

theorem applyBlock_of_count {text search replacement : Text} (hcontent : st.content read b.path = .ok text)
    (hform : Form text b search replacement) (hcount : count search text = 1) : ∃ st', applyBlock read st b = .ok st' := by
  rw [applyBlock,hcontent]
  cases hform with
  | whole i hne hi =>
    simp only [found_eq_one.mpr ⟨hne,hcount⟩]
    exact ⟨_,rfl⟩
  | trimmed _ _ hno htrim =>
    have hfilter : newlineTrimmedBlock text b.search b.replacement = some (search,replacement) :=
      Option.filter_eq_some_iff.mpr ⟨htrim,decide_eq_true hcount⟩
    simp only [found_eq_zero.mpr hno,if_true,hfilter]
    exact ⟨_,rfl⟩

theorem applyBlock_editsOnce (h : applyBlock read st b = .ok st') (hplain : ¬ Tangled read st b) :
    ∃ text result, st.content read b.path = .ok text ∧ EditsOnce text b result ∧ st'.files = st.files.set b.path result := by
  obtain ⟨text,search,replacement,hcontent,hform,hcount,hfiles⟩ := applyBlock_ok h
  obtain ⟨i,hi,hall⟩ := (Occurrence.unique_iff hform.ne_nil).mpr
    ⟨hcount,fun hknot => hplain ⟨text,search,replacement,hcontent,hform,hknot⟩⟩
  refine ⟨text,_,hcontent,⟨search,replacement,i,hform,hi,hall,?_⟩,hfiles⟩
  exact Occurrence.replaceFirst_of_at hi hform.ne_nil fun k hk => (hall k hk).ge

theorem Tangled.applies (h : Tangled read st b) :
    (∃ st', applyBlock read st b = .ok st') ∧ ∀ text result, st.content read b.path = .ok text → ¬ EditsOnce text b result := by
  obtain ⟨text,search,replacement,hcontent,hform,hknot⟩ := h
  obtain ⟨j,hj,hspan,-⟩ := id hknot
  refine ⟨applyBlock_of_count hcontent hform ((Occurrence.count_eq_one hform.ne_nil).mpr ⟨j,hj,hspan⟩),?_⟩
  rintro text' result hcontent' ⟨s,r,i,hform',hi,hall,-⟩
  cases hcontent.symm.trans hcontent'
  obtain ⟨rfl,rfl⟩ := hform.functional hform'
  exact Occurrence.not_knotted_of_unique ⟨i,hi,hall⟩ hknot

/-! ### Lists of blocks -/

theorem Edits.nil_eq {files files' : Dict Text Text} (h : Edits read files [] files') : files = files' := by
  cases h
  rfl

variable (read) in
def editStep (st : Editing) (b : Block) : Option Editing := (applyBlock read st b).toOption

theorem content_files (h : st.files = st'.files) (path : Text) : st.content read path = st'.content read path := by
  rw [Editing.content,Editing.content,h]

variable {blocks : List Block}

theorem edits_of_plain (h : applyBlocks read st blocks = .ok st')
    (hplain : Run.AllSteps (editStep read) (fun st b => ¬ Tangled read st b) st blocks) : Edits read st.files blocks st'.files := by
  induction blocks generalizing st with
  | nil =>
    cases h
    exact .done _
  | cons b rest ih =>
    rw [applyBlocks] at h
    split at h
    · cases h
    · rename_i next hnext
      obtain ⟨text,result,hcontent,honce,hfiles⟩ := applyBlock_editsOnce hnext hplain.1
      have hrest := ih h (hplain.2 next (by rw [editStep,hnext]; rfl))
      rw [hfiles] at hrest
      exact .block ((content_files rfl _).trans hcontent) honce hrest

theorem plain_of_edits (h : ∀ k st', applyBlocks read st (blocks.take k) = .ok st' → Edits read st.files (blocks.take k) st'.files) :
    Run.AllSteps (editStep read) (fun st b => ¬ Tangled read st b) st blocks := by
  induction blocks generalizing st with
  | nil => trivial
  | cons b rest ih =>
    refine ⟨fun htangled => ?_,fun next hnext => ih fun k st' hrest => ?_⟩
    · obtain ⟨⟨st',hst'⟩,hno⟩ := htangled.applies
      have hone := h 1 st' (by rw [List.take_succ_cons,List.take_zero,applyBlocks,hst']; rfl)
      rw [List.take_succ_cons] at hone
      cases hone with
      | block hcontent honce _ => exact hno _ _ ((content_files rfl _).trans hcontent) honce
    · have hstep : applyBlock read st b = .ok next := Raising.toOption_some.mp hnext
      have hall := h (k + 1) st' (by rw [List.take_succ_cons,applyBlocks,hstep]; exact hrest)
      obtain ⟨text,search,replacement,hcontent,-,-,hfiles⟩ := applyBlock_ok hstep
      -- the first block edits once, as the list of it alone does
      have hone := h 1 next (by rw [List.take_succ_cons,List.take_zero,applyBlocks,hstep]; rfl)
      rw [List.take_succ_cons] at hall hone
      cases hone with
      | block hcontent₁ honce₁ hdone =>
        rw [List.take_zero] at hdone
        cases hall with
        | block hcontent₂ honce₂ hrest₂ =>
          cases hcontent₁.symm.trans hcontent₂
          cases honce₁.functional honce₂
          exact hdone.nil_eq ▸ hrest₂

end

/-- A list of blocks and each beginning of it are applied only where every block occurs exactly
once, and with exactly that occurrence replaced, exactly when no block meets occurrences of its
text that are several and all overlap the first. -/
theorem search_replace_unambiguous_iff (read : Text → Except ReadError Text) (blocks : List Block) :
    (∀ k, Unambiguous read (blocks.take k)) ↔
      Run.AllSteps (editStep read) (fun st b => ¬ Tangled read st b) {} blocks := by
  constructor
  · intro h
    refine plain_of_edits fun k st' hok => h k st'.files st'.newlineTrimmed ?_
    rw [applySearchReplaceBlocks,hok]
    rfl
  · intro h k files trimmed hok
    obtain ⟨st,hst,hpair⟩ := Raising.map_ok.mp hok
    cases hpair
    refine edits_of_plain hst ?_
    rw [← List.take_append_drop k blocks] at h
    exact h.take

def readBanana (path : Text) : Except ReadError Text :=
  if path = "a".toList then .ok "banana".toList else .error (.refused "missing")

theorem overlapping_search_applied : ¬ ∀ (read : Text → Except ReadError Text) (blocks : List Block), Unambiguous read blocks := by
  intro hall
  have hedits := hall readBanana [⟨"a".toList,"ana".toList,"-".toList⟩] _ _ rfl
  cases hedits with
  | block hcontent honce _ =>
    cases hcontent
    obtain ⟨s,r,i,hform,-,hunique,-⟩ := honce
    cases hform with
    | whole =>
      have hfirst := hunique 1 (by decide)
      have hsecond := hunique 3 (by decide)
      omega
    | trimmed _ _ hno _ => exact hno (by decide) 1 (by decide)

end Verdict.Patch

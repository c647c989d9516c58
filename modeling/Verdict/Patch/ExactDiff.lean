import Verdict.Basics.Dict
import Verdict.Basics.Raising
import Verdict.Basics.TextLines
import Verdict.Basics.UnifiedDiff
import Verdict.Patch.Repair

/-! # Diffs of whole files

`build_exact_diff` compares the lines of a file as `splitlines` cuts them, which ends a line at
more than a line feed. `difflib` is left open: it finds some correct edit script.
-/
namespace Verdict.Patch
open GitPatch UnifiedDiff
open TextLines (lineBreak)
open scoped Members
open List (append_nil flatMap_assoc flatMap_cons flatten_cons mem_cons mem_cons_self mem_singleton)

/-- A line of `splitlines` ends behind this character; a carriage return waits for its line feed. -/
def breaksAfter (c : Char) (rest : Text) : Bool := lineBreak c && !(c = '\r' && rest.head? = some '\n')

/-- `text.splitlines(keepends=True)`. -/
def splitlinesKeep : Text → List Text
  | [] => []
  | c :: t =>
    if breaksAfter c t then [c] :: splitlinesKeep t
    else match splitlinesKeep t with
      | [] => [[c]]
      | l :: ls => (c :: l) :: ls

/-- What `difflib.unified_diff` finds between two lists of lines. -/
structure Difflib where
  hunks : List Text → List Text → List Hunk
  script (a b : List Text) : Script 0 0 a b (hunks a b)

/-- The lines of `difflib.unified_diff`. -/
def unifiedDiff (hunks : List Hunk) (path : Text) : List Text :=
  if hunks = [] then []
  else ["--- a/".toList ++ path ++ ['\n'],"+++ b/".toList ++ path ++ ['\n']] ++ hunks.flatMap fun h =>
    (header h.oldAt (olds h.edits).length h.newAt (news h.edits).length ++ ['\n'])
      :: h.edits.map fun e => e.mark.char :: e.text

def remarked (l : Text) : Text := if l.getLast? = some '\n' then l else l ++ '\n' :: noNewline ++ ['\n']

inductive DiffError
  | unread (e : ReadError)
  /-- `search/replace reply changes nothing`. -/
  | changesNothing

section
variable (difflib : Difflib) (read : Text → Except ReadError Text)

def diffSection (e : Text × Text) : Except DiffError Text := match read e.1 with
  | .error err => .error (.unread err)
  | .ok original =>
    if e.2 = original then .ok []
    else .ok ("diff --git a/".toList ++ e.1 ++ " b/".toList ++ e.1 ++ ['\n']
      ++ (unifiedDiff (difflib.hunks (splitlinesKeep original) (splitlinesKeep e.2)) e.1).flatMap remarked)

def buildExactDiff (files : Dict Text Text) : Except DiffError Text :=
  match (files.entries.insertionSort fun e f => e.1 ≤ f.1).mapM (diffSection difflib read) with
  | .error err => .error err
  | .ok sections => if sections.flatten = [] then .error .changesNothing else .ok sections.flatten

end

/-! ### The breaks that are no line feeds -/

def OddBreak (t : Text) : Prop := ∃ front c back, t = front ++ c :: back ∧ back ≠ [] ∧ c ≠ '\n' ∧ breaksAfter c back = true

variable {t : Text}

theorem oddBreak_cons {c : Char} :
    OddBreak (c :: t) ↔ (t ≠ [] ∧ c ≠ '\n' ∧ breaksAfter c t = true) ∨ OddBreak t := by
  constructor
  · rintro ⟨front,d,back,heq,hback,hd,hbreak⟩
    cases front with
    | nil =>
      obtain ⟨rfl,rfl⟩ := List.cons.inj heq
      exact .inl ⟨hback,hd,hbreak⟩
    | cons e front =>
      obtain ⟨-,rfl⟩ := List.cons.inj heq
      exact .inr ⟨front,d,back,rfl,hback,hd,hbreak⟩
  · rintro (⟨hback,hd,hbreak⟩ | ⟨front,d,back,rfl,hback,hd,hbreak⟩)
    · exact ⟨[],c,t,rfl,hback,hd,hbreak⟩
    · exact ⟨c :: front,d,back,rfl,hback,hd,hbreak⟩

theorem flatten_splitlinesKeep (t : Text) : (splitlinesKeep t).flatten = t := by
  induction t with
  | nil => rfl
  | cons c t ih =>
    unfold splitlinesKeep
    split
    · rw [flatten_cons,ih]
      rfl
    · cases hls : splitlinesKeep t with
      | nil =>
        rw [hls] at ih
        rw [← ih]
        rfl
      | cons l ls =>
        rw [hls,flatten_cons] at ih
        simp only [flatten_cons,List.cons_append,ih]

theorem breaksAfter_feed (rest : Text) : breaksAfter '\n' rest = true := rfl

theorem fileLines_eq_nil : fileLines t = [] ↔ t = [] := by
  constructor
  · intro h
    rw [← flatten_fileLines t,h]
    rfl
  · rintro rfl
    rfl

theorem splitlinesKeep_eq_nil : splitlinesKeep t = [] ↔ t = [] := by
  constructor
  · intro h
    rw [← flatten_splitlinesKeep t,h]
    rfl
  · rintro rfl
    rfl

theorem isLine_of_splitlinesKeep {l : Text} (h : l ∈ splitlinesKeep t) : IsLine l := by
  induction t generalizing l with
  | nil => cases h
  | cons c t ih =>
    unfold splitlinesKeep at h
    split at h
    · rcases mem_cons.mp h with rfl | h
      · exact ⟨List.cons_ne_nil c [],List.not_mem_nil⟩
      · exact ih h
    · rename_i hbreak
      have hc : c ≠ '\n' := fun heq => hbreak (heq ▸ breaksAfter_feed t)
      cases hls : splitlinesKeep t with
      | nil =>
        rw [hls,mem_singleton] at h
        rw [h]
        exact ⟨List.cons_ne_nil c [],List.not_mem_nil⟩
      | cons a ls =>
        rw [hls] at h ih
        rcases mem_cons.mp h with rfl | h
        · exact isLine_cons hc (ih mem_cons_self)
        · exact ih (List.mem_cons_of_mem a h)

/-- `splitlines` cuts a text at its line feeds when no break stands inside a line. -/
theorem splitlinesKeep_eq_fileLines : splitlinesKeep t = fileLines t ↔ ¬ OddBreak t := by
  induction t with
  | nil =>
    refine iff_of_true rfl ?_
    rintro ⟨front,c,back,heq,-⟩
    cases front <;> cases heq
  | cons c t ih =>
    rw [oddBreak_cons,not_or,← ih]
    by_cases hfeed : c = '\n'
    · subst hfeed
      simp [splitlinesKeep,fileLines,breaksAfter_feed]
    · cases hbreak : breaksAfter c t with
      | true =>
        rw [splitlinesKeep,if_pos hbreak,fileLines,if_neg hfeed]
        cases hls : fileLines t with
        | nil =>
          obtain rfl := fileLines_eq_nil.mp hls
          simp [splitlinesKeep]
        | cons l ls =>
          have hl : l ≠ [] := (isLine_of_mem (hls ▸ mem_cons_self)).1
          have ht : t ≠ [] := by
            rintro rfl
            cases hls
          refine iff_of_false (fun heq => hl (List.cons.inj (List.cons.inj heq).1).2.symm) fun h => ?_
          exact h.1 ⟨ht,hfeed,rfl⟩
      | false =>
        rw [splitlinesKeep,hbreak,if_neg Bool.false_ne_true,fileLines,if_neg hfeed]
        cases hs : splitlinesKeep t with
        | nil =>
          obtain rfl := splitlinesKeep_eq_nil.mp hs
          simp [fileLines]
        | cons a as =>
          cases hls : fileLines t with
          | nil =>
            obtain rfl := fileLines_eq_nil.mp hls
            cases hs
          | cons b bs => simp

/-! ### The text of the diff -/

section
variable (difflib : Difflib) (read : Text → Except ReadError Text)

theorem remarked_edit (e : Edit) (h : e.text ≠ []) : remarked (e.mark.char :: e.text) = textOf e.raw := by
  have hlast : (e.mark.char :: e.text).getLast? = e.text.getLast? := List.getLast?_cons_of_ne_nil h
  unfold remarked Edit.raw
  rw [hlast]
  by_cases hfeed : e.text.getLast? = some '\n'
  · rw [if_pos hfeed,if_pos hfeed,textOf_cons,List.cons_append,chomp_append hfeed,textOf_nil,append_nil]
  · rw [if_neg hfeed,if_neg hfeed,textOf_cons,textOf_cons,chomp_of_open hfeed]
    simp [textOf]

theorem remarked_ended (l : Text) : remarked (l ++ ['\n']) = l ++ ['\n'] := if_pos List.getLast?_concat

theorem remarked_hunks (hs : List Hunk) (h : ∀ k ∈ hs, ∀ e ∈ k.edits, e.text ≠ []) :
    (hs.flatMap fun k => (header k.oldAt (olds k.edits).length k.newAt (news k.edits).length ++ ['\n'])
      :: k.edits.map fun e => e.mark.char :: e.text).flatMap remarked = textOf (hs.flatMap Hunk.raw) := by
  rw [textOf,flatMap_assoc,flatMap_assoc]
  refine List.flatMap_congr fun k hk => ?_
  rw [flatMap_cons,remarked_ended,List.flatMap_map,Hunk.raw,flatMap_cons,flatMap_assoc]
  exact congrArg _ (List.flatMap_congr fun e he => remarked_edit e (h k hk e he))

theorem section_text {hs : List Hunk} (hne : hs ≠ []) (path : Text) (h : ∀ k ∈ hs, ∀ e ∈ k.edits, e.text ≠ []) :
    "diff --git a/".toList ++ path ++ " b/".toList ++ path ++ ['\n'] ++ (unifiedDiff hs path).flatMap remarked
      = textOf (FileDiff.raw ⟨path,hs⟩) := by
  rw [unifiedDiff,if_neg hne,List.flatMap_append,remarked_hunks hs h,FileDiff.raw,textOf_append,headLines]
  rw [flatMap_cons,flatMap_cons,List.flatMap_nil,remarked_ended,remarked_ended]
  simp only [textOf_cons,textOf_nil,List.append_assoc,List.nil_append]

def fileDiff (e : Text × Text) : Option FileDiff := match read e.1 with
  | .error _ => none
  | .ok original =>
    if e.2 = original then none else some ⟨e.1,difflib.hunks (splitlinesKeep original) (splitlinesKeep e.2)⟩

variable {difflib read}

theorem splitlinesKeep_injective {t u : Text} (h : splitlinesKeep t = splitlinesKeep u) : t = u := by
  rw [← flatten_splitlinesKeep t,h,flatten_splitlinesKeep]

variable {e : Text × Text} {f : FileDiff}

theorem fileDiff_eq_some : fileDiff difflib read e = some f ↔
    ∃ old, read e.1 = .ok old ∧ e.2 ≠ old ∧ f = ⟨e.1,difflib.hunks (splitlinesKeep old) (splitlinesKeep e.2)⟩ := by
  unfold fileDiff
  split
  · rename_i herr
    simp [herr]
  · rename_i old hold
    simp only [Option.ite_none_left_eq_some,Option.some.injEq,hold,Except.ok.injEq,exists_eq_left']
    exact and_congr_right fun _ => eq_comm

theorem fileDiff_lines (h : fileDiff difflib read e = some f) {k : Hunk} (hk : k ∈ f.hunks)
    {d : Edit} (hd : d ∈ k.edits) : IsLine d.text := by
  obtain ⟨old,-,-,rfl⟩ := fileDiff_eq_some.mp h
  exact ((difflib.script _ _).text_mem hk hd).elim isLine_of_splitlinesKeep isLine_of_splitlinesKeep

theorem diffSection_eq (hread : ∃ old, read e.1 = .ok old) :
    diffSection difflib read e = .ok (textOf ((fileDiff difflib read e).toList.flatMap FileDiff.raw)) := by
  obtain ⟨old,hold⟩ := hread
  by_cases hsame : e.2 = old
  · simp only [diffSection,fileDiff,hold,if_pos hsame]
    rfl
  · have hdiff : fileDiff difflib read e = some _ := fileDiff_eq_some.mpr ⟨old,hold,hsame,rfl⟩
    have hne : difflib.hunks (splitlinesKeep old) (splitlinesKeep e.2) ≠ [] :=
      (difflib.script _ _).ne_nil fun heq => hsame (splitlinesKeep_injective heq).symm
    have htext := section_text hne e.1 fun k hk d hd => (fileDiff_lines hdiff hk hd).1
    rw [hdiff]
    simp only [diffSection,hold,if_neg hsame,htext,Option.toList_some,flatMap_cons,List.flatMap_nil,append_nil]

def sortedEntries (files : Dict Text Text) : List (Text × Text) := files.entries.insertionSort fun e f => e.1 ≤ f.1

theorem mem_sortedEntries {files : Dict Text Text} : e ∈ sortedEntries files ↔ files.get? e.1 = some e.2 := by
  rw [sortedEntries,List.mem_insertionSort,← Dict.mem_entries_iff]

def fileDiffs (difflib : Difflib) (read : Text → Except ReadError Text) (files : Dict Text Text) : List FileDiff :=
  (sortedEntries files).filterMap (fileDiff difflib read)

theorem flatMap_toList {α β : Type} (f : α → Option β) (g : β → List Text) (xs : List α) :
    xs.flatMap (fun x => (f x).toList.flatMap g) = (xs.filterMap f).flatMap g := by
  induction xs with
  | nil => rfl
  | cons x xs ih => cases hx : f x <;> simp [hx,ih]

theorem buildExactDiff_ok {files : Dict Text Text} (hread : ∀ path ∈ files.keys, ∃ old, read path = .ok old)
    {diff : Text} : buildExactDiff difflib read files = .ok diff ↔ fileDiffs difflib read files ≠ [] ∧ diff
    = textOf ((fileDiffs difflib read files).flatMap FileDiff.raw) := by
  have hsections : (sortedEntries files).mapM (diffSection difflib read)
      = .ok ((sortedEntries files).map fun e => textOf ((fileDiff difflib read e).toList.flatMap FileDiff.raw)) := by
    refine Raising.mapM_map_ok fun e he => diffSection_eq (hread e.1 ?_)
    exact (files.mem_keys_iff e.1).mpr ⟨e.2,mem_sortedEntries.mp he⟩
  have hflatten : ((sortedEntries files).map fun e => textOf ((fileDiff difflib read e).toList.flatMap FileDiff.raw)).flatten
      = textOf ((fileDiffs difflib read files).flatMap FileDiff.raw) := by
    rw [fileDiffs,← flatMap_toList,textOf,flatMap_assoc,List.flatMap_def]
    rfl
  have hempty : textOf ((fileDiffs difflib read files).flatMap FileDiff.raw) = [] ↔ fileDiffs difflib read files = [] := by
    cases fileDiffs difflib read files <;> simp [textOf,FileDiff.raw,headLines]
  rw [buildExactDiff,show files.entries.insertionSort (fun e f => e.1 ≤ f.1) = sortedEntries files from rfl,hsections]
  simp only [hflatten,hempty]
  by_cases hnone : fileDiffs difflib read files = []
  · simp [hnone]
  · simp [hnone,eq_comm]

theorem nodup_fileDiffs (files : Dict Text Text) : ((fileDiffs difflib read files).map FileDiff.path).Nodup := by
  have hnodup : ((sortedEntries files).map Prod.fst).Nodup :=
    ((List.perm_insertionSort _ _).map _).nodup_iff.mpr files.nodup
  have hsub : ∀ xs : List (Text × Text), ((xs.filterMap (fileDiff difflib read)).map FileDiff.path).Sublist (xs.map Prod.fst) := by
    intro xs
    induction xs with
    | nil => exact .slnil
    | cons e xs ih =>
      cases he : fileDiff difflib read e with
      | none =>
        rw [List.filterMap_cons_none he]
        exact ih.cons e.1
      | some f =>
        obtain ⟨old,-,-,rfl⟩ := fileDiff_eq_some.mp he
        rw [List.filterMap_cons_some he]
        exact ih.cons_cons e.1
  exact hnodup.sublist (hsub _)

theorem mem_fileDiffs {files : Dict Text Text} : f ∈ fileDiffs difflib read files ↔ ∃ path text old,
    files.get? path = some text ∧ read path = .ok old ∧ text ≠ old ∧ f =
    ⟨path,difflib.hunks (splitlinesKeep old) (splitlinesKeep text)⟩ := by
  simp only [fileDiffs,List.mem_filterMap,mem_sortedEntries,fileDiff_eq_some,Prod.exists]
  constructor
  · rintro ⟨path,text,hget,old,hold,hne,rfl⟩
    exact ⟨path,text,old,hget,hold,hne,rfl⟩
  · rintro ⟨path,text,old,hget,hold,hne,rfl⟩
    exact ⟨path,text,hget,old,hold,hne,rfl⟩

theorem fileDiffs_lines {files : Dict Text Text} :
    ∀ f ∈ fileDiffs difflib read files, ∀ k ∈ f.hunks, ∀ e ∈ k.edits, IsLine e.text := by
  intro f hf k hk e he
  obtain ⟨entry,-,hentry⟩ := List.mem_filterMap.mp hf
  exact fileDiff_lines hentry hk he

end

/-! ### What the diff does -/

section
variable {read : Text → Except ReadError Text} {files : Dict Text Text}

def treeOf (read : Text → Except ReadError Text) : Files := fun path => (read path).toOption

def updated (read : Text → Except ReadError Text) (files : Dict Text Text) : Files := fun path => (files.get? path).or (treeOf read path)

/-- The diff of the files, whatever edit scripts are found, makes of them the new contents. -/
def Exact (read : Text → Except ReadError Text) (files : Dict Text Text) : Prop :=
  ∀ difflib diff, buildExactDiff difflib read files = .ok diff → applyPatch diff (treeOf read) = some (updated read files)

/-- A header line can name every file that changes, and such a file has no break inside a line. -/
def Regular (read : Text → Except ReadError Text) (files : Dict Text Text) : Prop :=
  ∀ path text old, files.get? path = some text → read path = .ok old → text ≠ old → Plain path ∧ ¬ OddBreak old

variable {old : Text}

theorem treeOf_ok {path : Text} (h : read path = .ok old) : treeOf read path = some old := by rw [treeOf,h]; rfl

theorem exact_of_regular (hread : ∀ path ∈ files.keys, ∃ old, read path = .ok old) (h : Regular read files) : Exact read files := by
  intro difflib diff hdiff
  obtain ⟨-,rfl⟩ := (buildExactDiff_ok hread).mp hdiff
  have hplain : ∀ f ∈ fileDiffs difflib read files, Plain f.path := by
    intro f hf
    obtain ⟨path,text,old,hget,hold,hne,rfl⟩ := mem_fileDiffs.mp hf
    exact (h path text old hget hold hne).1
  have hnew : ∀ f ∈ fileDiffs difflib read files, ∃ t ls, treeOf read f.path = some t ∧
      applyHunks 0 f.hunks (fileLines t) = some ls ∧ ls.flatten = (files.get? f.path).getD [] := by
    intro f hf
    obtain ⟨path,text,old,hget,hold,hne,rfl⟩ := mem_fileDiffs.mp hf
    have hlines := splitlinesKeep_eq_fileLines.mpr (h path text old hget hold hne).2
    refine ⟨old,splitlinesKeep text,treeOf_ok hold,?_,?_⟩
    · rw [← hlines]
      exact (difflib.script _ _).applyHunks
    · rw [flatten_splitlinesKeep,hget]
      rfl
  rw [applyPatch,parse_textOf hplain fileDiffs_lines,Option.bind_some,vacate_sections,
    foldlM_applySection (fun path => (files.get? path).getD []) (nodup_fileDiffs files) hnew]
  refine congrArg some (funext fun path => ?_)
  rw [updated]
  split
  · rename_i hmem
    obtain ⟨f,hf,rfl⟩ := List.mem_map.mp hmem
    obtain ⟨path,text,old,hget,-,-,rfl⟩ := mem_fileDiffs.mp hf
    rw [hget]
    rfl
  · rename_i hmem
    cases hget : files.get? path with
    | none => rfl
    | some text =>
      obtain ⟨old,hold⟩ := hread path ((files.mem_keys_iff path).mpr ⟨text,hget⟩)
      rw [treeOf_ok hold,Option.some_or]
      by_contra hne
      exact hmem (List.mem_map_of_mem (mem_fileDiffs.mpr ⟨path,text,old,hget,hold,fun heq => hne (heq ▸ rfl),rfl⟩))

def replacing : Difflib := ⟨replaceAll,script_replaceAll⟩

variable {ls : List Text}

theorem isLines_injective {ls' : List Text} (hpre : ls <+: ls') (hflat : ls.flatten = ls'.flatten) (h : ∀ l ∈ ls', l ≠ []) :
    ls = ls' := by
  obtain ⟨rest,rfl⟩ := hpre
  have hrest : rest.flatten = [] := by
    rw [List.flatten_append] at hflat
    exact List.self_eq_append_right.mp hflat
  cases rest with
  | nil => exact (append_nil ls).symm
  | cons l rest =>
    have hl : l = [] := (List.append_eq_nil_iff.mp hrest).1
    exact absurd hl (h l (List.mem_append_right _ mem_cons_self))

theorem not_oddBreak_of_applyHunks {new : Text} (hne : new ≠ old)
    (h : applyHunks 0 (replaceAll (splitlinesKeep old) (splitlinesKeep new)) (fileLines old) = some ls) : ¬ OddBreak old := by
  rw [replaceAll,if_neg fun heq => hne (splitlinesKeep_injective heq).symm] at h
  simp only [applyHunks,olds_replaceAll] at h
  split at h
  · rename_i hplace
    refine splitlinesKeep_eq_fileLines.mp (isLines_injective hplace.2.2 ?_ fun l hl => (isLine_of_mem hl).1)
    rw [flatten_splitlinesKeep,flatten_fileLines]
  · cases h

theorem regular_of_exact (hread : ∀ path ∈ files.keys, ∃ old, read path = .ok old) (h : Exact read files) : Regular read files := by
  intro path text old hget hold hne
  have hdiff := (@buildExactDiff_ok replacing read files hread _).mpr
    ⟨List.ne_nil_of_mem (mem_fileDiffs.mpr ⟨path,text,old,hget,hold,hne,rfl⟩),rfl⟩
  obtain ⟨ss,hparse,happly⟩ := Option.bind_eq_some_iff.mp (h replacing _ hdiff)
  -- A name that is cut off leaves the file as it was.
  have hnamed : ∀ path text old, files.get? path = some text → read path = .ok old → text ≠ old → Plain path := by
    intro path text old hget hold hne
    by_contra hpath
    have hothers : ∀ s ∈ ss, path ∉ s.paths := fun s hs hmem => hpath (parse_plain hparse s hs path hmem)
    have hother : updated read files path = treeOf read path :=
      (foldlM_applySection_other happly hothers).trans (vacate_other hothers)
    rw [updated,hget,treeOf_ok hold] at hother
    exact hne (Option.some.inj hother)
  refine ⟨hnamed path text old hget hold hne,?_⟩
  have hplain : ∀ f ∈ fileDiffs replacing read files, Plain f.path := by
    intro f hf
    obtain ⟨path,text,old,hget,hold,hne,rfl⟩ := mem_fileDiffs.mp hf
    exact hnamed path text old hget hold hne
  rw [parse_textOf hplain fileDiffs_lines] at hparse
  obtain rfl := Option.some.inj hparse
  rw [vacate_sections] at happly
  obtain ⟨t,ls,ht,hls⟩ := foldlM_applySection_each (nodup_fileDiffs files) happly
    (mem_fileDiffs.mpr ⟨path,text,old,hget,hold,hne,rfl⟩)
  obtain rfl := Option.some.inj (ht.symm.trans (treeOf_ok hold))
  exact not_oddBreak_of_applyHunks hne hls

/-- The diff of files is exact, whatever edit scripts are found, exactly when a header line can name
each file that changes and no break but line feeds stands inside its lines. -/
theorem exact_diff_iff (read : Text → Except ReadError Text) (files : Dict Text Text)
    (hread : ∀ path ∈ files.keys, ∃ old, read path = .ok old) : Exact read files ↔ Regular read files :=
  ⟨regular_of_exact hread,exact_of_regular hread⟩

def servedFile (text : Text) (path : Text) : Except ReadError Text := if path = ['a'] then .ok text else .error (.refused "missing")

def oneChange (text : Text) : Dict Text Text := ⟨[(['a'],text)],List.nodup_singleton _⟩

theorem servedFile_read (text text' : Text) : ∀ path ∈ (oneChange text').keys, ∃ old, servedFile text path = .ok old := by
  intro path hpath
  rw [Dict.keys,oneChange,List.map_singleton,mem_singleton] at hpath
  exact ⟨text,if_pos hpath⟩

/-- A line is changed, and another one has its carriage return. -/
theorem plain_change_exact : Exact (servedFile ['x','\r','\n','y','\n']) (oneChange ['x','\r','\n','z']) := by
  refine (exact_diff_iff _ _ (servedFile_read _ _)).mpr fun path text old hget hold hne => ?_
  have hentry := (Dict.mem_entries_iff _ _ _).mpr hget
  rw [oneChange,mem_singleton] at hentry
  obtain ⟨rfl,rfl⟩ := Prod.mk.inj hentry
  obtain rfl := Except.ok.inj hold
  exact ⟨by decide +kernel,splitlinesKeep_eq_fileLines.mp (by decide)⟩

/-- A form feed makes two lines of one, and the diff of them does not apply. -/
theorem form_feed_breaks_diff : ¬ Exact (servedFile ['x','\x0c','y','\n']) (oneChange ['z','\n']) ∧ ∃ diff,
    buildExactDiff replacing (servedFile ['x','\x0c','y','\n']) (oneChange ['z','\n']) = .ok diff ∧
    applyPatch diff (treeOf (servedFile ['x','\x0c','y','\n'])) = none := by
  have hfails : ∃ diff, buildExactDiff replacing (servedFile ['x','\x0c','y','\n']) (oneChange ['z','\n']) = .ok diff ∧
      applyPatch diff (treeOf (servedFile ['x','\x0c','y','\n'])) = none := ⟨_,rfl,by decide +kernel⟩
  refine ⟨fun h => ?_,hfails⟩
  obtain ⟨diff,hdiff,hnone⟩ := hfails
  have happly := h replacing diff hdiff
  rw [hnone] at happly
  cases happly

end

end Verdict.Patch

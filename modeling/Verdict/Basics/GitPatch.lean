import Mathlib.Data.List.Infix

/-! # The files a patch names

How `git apply` takes file names from a patch: the first component of a name is stripped, a name
runs to a tab or to the end of its line, and a `diff --git` section of extended headers alone is
about the file of its first line. Lines come without their line feeds. How a quoted name is
decoded is left open, and so is which lines open a hunk.
-/
namespace Verdict.GitPatch

open List (append_assoc mem_map not_mem_nil)

abbrev Text := List Char

def field (t : Text) : Text := t.takeWhile fun c => decide (c ≠ '\t' ∧ c ≠ '\r')

/-- `-p1` takes the first component away, whatever it is. -/
def stripFirst (name : Text) : Option Text := match name.dropWhile (fun c => decide (c ≠ '/')) with
  | [] => none
  | _ :: rest => some rest

structure Reading where
  unquote : Text → Option Text
  opens : Text → Bool

structure Found where
  (line name : Text)
  deriving DecidableEq

/-- Where a reader of a patch stands: outside of hunks, in a hunk, or among the extended
headers of a `diff --git` line, with its file and what was seen since. -/
inductive Mode
  | loose
  | hunk
  | headers (file : Option Found) (change renamed : Bool)

def startsWith (lit : String) (l : Text) : Bool := lit.toList.isPrefixOf l

def marked (l : Text) : Bool := match l with
  | [] => true
  | c :: _ => c = '+' ∨ c = '-' ∨ c = ' ' ∨ c = '\\'

def isChange (l : Text) : Bool :=
  ["old mode ","new mode ","new file mode ","deleted file mode ","GIT binary patch"].any (startsWith · l)

def isRemark (l : Text) : Bool := ["index ","similarity index ","dissimilarity index "].any (startsWith · l)

variable (g : Reading)

def Reading.nameOf (t : Text) : Option Text := if t.head? = some '"' then g.unquote t else some (field t)

/-- The file of a `---` or `+++` line. -/
def Reading.sideFile (l : Text) : List Found := match g.nameOf (l.drop 4) with
  | some name => if name = "/dev/null".toList then [] else (stripFirst name).toList.map (Found.mk l)
  | none => []

def movers : List String := ["rename from ","rename to ","copy from ","copy to "]

def Reading.moved (l : Text) : List Found := match movers.find? (startsWith · l) with
  | some word => (g.nameOf (l.drop word.length)).toList.map (Found.mk l)
  | none => []

def isMove (l : Text) : Bool := movers.any (startsWith · l)

/-- The two names of a `diff --git` line are one name under two first components. -/
def Reading.gitFile (l : Text) : Option Found :=
  let t := l.drop "diff --git ".length
  ((List.range t.length).findSome? (fun k =>
    if t[k]? = some ' ' then
      match (g.nameOf (t.take k)).bind stripFirst, (g.nameOf (t.drop (k + 1))).bind stripFirst with
      | some old, some new => if old = new then some new else none
      | _, _ => none
    else none)).map (Found.mk l)

def Reading.fresh (l : Text) : Mode × List Found :=
  if g.opens l then (.hunk,[])
  else if startsWith "diff --git " l then (.headers (g.gitFile l) false false,[])
  else if startsWith "+++ " l then (.loose,g.sideFile l)
  else (.loose,[])

def Mode.due : Mode → List Found
  | .headers file true false => file.toList
  | _ => []

def Reading.step (m : Mode) (l : Text) : Mode × List Found :=
  if startsWith "--- " l then (.loose,g.sideFile l)
  else match m with
    | .loose => g.fresh l
    | .hunk => if marked l then (.hunk,[]) else g.fresh l
    | .headers file change renamed =>
      if isMove l then (.headers file change true,g.moved l)
      else if isChange l then (.headers file true renamed,[])
      else if isRemark l then (.headers file change renamed,[])
      else ((g.fresh l).1,m.due ++ (g.fresh l).2)

def Reading.after (m : Mode) (ls : List Text) : Mode := ls.foldl (fun m l => (g.step m l).1) m

def Reading.shown (m : Mode) (ls : List Text) : List Found := match ls with
  | [] => []
  | l :: ls => (g.step m l).2 ++ Reading.shown (g.step m l).1 ls

def Reading.files (m : Mode) (ls : List Text) : List Found := g.shown m ls ++ (g.after m ls).due

def documented (unquote : Text → Option Text) : Reading := ⟨unquote,startsWith "@@ -"⟩

variable {g : Reading} {m m' : Mode} {l : Text} {ls ls' : List Text}

theorem startsWith_iff {lit : String} : startsWith lit l = true ↔ ∃ rest, l = lit.toList ++ rest := by
  rw [startsWith,List.isPrefixOf_iff_prefix]
  exact ⟨fun ⟨rest,h⟩ => ⟨rest,h.symm⟩,fun ⟨rest,h⟩ => ⟨rest,h.symm⟩⟩

theorem startsWith_append {lit : String} {t : Text} (h : startsWith lit l = true) : startsWith lit (l ++ t) = true := by
  obtain ⟨rest,rfl⟩ := startsWith_iff.mp h
  exact startsWith_iff.mpr ⟨rest ++ t,append_assoc ..⟩

theorem shown_append (m : Mode) (ls ls' : List Text) :
    g.shown m (ls ++ ls') = g.shown m ls ++ g.shown (g.after m ls) ls' := by
  induction ls generalizing m with
  | nil => rfl
  | cons l ls ih => rw [List.cons_append,Reading.shown,ih,Reading.shown,append_assoc]; rfl

theorem after_append (m : Mode) (ls ls' : List Text) : g.after m (ls ++ ls') = g.after (g.after m ls) ls' :=
  List.foldl_append

theorem files_append (m : Mode) (ls ls' : List Text) :
    g.files m (ls ++ ls') = g.shown m ls ++ g.files (g.after m ls) ls' := by
  rw [Reading.files,shown_append,after_append,Reading.files,append_assoc]

theorem files_cons : g.files m (l :: ls) = (g.step m l).2 ++ g.files (g.step m l).1 ls := by
  rw [Reading.files,Reading.shown,Reading.files,append_assoc]
  rfl

theorem step_congr {g' : Reading} (hopens : g.opens l = g'.opens l) (hunquote : g.unquote = g'.unquote) :
    g.step m l = g'.step m l := by
  have hname : g.nameOf = g'.nameOf := by
    funext t
    simp only [Reading.nameOf,hunquote]
  have hside : g.sideFile l = g'.sideFile l := by simp only [Reading.sideFile,hname]
  have hmoved : g.moved l = g'.moved l := by simp only [Reading.moved,hname]
  have hgit : g.gitFile l = g'.gitFile l := by simp only [Reading.gitFile,hname]
  have hfresh : g.fresh l = g'.fresh l := by simp only [Reading.fresh,hopens,hgit,hside]
  simp only [Reading.step,hside,hmoved,hfresh]

theorem step_marked (hside : startsWith "--- " l = false) (h : marked l = true) : g.step .hunk l = (.hunk,[]) := by
  rw [Reading.step,hside,if_neg Bool.false_ne_true]
  exact if_pos h

def Reading.Header (g : Reading) (f : Found) : Prop :=
  (startsWith "--- " f.line = true ∨ startsWith "+++ " f.line = true) ∧ f ∈ g.sideFile f.line ∨
    isMove f.line = true ∧ f ∈ g.moved f.line

/-- The file that is kept for later is that of a `diff --git` line. -/
def Mode.Git (m : Mode) : Prop :=
  ∀ f change renamed, m = .headers (some f) change renamed → startsWith "diff --git " f.line = true

variable {f : Found}

theorem sideFile_line (h : f ∈ g.sideFile l) : f.line = l := by
  simp only [Reading.sideFile] at h
  split at h
  · split at h
    · exact absurd h not_mem_nil
    · obtain ⟨_,_,rfl⟩ := mem_map.mp h
      rfl
  · exact absurd h not_mem_nil

theorem moved_line (h : f ∈ g.moved l) : f.line = l := by
  simp only [Reading.moved] at h
  split at h
  · obtain ⟨_,_,rfl⟩ := mem_map.mp h
    rfl
  · exact absurd h not_mem_nil

theorem due_git (hm : m.Git) (h : f ∈ m.due) : startsWith "diff --git " f.line = true := by
  unfold Mode.due at h
  split at h
  · obtain rfl := Option.mem_toList.mp h
    exact hm f true false rfl
  · exact absurd h not_mem_nil

theorem fresh_git : (g.fresh l).1.Git := by
  intro f change renamed h
  simp only [Reading.fresh] at h
  split at h
  · cases h
  · split at h
    · rename_i hstart
      simp only [Mode.headers.injEq,Reading.gitFile,Option.map_eq_some_iff] at h
      obtain ⟨⟨_,_,rfl⟩,_⟩ := h
      exact hstart
    · split at h <;> cases h

theorem fresh_header (h : f ∈ (g.fresh l).2) : f.line = l ∧ g.Header f := by
  simp only [Reading.fresh] at h
  split at h
  · exact absurd h not_mem_nil
  · split at h
    · exact absurd h not_mem_nil
    · split at h
      · rename_i hstart
        obtain rfl := sideFile_line h
        exact ⟨rfl,.inl ⟨.inr hstart,h⟩⟩
      · exact absurd h not_mem_nil

theorem step_git (hm : m.Git) : (g.step m l).1.Git := by
  simp only [Reading.step]
  split
  · exact fun _ _ _ h => by cases h
  · cases m with
    | loose => exact fresh_git
    | hunk =>
      dsimp only
      split
      · exact fun _ _ _ h => by cases h
      · exact fresh_git
    | headers file change renamed =>
      have hfile : ∀ change' renamed', (Mode.headers file change' renamed').Git := by
        intro change' renamed' f _ _ h
        cases h
        exact hm f change renamed rfl
      dsimp only
      split
      · exact hfile _ _
      · split
        · exact hfile _ _
        · split
          · exact hfile _ _
          · exact fresh_git

theorem step_header (h : f ∈ (g.step m l).2) : f ∈ m.due ∨ f.line = l ∧ g.Header f := by
  simp only [Reading.step] at h
  split at h
  · rename_i hstart
    obtain rfl := sideFile_line h
    exact .inr ⟨rfl,.inl ⟨.inl hstart,h⟩⟩
  · cases m with
    | loose => exact .inr (fresh_header h)
    | hunk =>
      dsimp only at h
      split at h
      · exact absurd h not_mem_nil
      · exact .inr (fresh_header h)
    | headers file change renamed =>
      dsimp only at h
      split at h
      · rename_i hmove
        obtain rfl := moved_line h
        exact .inr ⟨rfl,.inr ⟨hmove,h⟩⟩
      · split at h
        · exact absurd h not_mem_nil
        · split at h
          · exact absurd h not_mem_nil
          · exact (List.mem_append.mp h).imp_right fresh_header

theorem after_git (hm : m.Git) : (g.after m ls).Git := by
  induction ls generalizing m with
  | nil => exact hm
  | cons l ls ih => exact ih (step_git hm)

/-- A file is that of a header among the lines, unless a `diff --git` line has named it. -/
theorem shown_header (hm : m.Git) (h : f ∈ g.shown m ls) :
    startsWith "diff --git " f.line = true ∨ f.line ∈ ls ∧ g.Header f := by
  induction ls generalizing m with
  | nil => exact absurd h not_mem_nil
  | cons l ls ih =>
    rcases List.mem_append.mp h with h | h
    · rcases step_header h with hdue | ⟨hline,hown⟩
      · exact .inl (due_git hm hdue)
      · exact .inr ⟨hline ▸ List.mem_cons_self,hown⟩
    · exact (ih (step_git hm) h).imp_right fun ⟨hmem,h⟩ => ⟨List.mem_cons_of_mem _ hmem,h⟩

end Verdict.GitPatch

import Verdict.Patch.Located
import Verdict.Patch.Plain

/-! # The boundary of a unit

What `git apply` reads in the diff it is handed, set against what `_apply_diff_reply` has
checked: the sections of the extracted diff, as they stay or are rewritten, name the files of
the diff that is handed over.
-/
namespace Verdict.Patch
open GitPatch Path WorkUnit Raising
open List (cons_append map_append mem_append mem_cons_self mem_map nil_append)
open Reading (fresh nameOf step)

variable (literalEval : Text → Literal) (unquote : Text → Option Text) (tree : Tree)

def pathLine (sec : Section) : Text := match diffSectionPath literalEval sec.new with
  | .ok (some (_ :: _)) => "+++ ".toList ++ sec.new
  | _ => "--- ".toList ++ sec.old

def newFiles (sec : Section) (path : Text) : List Found :=
  ((eager unquote).sideFile ("+++ b/".toList ++ path)).map fun f => ⟨pathLine literalEval sec,f.name⟩

def sectionFiles (m : Mode) (secs : List Section) : List Found := match secs with
  | [] => m.due
  | sec :: rest => match rewrites literalEval tree sec with
    | .ok (some path) => newFiles literalEval unquote sec path ++ sectionFiles .hunk rest
    | _ => (eager unquote).shown m sec.lines ++ sectionFiles ((eager unquote).after m sec.lines) rest

def diffFiles (diff : Diff) : List Found :=
  (eager unquote).shown .loose (sections diff).1 ++
    sectionFiles literalEval unquote tree ((eager unquote).after .loose (sections diff).1) (sections diff).2

def replyFiles (content : Text) : List Found := match extractDiff content with
  | .ok diff => diffFiles literalEval unquote tree diff
  | .error _ => []

/-- The header of a section that is rewritten is one line, without an unnumbered `@@`. -/
def wholePath (sec : Section) : Bool := match rewrites literalEval tree sec with
  | .ok (some path) => decide ('\n' ∉ path) && !hasBare ("+++ b/".toList ++ path)
  | _ => true

/-- In the diff with its new files rewritten, no `@@` that is numbered shares its line. -/
def whole (diff : Diff) : Bool := (sections diff).2.all (wholePath literalEval tree) &&
  match repairNewFileDiff literalEval tree diff with
  | .ok repaired => numbersLines tree {} true (repaired.flatMap pieces)
  | .error _ => true

def wholeReply (content : Text) : Bool := match extractDiff content with
  | .ok diff => whole literalEval tree diff
  | .error _ => true

variable {literalEval : Text → Literal} {unquote : Text → Option Text} {tree : Tree} {diff : Diff} {secs : List Section}
  {sec : Section} {l t : Text} {m : Mode} {ls : List Text} {n : ℕ}

theorem sideField_line {word : String} (h : sideField word l = some t) : word.toList ++ t = l := by
  simp only [sideField,expect] at h
  split at h
  · rename_i c rest hrest
    cases h
    split at hrest
    · rename_i hstart
      obtain ⟨u,rfl⟩ := startsWith_iff.mp hstart
      rw [← String.length_toList,List.drop_left] at hrest
      rw [Option.some.inj hrest]
    · cases hrest
  · cases h

theorem sections_join (diff : Diff) : (sections diff).1 ++ (sections diff).2.flatMap Section.lines = diff := by
  induction diff using sections.induct with
  | case1 a b rest old new hold hnew ih =>
    rw [sections,hold,hnew]
    simp only [nil_append,List.flatMap_cons,Section.lines,cons_append,ih,sideField_line hold,sideField_line hnew]
  | case2 a b rest hno ih =>
    have heq : sections (a :: b :: rest) = (a :: (sections (b :: rest)).1,(sections (b :: rest)).2) := by
      rw [sections]
      split
      · rename_i old new hold hnew
        exact absurd hnew (hno old new hold)
      · rfl
    rw [heq,cons_append,ih]
  | case3 ls hno =>
    have heq : sections ls = (ls,[]) := by
      rw [sections.eq_def]
      split
      · rename_i a b rest
        exact absurd rfl (hno a b rest)
      · rfl
    rw [heq]
    exact List.append_nil ls

theorem lines_one (h : '\n' ∉ t) : lines t = [t] := List.splitOn_eq_singleton h

variable {path : Text}

theorem newFileHeader_one (hpath : '\n' ∉ path) : newFileHeader path = ["+++ b/".toList ++ path] :=
  lines_one (by
    rw [mem_append,not_or]
    exact ⟨by decide +kernel,hpath⟩)

variable {g : Reading}

theorem files_additions (added ls : List Text) :
    g.files .hunk (added.map (fun t => '+' :: t) ++ ls) = g.files .hunk ls := by
  induction added with
  | nil => rfl
  | cons t added ih => rw [List.map_cons,cons_append,files_cons,step_content mem_cons_self,ih,nil_append]

theorem newFile_files {body : List Text} (hpath : '\n' ∉ path)
    (hbare : hasBare ("+++ b/".toList ++ path) = false) (ls : List Text) : (eager unquote).files m
    (newFileLines path body ++ ls) = (eager unquote).sideFile ("+++ b/".toList ++ path) ++
    (eager unquote).files .hunk ls := by
  have hold : (eager unquote).step m "--- /dev/null".toList = (.loose,[]) := by
    have hname : (eager unquote).sideFile "--- /dev/null".toList = [] := by rfl
    unfold step
    rw [if_pos (by decide +kernel),hname]
  have hnew : (eager unquote).step .loose ("+++ b/".toList ++ path) =
      (.loose,(eager unquote).sideFile ("+++ b/".toList ++ path)) := by
    have hopens : (eager unquote).opens ("+++ b/".toList ++ path) = false := by
      simp only [eager,hbare,Bool.or_false]
      rfl
    have hside : startsWith "--- " ("+++ b/".toList ++ path) = false := rfl
    have hgit : startsWith "diff --git " ("+++ b/".toList ++ path) = false := rfl
    have hplus : startsWith "+++ " ("+++ b/".toList ++ path) = true := rfl
    simp only [step,fresh,hopens,hside,hgit,hplus,Bool.false_eq_true,if_false,if_true]
  have hhunk : ∀ n, (eager unquote).step .loose ("@@ -0,0 +1,".toList ++ n ++ " @@".toList) = (.hunk,[]) := by
    intro n
    have hopens : (eager unquote).opens ("@@ -0,0 +1,".toList ++ n ++ " @@".toList) = true := by
      simp only [eager,startsWith_newHeader,Bool.true_or]
    have hside : startsWith "--- " ("@@ -0,0 +1,".toList ++ n ++ " @@".toList) = false := rfl
    simp only [step,fresh,hopens,hside,Bool.false_eq_true,if_false,if_true]
  rw [newFileLines,newFileHeader_one hpath]
  simp only [cons_append,nil_append]
  rw [files_cons,hold,files_cons,hnew,files_cons,hhunk,files_additions,nil_append,nil_append]

/-- What is handed on by `repair_new_file_diff` names the files of the sections. -/
theorem repairSections_files {parts : List (List Text)} (hpaths : ∀ sec ∈ secs, wholePath literalEval tree sec = true)
    (h : secs.mapM (repairSection literalEval tree) = .ok parts) :
    ((eager unquote).files m parts.flatten).map Found.name = (sectionFiles literalEval unquote tree m secs).map Found.name := by
  induction secs generalizing m parts with
  | nil =>
    cases h
    rfl
  | cons sec secs ih =>
    rw [List.mapM_cons] at h
    obtain ⟨part,hpart,h⟩ := bind_ok.mp h
    obtain ⟨parts,hparts,h⟩ := bind_ok.mp h
    cases h
    obtain ⟨hpath,hpaths⟩ := List.forall_mem_cons.mp hpaths
    obtain ⟨path,hrewrites,hpart⟩ := map_ok.mp hpart
    rw [List.flatten_cons,← hpart,sectionFiles,hrewrites]
    cases path with
    | none => rw [files_append,map_append,ih hpaths hparts,map_append]
    | some path =>
      obtain ⟨hnl,hheader⟩ : '\n' ∉ path ∧ hasBare ("+++ b/".toList ++ path) = false := by
        simpa [wholePath,hrewrites] using hpath
      rw [newFile_files hnl hheader,map_append,ih hpaths hparts,map_append,newFiles,List.map_map]
      rfl

theorem mem_sections (h : sec ∈ (sections diff).2) (hl : l ∈ sec.lines) : l ∈ diff := by
  rw [← sections_join diff]
  exact List.mem_append_right _ (List.mem_flatMap.mpr ⟨sec,h,hl⟩)

theorem mem_before (hl : l ∈ (sections diff).1) : l ∈ diff := by
  rw [← sections_join diff]
  exact List.mem_append_left _ hl

variable {located : Diff}

theorem handed_files {repaired : Diff} (hwhole : whole literalEval tree diff = true)
    (hrepair : repairNewFileDiff literalEval tree diff = .ok repaired) (hlocate : repairBareHunks tree repaired = .ok located) :
    ((documented unquote).files .loose located).map Found.name = (diffFiles literalEval unquote tree diff).map Found.name := by
  simp only [whole,hrepair,Bool.and_eq_true] at hwhole
  obtain ⟨hpaths,hlines⟩ := hwhole
  obtain ⟨parts,hparts,rfl⟩ := map_ok.mp hrepair
  obtain ⟨out,hloop,rfl⟩ := map_ok.mp hlocate
  have hfiles : ((eager unquote).files ((eager unquote).after .loose (sections diff).1) parts.flatten).map Found.name = _ :=
    repairSections_files (List.all_eq_true.mp hpaths) hparts
  have hrun : (documented unquote).files .loose (regroup out) = (eager unquote).files .loose ((sections diff).1 ++ parts.flatten) :=
    bareLoop_files hlines (fun hpos => absurd hpos (Nat.lt_irrefl 0)) (fun p hp => absurd hp (by simp)) hloop
  rw [hrun,files_append,map_append,hfiles,diffFiles,map_append]

theorem exists_path {path' : Text} (h : (match tree.exists? path' with
    | .ok true => .ok none
    | .ok false => .ok (some path')
    | .error _ => .error .raised : Except Stop (Option Text)) = .ok (some path)) : path = path' := by
  split at h
  · cases h
  · cases h
    rfl
  · cases h

theorem rewrites_path {p : Text} (hpath : rewrites literalEval tree sec = .ok (some path))
    (h : diffSectionPath literalEval ((pathLine literalEval sec).drop 4) = .ok (some p)) : path = p := by
  simp only [rewrites] at hpath
  split at hpath
  · cases hpath
  · rename_i source hsource
    split at hpath
    · cases hpath
    · rename_i dest hdest
      by_cases hnone : dest = none ∨ dest = some []
      · have hline : pathLine literalEval sec = "--- ".toList ++ sec.old := by
          rw [pathLine,hdest]
          rcases hnone with rfl | rfl <;> rfl
        rw [hline] at h
        have hsome : source = some p := Except.ok.inj (hsource.symm.trans h)
        rw [if_pos hnone,hsome] at hpath
        exact exists_path hpath
      · rw [if_neg hnone] at hpath
        cases dest with
        | none => exact absurd (.inl rfl) hnone
        | some text =>
          cases text with
          | nil => exact absurd (.inr rfl) hnone
          | cons c text =>
            have hline : pathLine literalEval sec = "+++ ".toList ++ sec.new := by rw [pathLine,hdest]
            rw [hline] at h
            have hsome : some (c :: text) = some p := Except.ok.inj (hdest.symm.trans h)
            rw [hsome] at hpath
            split at hpath
            · rename_i path' hboth
              cases hboth
              exact exists_path hpath
            · cases hpath

theorem pathLine_side (literalEval : Text → Literal) (sec : Section) :
    (startsWith "--- " (pathLine literalEval sec) = true ∨ startsWith "+++ " (pathLine literalEval sec) = true) ∧
      pathLine literalEval sec ∈ sec.lines := by
  rw [pathLine]
  split
  · exact ⟨.inr rfl,List.mem_cons_of_mem _ mem_cons_self⟩
  · exact ⟨.inl rfl,mem_cons_self⟩

theorem sideFile_new (htab : '\t' ∉ path) (hreturn : '\r' ∉ path) :
    g.sideFile ("+++ b/".toList ++ path) = [⟨"+++ b/".toList ++ path,path⟩] := by
  have hdrop : ("+++ b/".toList ++ path).drop 4 = 'b' :: '/' :: path := rfl
  have hfield : field ('b' :: '/' :: path) = 'b' :: '/' :: path := by
    refine List.takeWhile_eq_self_iff.mpr fun c hc => ?_
    have hc : c = 'b' ∨ c = '/' ∨ c ∈ path := by simpa using hc
    rcases hc with rfl | rfl | hc
    · decide
    · decide
    · exact decide_eq_true ⟨fun he => htab (he ▸ hc),fun he => hreturn (he ▸ hc)⟩
  have hname : g.nameOf ('b' :: '/' :: path) = some ('b' :: '/' :: path) := by
    rw [nameOf,if_neg (by simp),hfield]
  simp only [Reading.sideFile,hdrop,hname]
  have hdev : 'b' :: '/' :: path ≠ devNull := ne_devNull (by decide) _
  rw [if_neg (by exact hdev)]
  rfl

variable {u : WorkUnit} {paths : List Text} {f : Found}

theorem newFiles_owned (hparse : parsePatchPaths literalEval diff = .ok paths) (howned : ∀ p ∈ paths, u.owns p = true)
    (hsec : sec ∈ (sections diff).2) (hpath : rewrites literalEval tree sec = .ok (some path))
    (hf : f ∈ newFiles literalEval unquote sec path) (h : plain f.line = true) : u.Owned f.name := by
  obtain ⟨f',hf',rfl⟩ := mem_map.mp hf
  dsimp only at h ⊢
  obtain ⟨hside,hmem⟩ := pathLine_side literalEval sec
  obtain ⟨p,hp,hread,-,hsource,htab⟩ := side_read literalEval (eager unquote) hside h
  obtain rfl := rewrites_path hpath hsource
  rw [sideFile_new htab hp.noReturn,List.mem_singleton] at hf'
  rw [hf']
  exact hp.owned (howned path (hread diff paths hparse (mem_sections hsec hmem)))

theorem plain_git (h : plain l = true) : startsWith "diff --git " l = false := by
  by_contra hstart
  obtain ⟨x,rfl⟩ := startsWith_iff.mp (eq_true_of_ne_false hstart)
  have hplain : plain ("diff --git ".toList ++ x) = false := rfl
  rw [hplain] at h
  cases h

theorem diffFiles_owned (hparse : parsePatchPaths literalEval diff = .ok paths) (howned : ∀ p ∈ paths, u.owns p = true)
    (hf : f ∈ diffFiles literalEval unquote tree diff) (h : plain f.line = true) : u.Owned f.name := by
  have hgit : startsWith "diff --git " f.line = false := plain_git h
  have hshown : ∀ m : Mode, m.Git → ∀ ls, (∀ l ∈ ls, l ∈ diff) → f ∈ (eager unquote).shown m ls → u.Owned f.name := by
    intro m hm ls hls hf
    rcases shown_header hm hf with hline | ⟨hmem,hheader⟩
    · rw [hgit] at hline
      cases hline
    · exact plain_owned hparse howned (hls _ hmem) hheader h
  have hsections : ∀ secs m, (∀ sec ∈ secs, sec ∈ (sections diff).2) → m.Git →
      f ∈ sectionFiles literalEval unquote tree m secs → u.Owned f.name := by
    intro secs
    induction secs with
    | nil =>
      intro m _ hm hf
      rw [due_git hm hf] at hgit
      cases hgit
    | cons sec secs ih =>
      intro m hmem hm hf
      obtain ⟨hsec,hmem⟩ := List.forall_mem_cons.mp hmem
      rw [sectionFiles] at hf
      split at hf
      · rename_i path hpath
        rcases mem_append.mp hf with hf | hf
        · exact newFiles_owned hparse howned hsec hpath hf h
        · exact ih .hunk hmem (fun _ _ _ he => by cases he) hf
      · rcases mem_append.mp hf with hf | hf
        · exact hshown m hm sec.lines (fun l hl => mem_sections hsec hl) hf
        · exact ih _ hmem (after_git hm) hf
  have hloose : Mode.Git .loose := fun _ _ _ he => by cases he
  rcases mem_append.mp hf with hf | hf
  · exact hshown .loose hloose _ (fun l hl => mem_before hl) hf
  · exact hsections _ _ (fun sec hsec => hsec) (after_git hloose) hf

theorem handed_steps {content : Text}
    (h : applyDiffReply literalEval tree u content = .handed located paths) : ∃ diff repaired, extractDiff
    content = .ok diff ∧ parsePatchPaths literalEval diff = .ok paths ∧ (∀ p ∈ paths, u.owns p = true) ∧
    repairNewFileDiff literalEval tree diff = .ok repaired ∧ repairBareHunks tree repaired = .ok located :=
    by
  have hending : ∀ e, ending e ≠ .handed located paths := fun e he => by cases e <;> cases he
  simp only [applyDiffReply] at h
  split at h
  · cases h
  · rename_i diff hextract
    split at h
    · exact absurd h (hending _)
    · rename_i parsed hparse
      split at h
      · cases h
      · rename_i hbounds
        split at h
        · exact absurd h (hending _)
        · rename_i repaired hrepair
          split at h
          · exact absurd h (hending _)
          · rename_i hlocate
            cases h
            exact ⟨diff,repaired,hextract,hparse,outOfBounds_nil.mp (not_not.mp hbounds),hrepair,hlocate⟩

def oneFile : WorkUnit := ⟨"u",["src/a.py".toList],["src/a.py".toList],by decide +kernel⟩

def oneTree : Tree := ⟨fun path => .ok (path = "src/a.py".toList),fun _ => .ok "x = 1\n".toList⟩

def emptyTree : Tree := ⟨fun _ => .ok false,fun _ => .error .raised⟩

end Verdict.Patch

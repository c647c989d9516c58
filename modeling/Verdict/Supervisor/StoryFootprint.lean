import Mathlib.Data.Finset.Lattice.Fold
import Verdict.Contracts.Path

/-! # Story footprints

`collide` decides whether two stories may run at the same time. Literal, directory and
glob entries give nine pairings. It decides six of them; an entry without a trailing slash
above another entry, a directory against a glob and a glob against a glob get past it.
Case folding is the parameter `lower`.
-/
namespace Verdict.StoryFootprint
open Path (replaceBackslash goodPart dirPrefix)

inductive CollisionVerdict
  | parallel | serialize
  deriving DecidableEq

inductive CollisionReason
  | disjoint | sameFile | globOverlap | sameAuthority | unknownFootprint | invalidPath | directoryOverlap
  deriving DecidableEq

section

/-- A token of a shell pattern, as `fnmatch.translate` reads it. -/
inductive GlobToken
  | star
  | any
  | literal (c : Char)
  | oneOf (negated : Bool) (ranges : List (Char × Char))

def classRanges : List Char → List (Char × Char)
  | x :: '-' :: y :: rest => (x,y) :: classRanges rest
  | x :: rest => (x,x) :: classRanges rest
  | [] => []

/-- The bracket expression after a `[`, with the number of characters it takes. A first
`]` belongs to it; without a closing bracket there is none. -/
def bracket (cs : List Char) : Option (GlobToken × ℕ) :=
  let negated : Bool := cs.head? = some '!'
  let body := if negated then cs.tail else cs
  let lead := if body.head? = some ']' then 1 else 0
  let inner := (body.drop lead).takeWhile (· ≠ ']')
  if inner.length = (body.drop lead).length then none
  else some (.oneOf negated (classRanges (body.take lead ++ inner)),
    (if negated then 1 else 0) + lead + inner.length + 1)

/-- The tokens of a pattern, after `skip` characters that a bracket expression has taken. -/
def globTokens : ℕ → List Char → List GlobToken
  | _,[] => []
  | skip + 1,_ :: cs => globTokens skip cs
  | 0,c :: cs =>
    if c = '*' then .star :: globTokens 0 cs
    else if c = '?' then .any :: globTokens 0 cs
    else if c = '[' then match bracket cs with
      | some (token,taken) => token :: globTokens taken cs
      | none => .literal '[' :: globTokens 0 cs
    else .literal c :: globTokens 0 cs

def GlobToken.accepts (c : Char) : GlobToken → Bool
  | .star => true
  | .any => true
  | .literal d => c = d
  | .oneOf negated ranges => (ranges.any fun r => r.1 ≤ c && c ≤ r.2) != negated

def matchTokens : List GlobToken → List Char → Bool
  | [],cs => cs.isEmpty
  | .star :: ts,cs => cs.tails.any (matchTokens ts)
  | _ :: _,[] => false
  | t :: ts,c :: cs => t.accepts c && matchTokens ts cs

/-- `fnmatch.fnmatch(name, pattern)`. -/
def fnmatch (name pattern : String) : Bool := matchTokens (globTokens 0 pattern.toList) name.toList

end

section

/-- One component of the loop in `posixpath.normpath`; the last component comes first. -/
def normStep (rooted : Bool) (done : List (List Char)) (comp : List Char) : List (List Char) :=
  if comp = [] ∨ comp = ['.'] then done
  else if comp ≠ ['.','.'] ∨ (rooted = false ∧ done = []) ∨ done.head? = some ['.','.'] then comp :: done
  else done.tail

/-- The leading slashes that `normpath` keeps: two stay two, more become one. -/
def initialSlashes : List Char → ℕ
  | '/' :: '/' :: '/' :: _ => 1
  | '/' :: '/' :: _ => 2
  | '/' :: _ => 1
  | _ => 0

/-- `posixpath.normpath`. -/
def normpath (path : List Char) : List Char :=
  let slashes := initialSlashes path
  let comps := ((path.splitOn '/').foldl (normStep (slashes != 0)) []).reverse
  let text := List.replicate slashes '/' ++ ['/'].intercalate comps
  if text = [] then ['.'] else text

def normalizePath (raw : String) : String :=
  let p := normpath (replaceBackslash raw.toList)
  if p = ['.'] then "" else String.ofList p

def isInvalid (normalized : String) : Bool :=
  normalized = "" || normalized.toList.head? = some '/' || normalized = ".." || ['.','.','/'].isPrefixOf normalized.toList

def isGlob (pattern : String) : Bool := pattern.toList.any fun c => c = '*' || c = '?' || c = '['

/-- A trailing slash, before any blanks. -/
def isDirectoryEntry (raw : String) : Bool :=
  ((replaceBackslash raw.toList).reverse.dropWhile (· = ' ')).head? = some '/'

end

/-- `StoryFootprintV1`. -/
structure Footprint where
  storyId : String
  writePaths : Finset String := ∅
  authorities : Finset String := ∅

def Footprint.isKnown (f : Footprint) : Bool := f.writePaths ≠ ∅

section
variable (lower : String → String)

def entry (raw : String) : String := lower (normalizePath raw)

variable (raw : Finset String)

/-- The first two results of `_prepare_paths`, when there is no invalid path. -/
def preparedPaths : Finset String × Finset String :=
  (raw.image (entry lower),(raw.filter fun p => isDirectoryEntry p).image (entry lower))

def hasInvalid : Bool := ∃ p ∈ raw, isInvalid (normalizePath p)

def inDirectory (dirs paths : Finset String) : Bool := ∃ d ∈ dirs, ∃ p ∈ paths, dirPrefix d p ∨ p = d

def pathsOverlap (pathsA pathsB dirsA dirsB : Finset String) : Option CollisionReason :=
  if pathsA ∩ pathsB ≠ ∅ then some .sameFile
  else if inDirectory dirsA pathsB then some .directoryOverlap
  else if inDirectory dirsB pathsA then some .directoryOverlap
  else if ∃ pa ∈ pathsA, ∃ pb ∈ pathsB, (isGlob pa ∧ fnmatch pb pa) ∨ (isGlob pb ∧ fnmatch pa pb)
      ∨ (isGlob pa ∧ isGlob pb ∧ (fnmatch pa pb ∨ fnmatch pb pa)) then some .globOverlap
  else none

def authoritiesOverlap (authA authB : Finset String) : Option CollisionReason :=
  if authA ∩ authB ≠ ∅ then some .sameAuthority else none

def collide (a b : Footprint) : CollisionVerdict × CollisionReason :=
  if !a.isKnown || !b.isKnown then (.serialize,.unknownFootprint)
  else if hasInvalid a.writePaths || hasInvalid b.writePaths then (.serialize,.invalidPath)
  else
    let (pathsA,dirsA) := preparedPaths lower a.writePaths
    let (pathsB,dirsB) := preparedPaths lower b.writePaths
    match authoritiesOverlap a.authorities b.authorities with
    | some reason => (.serialize,reason)
    | none => match pathsOverlap pathsA pathsB dirsA dirsB with
      | some reason => (.serialize,reason)
      | none => (.parallel,.disjoint)

end
theorem inDirectory_iff {dirs paths : Finset String} :
    inDirectory dirs paths = true ↔ ∃ d ∈ dirs, ∃ p ∈ paths, dirPrefix d p ∨ p = d := by
  simp [inDirectory]

theorem authoritiesOverlap_comm (x y : Finset String) : authoritiesOverlap x y = authoritiesOverlap y x := by
  unfold authoritiesOverlap
  rw [Finset.inter_comm]

theorem pathsOverlap_comm (pathsA pathsB dirsA dirsB : Finset String) :
    pathsOverlap pathsA pathsB dirsA dirsB = pathsOverlap pathsB pathsA dirsB dirsA := by
  have hglob : (∃ pa ∈ pathsA, ∃ pb ∈ pathsB, (isGlob pa ∧ fnmatch pb pa) ∨ (isGlob pb ∧ fnmatch pa pb)
      ∨ (isGlob pa ∧ isGlob pb ∧ (fnmatch pa pb ∨ fnmatch pb pa))) ↔
      ∃ pb ∈ pathsB, ∃ pa ∈ pathsA, (isGlob pb ∧ fnmatch pa pb) ∨ (isGlob pa ∧ fnmatch pb pa)
        ∨ (isGlob pb ∧ isGlob pa ∧ (fnmatch pb pa ∨ fnmatch pa pb)) := by
    constructor
    · rintro ⟨pa,ha,pb,hb,h⟩
      exact ⟨pb,hb,pa,ha,by tauto⟩
    · rintro ⟨pb,hb,pa,ha,h⟩
      exact ⟨pa,ha,pb,hb,by tauto⟩
  unfold pathsOverlap
  rw [Finset.inter_comm pathsA pathsB]
  by_cases hA : inDirectory dirsA pathsB = true
  · simp [hA]
  · by_cases hB : inDirectory dirsB pathsA = true
    · simp [hB]
    · simp only [hA,hB,if_false,hglob,Bool.false_eq_true]

theorem collide_comm (lower : String → String) (a b : Footprint) : collide lower a b = collide lower b a := by
  simp only [collide,preparedPaths]
  rw [Bool.or_comm (!a.isKnown),Bool.or_comm (hasInvalid a.writePaths),authoritiesOverlap_comm,
    pathsOverlap_comm (a.writePaths.image (entry lower))]

def RepoPath (path : String) : Prop := (path.toList.splitOn '/').all goodPart = true

section
variable (lower : String → String)

def covers (e path : String) : Prop :=
  lower path = e ∨ dirPrefix e (lower path) ∨ (isGlob e = true ∧ fnmatch (lower path) e = true)

def ShareNoPath (a b : Footprint) : Prop :=
  ∀ path, RepoPath path → ¬ ((∃ x ∈ a.writePaths, covers lower (entry lower x) path) ∧
    ∃ y ∈ b.writePaths, covers lower (entry lower y) path)

/-- A pairing that the checks see: equal entries, an entry with a trailing slash above
another one, or a glob that matches the text of another one. -/
def Seen (x y : String) : Prop :=
  entry lower x = entry lower y ∨ (isDirectoryEntry x = true ∧ dirPrefix (entry lower x) (entry lower y)) ∨
    (isGlob (entry lower x) = true ∧ fnmatch (entry lower y) (entry lower x) = true)

/-- A pairing with a common path that no check looks for: an entry without a trailing slash
above another one, a directory against a glob, or two globs. -/
def Unseen (x y : String) : Prop :=
  (isDirectoryEntry x = false ∧ dirPrefix (entry lower x) (entry lower y)) ∨
    ∃ path, RepoPath path ∧ isGlob (entry lower y) = true ∧ fnmatch (lower path) (entry lower y) = true ∧
      (dirPrefix (entry lower x) (lower path) ∨
        (isGlob (entry lower x) = true ∧ fnmatch (lower path) (entry lower x) = true))

def Serialized (a b : Footprint) : Prop :=
  a.writePaths = ∅ ∨ b.writePaths = ∅ ∨ (∃ x ∈ a.writePaths ∪ b.writePaths, isInvalid (normalizePath x) = true) ∨
    (∃ x, x ∈ a.authorities ∧ x ∈ b.authorities) ∨
    ∃ x ∈ a.writePaths, ∃ y ∈ b.writePaths, Seen lower x y ∨ Seen lower y x

end
section Parallel
variable {lower : String → String}

theorem pathsOverlap_eq_none {pathsA pathsB dirsA dirsB : Finset String} :
    pathsOverlap pathsA pathsB dirsA dirsB = none ↔ pathsA ∩ pathsB = ∅ ∧ inDirectory dirsA pathsB = false ∧
      inDirectory dirsB pathsA = false ∧ ∀ pa ∈ pathsA, ∀ pb ∈ pathsB,
        ¬ (isGlob pa = true ∧ fnmatch pb pa = true) ∧ ¬ (isGlob pb = true ∧ fnmatch pa pb = true) := by
  unfold pathsOverlap
  split
  · rename_i h
    simp [h]
  · rename_i hsame
    split
    · rename_i h
      simp [h]
    · rename_i hA
      split
      · rename_i h
        simp [h]
      · rename_i hB
        split
        · rename_i hglob
          obtain ⟨pa,ha,pb,hb,h⟩ := hglob
          simp only [reduceCtorEq,false_iff]
          rintro ⟨-,-,-,hnone⟩
          have hpair := hnone pa ha pb hb
          tauto
        · rename_i hglob
          simp only [true_iff]
          refine ⟨not_not.mp hsame,by simpa using hA,by simpa using hB,fun pa ha pb hb => ⟨fun h => ?_,fun h => ?_⟩⟩
          · exact hglob ⟨pa,ha,pb,hb,.inl h⟩
          · exact hglob ⟨pa,ha,pb,hb,.inr (.inl h)⟩

variable (A B : Finset String)

theorem preparedPaths_disjoint :
    (preparedPaths lower A).1 ∩ (preparedPaths lower B).1 = ∅ ↔ ∀ x ∈ A, ∀ y ∈ B, entry lower x ≠ entry lower y := by
  simp only [preparedPaths,Finset.eq_empty_iff_forall_notMem,Finset.mem_inter,Finset.mem_image]
  constructor
  · intro h x hx y hy heq
    exact h (entry lower x) ⟨⟨x,hx,rfl⟩,y,hy,heq.symm⟩
  · rintro h e ⟨⟨x,hx,rfl⟩,y,hy,heq⟩
    exact h x hx y hy heq.symm

theorem inDirectory_prepared : inDirectory (preparedPaths lower A).2
    (preparedPaths lower B).1 = false ↔ ∀ x ∈ A, ∀ y ∈ B, isDirectoryEntry x = true → ¬
    (dirPrefix (entry lower x) (entry lower y) ∨ entry lower y = entry lower x) := by
  rw [← Bool.not_eq_true,inDirectory_iff]
  simp only [preparedPaths,Finset.mem_image,Finset.mem_filter]
  constructor
  · intro h x hx y hy hdir hin
    exact h ⟨_,⟨x,⟨hx,hdir⟩,rfl⟩,_,⟨y,hy,rfl⟩,hin⟩
  · rintro h ⟨_,⟨x,⟨hx,hdir⟩,rfl⟩,_,⟨y,hy,rfl⟩,hin⟩
    exact h x hx y hy hdir hin

theorem pathsOverlap_prepared_eq_none (A B : Finset String) : pathsOverlap (preparedPaths lower A).1
    (preparedPaths lower B).1 (preparedPaths lower A).2 (preparedPaths lower B).2 = none ↔ ∀ x ∈ A, ∀ y ∈ B,
    ¬ Seen lower x y ∧ ¬ Seen lower y x := by
  rw [pathsOverlap_eq_none,preparedPaths_disjoint,inDirectory_prepared,inDirectory_prepared]
  constructor
  · rintro ⟨hsame,hA,hB,hglob⟩ x hx y hy
    have hpair := hglob _ (Finset.mem_image_of_mem _ hx) _ (Finset.mem_image_of_mem _ hy)
    refine ⟨?_,?_⟩
    · rintro (heq | ⟨hdir,hpre⟩ | hmatch)
      · exact hsame x hx y hy heq
      · exact hA x hx y hy hdir (.inl hpre)
      · exact hpair.1 hmatch
    · rintro (heq | ⟨hdir,hpre⟩ | hmatch)
      · exact hsame x hx y hy heq.symm
      · exact hB y hy x hx hdir (.inl hpre)
      · exact hpair.2 hmatch
  · intro h
    refine ⟨fun x hx y hy heq => (h x hx y hy).1 (.inl heq),?_,?_,?_⟩
    · rintro x hx y hy hdir (hpre | heq)
      · exact (h x hx y hy).1 (.inr (.inl ⟨hdir,hpre⟩))
      · exact (h x hx y hy).2 (.inl heq)
    · rintro y hy x hx hdir (hpre | heq)
      · exact (h x hx y hy).2 (.inr (.inl ⟨hdir,hpre⟩))
      · exact (h x hx y hy).1 (.inl heq)
    · intro pa ha pb hb
      obtain ⟨x,hx,rfl⟩ := Finset.mem_image.mp ha
      obtain ⟨y,hy,rfl⟩ := Finset.mem_image.mp hb
      exact ⟨fun hmatch => (h x hx y hy).1 (.inr (.inr hmatch)),fun hmatch => (h x hx y hy).2 (.inr (.inr hmatch))⟩

theorem collide_parallel_iff (a b : Footprint) :
    (collide lower a b).1 = .parallel ↔ ¬ Serialized lower a b := by
  have hinvalid : (hasInvalid a.writePaths || hasInvalid b.writePaths) = true ↔
      ∃ x ∈ a.writePaths ∪ b.writePaths, isInvalid (normalizePath x) = true := by
    simp [hasInvalid,Finset.mem_union,or_and_right,exists_or]
  have hauth : authoritiesOverlap a.authorities b.authorities = none ↔ ¬ ∃ x, x ∈ a.authorities ∧ x ∈ b.authorities := by
    simp [authoritiesOverlap,Finset.eq_empty_iff_forall_notMem]
  unfold Serialized collide
  split
  · rename_i hunknown
    simp only [Footprint.isKnown,Bool.or_eq_true,Bool.not_eq_true',decide_eq_false_iff_not,not_not] at hunknown
    simp only [reduceCtorEq,false_iff,not_not]
    tauto
  · rename_i hknown
    simp only [Footprint.isKnown,Bool.or_eq_true,Bool.not_eq_true',decide_eq_false_iff_not,not_not,not_or] at hknown
    split
    · rename_i h
      simp only [reduceCtorEq,false_iff,not_not]
      exact .inr (.inr (.inl (hinvalid.mp h)))
    · rename_i hvalid
      rw [hinvalid] at hvalid
      cases hao : authoritiesOverlap a.authorities b.authorities with
      | some reason =>
        have hshared := mt hauth.mpr (by simp [hao])
        simp only [reduceCtorEq,false_iff,not_not]
        exact .inr (.inr (.inr (.inl (not_not.mp hshared))))
      | none =>
        have hseparate := hauth.mp hao
        have hpaths := @pathsOverlap_prepared_eq_none lower a.writePaths b.writePaths
        cases hpo : pathsOverlap (preparedPaths lower a.writePaths).1 (preparedPaths lower b.writePaths).1
            (preparedPaths lower a.writePaths).2 (preparedPaths lower b.writePaths).2 with
        | some reason =>
          have hseen : ¬ ∀ x ∈ a.writePaths, ∀ y ∈ b.writePaths, ¬ Seen lower x y ∧ ¬ Seen lower y x := by
            rw [← hpaths,hpo]
            simp
          push Not at hseen
          obtain ⟨x,hx,y,hy,hpair⟩ := hseen
          simp only [hpo,reduceCtorEq,false_iff,not_not]
          refine .inr (.inr (.inr (.inr ⟨x,hx,y,hy,?_⟩)))
          tauto
        | none =>
          have hunseen := hpaths.mp hpo
          simp only [hpo,true_iff]
          rintro (h | h | h | h | ⟨x,hx,y,hy,h | h⟩)
          · exact hknown.1 h
          · exact hknown.2 h
          · exact hvalid h
          · exact hseparate h
          · exact (hunseen x hx y hy).1 h
          · exact (hunseen x hx y hy).2 h

end Parallel

section Normal

variable {rooted : Bool} {done : List (List Char)} {comp : List Char}

theorem normStep_noUp (h : ['.','.'] ∈ done → done.getLast? = some ['.','.']) :
    ['.','.'] ∈ normStep rooted done comp → (normStep rooted done comp).getLast? = some ['.','.'] := by
  unfold normStep
  split
  · exact h
  · split
    · rename_i hpush
      intro hmem
      cases done with
      | nil =>
        rw [List.mem_singleton] at hmem
        simp [← hmem]
      | cons top rest =>
        have hin : ['.','.'] ∈ top :: rest := by
          rcases List.mem_cons.mp hmem with heq | hrest
          · rcases hpush with hne | ⟨-,hnil⟩ | htop
            · exact absurd heq.symm hne
            · cases hnil
            · simp only [List.head?_cons,Option.some.injEq] at htop
              simp [htop]
          · exact hrest
        rw [List.getLast?_cons_cons]
        exact h hin
    · intro hmem
      cases done with
      | nil => simp at hmem
      | cons top rest =>
        have hlast := h (List.mem_cons_of_mem _ hmem)
        cases rest with
        | nil => simp at hmem
        | cons next rest => simpa using hlast

theorem normStep_subset {p : List Char}
    (h : p ∈ normStep rooted done comp) : p ∈ done ∨ (p = comp ∧ comp ≠ [] ∧ comp ≠ ['.']) := by
  unfold normStep at h
  split at h
  · exact .inl h
  · rename_i hcomp
    simp only [not_or] at hcomp
    split at h
    · rcases List.mem_cons.mp h with rfl | hrest
      · exact .inr ⟨rfl,hcomp⟩
      · exact .inl hrest
    · exact .inl (List.mem_of_mem_tail h)

theorem foldl_normStep {rooted : Bool} (comps done : List (List Char))
    (h : ['.','.'] ∈ done → done.getLast? = some ['.','.']) :
    (['.','.'] ∈ comps.foldl (normStep rooted) done → (comps.foldl (normStep rooted) done).getLast? = some ['.','.'])
    ∧ ∀ p ∈ comps.foldl (normStep rooted) done, p ∈ done ∨ (p ∈ comps ∧ p ≠ [] ∧ p ≠ ['.']) := by
  induction comps generalizing done with
  | nil => exact ⟨h,fun p hp => .inl hp⟩
  | cons comp comps ih =>
    obtain ⟨hup,hsub⟩ := ih (normStep rooted done comp) (normStep_noUp h)
    refine ⟨hup,fun p hp => ?_⟩
    rcases hsub p hp with hstep | ⟨hmem,hgood⟩
    · rcases normStep_subset hstep with hdone | ⟨rfl,hgood⟩
      · exact .inl hdone
      · exact .inr ⟨List.mem_cons_self,hgood⟩
    · exact .inr ⟨List.mem_cons_of_mem _ hmem,hgood⟩

theorem normpath_ne_nil (cs : List Char) : normpath cs ≠ [] := by
  simp only [normpath]
  split
  · simp
  · assumption

/-- A relative result of `normpath` that does not start with `..` is made of good components. -/
theorem normpath_good {cs : List Char} (hback : '\\' ∉ cs) (hdot : normpath cs ≠ ['.'])
    (hrel : (normpath cs).head? ≠ some '/') (hup : normpath cs ≠ ['.','.']) (hups : ¬ ['.','.','/'] <+: normpath cs) :
    ((normpath cs).splitOn '/').all goodPart = true := by
  obtain ⟨hlast,hsub⟩ := @foldl_normStep (initialSlashes cs != 0) (cs.splitOn '/') [] (by simp)
  generalize hcomps : ((cs.splitOn '/').foldl (normStep (initialSlashes cs != 0)) []).reverse = comps at *
  have htext : normpath cs = List.replicate (initialSlashes cs) '/' ++ ['/'].intercalate comps := by
    unfold normpath at hdot ⊢
    simp only [hcomps] at hdot ⊢
    split at hdot
    · exact absurd rfl hdot
    · rename_i h
      exact if_neg h
  have hslashes : initialSlashes cs = 0 := by
    by_contra hne
    obtain ⟨n,hn⟩ := Nat.exists_eq_succ_of_ne_zero hne
    rw [htext,hn,List.replicate_succ] at hrel
    simp at hrel
  rw [hslashes] at htext
  simp only [List.replicate_zero,List.nil_append] at htext
  have hnil : comps ≠ [] := by
    rintro rfl
    exact normpath_ne_nil cs (by simpa using htext)
  have hmem : ∀ p ∈ comps, p ∈ cs.splitOn '/' ∧ p ≠ [] ∧ p ≠ ['.'] := by
    intro p hp
    rw [← hcomps,List.mem_reverse] at hp
    exact (hsub p hp).resolve_left (by simp)
  have hnoUp : ['.','.'] ∉ comps := by
    intro hin
    have hhead : comps.head? = some ['.','.'] := by
      rw [← hcomps,List.head?_reverse]
      exact hlast (by rwa [← hcomps,List.mem_reverse] at hin)
    cases comps with
    | nil => cases hhead
    | cons first rest =>
      simp only [List.head?_cons,Option.some.injEq] at hhead
      subst hhead
      cases rest with
      | nil => exact hup (by simpa using htext)
      | cons next rest =>
        apply hups
        rw [htext]
        exact ⟨['/'].intercalate (next :: rest),by simp [List.intercalate_cons_cons]⟩
  rw [htext,List.splitOn_intercalate '/' (fun p hp => Path.not_mem_of_mem_splitOn (hmem p hp).1) hnil]
  refine List.all_eq_true.mpr fun p hp => decide_eq_true ⟨(hmem p hp).2.1,(hmem p hp).2.2,?_,?_⟩
  · rintro rfl
    exact hnoUp hp
  · exact fun hb => hback (Path.mem_of_mem_splitOn (hmem p hp).1 hb)

/-- What `_normalize_path` returns and `_is_invalid` accepts is a concrete path. -/
theorem normalizePath_repoPath {raw : String} (h : isInvalid (normalizePath raw) = false) :
    RepoPath (normalizePath raw) := by
  have hnorm : normpath (replaceBackslash raw.toList) ≠ ['.'] := by
    intro hdot
    simp [normalizePath,hdot,isInvalid] at h
  have htext : (normalizePath raw).toList = normpath (replaceBackslash raw.toList) := by
    simp [normalizePath,hnorm]
  simp only [isInvalid,Bool.or_eq_false_iff,decide_eq_false_iff_not,htext] at h
  obtain ⟨⟨⟨-,hrel⟩,hup⟩,hups⟩ := h
  unfold RepoPath
  rw [htext]
  refine normpath_good (Path.not_mem_replaceBackslash _) hnorm hrel ?_ ?_
  · intro heq
    apply hup
    rw [← htext] at heq
    exact String.toList_injective heq
  · intro hpre
    rw [← List.isPrefixOf_iff_prefix,hups] at hpre
    cases hpre

end Normal

theorem dirPrefix_total {x y p : String} (hx : dirPrefix x p) (hy : dirPrefix y p) :
    x = y ∨ dirPrefix x y ∨ dirPrefix y x := by
  have hstep : ∀ {u v : String}, u.toList ++ ['/'] <+: v.toList ++ ['/'] → u = v ∨ dirPrefix u v := by
    intro u v huv
    rcases List.prefix_concat_iff.mp huv with heq | hpre
    · exact .inl (String.toList_injective (List.append_cancel_right heq))
    · exact .inr hpre
  rcases List.prefix_or_prefix_of_prefix hx hy with h | h
  · rcases hstep h with heq | hpre
    · exact .inl heq
    · exact .inr (.inl hpre)
  · rcases hstep h with heq | hpre
    · exact .inl heq.symm
    · exact .inr (.inr hpre)

section
variable {lower : String → String} {a b : Footprint}
variable {x y : String}

theorem seen_or_unseen {path : String} (hpath : RepoPath path) (hx : covers lower (entry lower x) path)
    (hy : covers lower (entry lower y) path) :
    (Seen lower x y ∨ Seen lower y x) ∨ Unseen lower x y ∨ Unseen lower y x := by
  have hbeneath : ∀ u v, dirPrefix (entry lower u) (entry lower v) → Seen lower u v ∨ Unseen lower u v := by
    intro u v hpre
    cases hdir : isDirectoryEntry u with
    | true => exact .inl (.inr (.inl ⟨hdir,hpre⟩))
    | false => exact .inr (.inl ⟨hdir,hpre⟩)
  rcases hx with hx | hx | ⟨hgx,hmx⟩ <;> rcases hy with hy | hy | ⟨hgy,hmy⟩
  · exact .inl (.inl (.inl (hx.symm.trans hy)))
  · rw [hx] at hy
    have := hbeneath y x hy
    tauto
  · rw [hx] at hmy
    exact .inl (.inr (.inr (.inr ⟨hgy,hmy⟩)))
  · rw [hy] at hx
    have := hbeneath x y hx
    tauto
  · rcases dirPrefix_total hx hy with heq | hpre | hpre
    · exact .inl (.inl (.inl heq))
    · have := hbeneath x y hpre
      tauto
    · have := hbeneath y x hpre
      tauto
  · exact .inr (.inl (.inr ⟨path,hpath,hgy,hmy,.inl hx⟩))
  · rw [hy] at hmx
    exact .inl (.inl (.inr (.inr ⟨hgx,hmx⟩)))
  · exact .inr (.inr (.inr ⟨path,hpath,hgx,hmx,.inl hy⟩))
  · exact .inr (.inl (.inr ⟨path,hpath,hgy,hmy,.inr ⟨hgx,hmx⟩⟩))

theorem covered_of_unseen (hvalid : isInvalid (normalizePath y) = false) (h : Unseen lower x y) :
    ∃ path, RepoPath path ∧ covers lower (entry lower x) path ∧ covers lower (entry lower y) path := by
  rcases h with ⟨-,hpre⟩ | ⟨path,hpath,hglob,hmatch,hother⟩
  · exact ⟨normalizePath y,normalizePath_repoPath hvalid,.inr (.inl hpre),.inl rfl⟩
  · exact ⟨path,hpath,.inr hother,.inr (.inr ⟨hglob,hmatch⟩)⟩

/-- `collide` is symmetric, and stories it lets run at the same time share no path exactly
when something else serializes them or no pairing of their entries is an unseen one. -/
theorem parallel_share_no_path_iff (lower : String → String) (a b : Footprint) :
    collide lower a b = collide lower b a ∧
      (((collide lower a b).1 = .parallel → ShareNoPath lower a b) ↔
        (Serialized lower a b ∨ ∀ x ∈ a.writePaths, ∀ y ∈ b.writePaths, ¬ Unseen lower x y ∧ ¬ Unseen lower y x)) := by
  refine ⟨collide_comm lower a b,?_⟩
  rw [collide_parallel_iff]
  constructor
  · intro h
    by_cases hser : Serialized lower a b
    · exact .inl hser
    · refine .inr (fun x hx y hy => ?_)
      have hvalid : ∀ z ∈ a.writePaths ∪ b.writePaths, isInvalid (normalizePath z) = false := by
        intro z hz
        by_contra hbad
        exact hser (.inr (.inr (.inl ⟨z,hz,by simpa using hbad⟩)))
      refine ⟨fun hun => ?_,fun hun => ?_⟩
      · obtain ⟨path,hpath,hcx,hcy⟩ := covered_of_unseen (hvalid y (Finset.mem_union_right _ hy)) hun
        exact h hser path hpath ⟨⟨x,hx,hcx⟩,y,hy,hcy⟩
      · obtain ⟨path,hpath,hcy,hcx⟩ := covered_of_unseen (hvalid x (Finset.mem_union_left _ hx)) hun
        exact h hser path hpath ⟨⟨x,hx,hcx⟩,y,hy,hcy⟩
  · rintro hcond hparallel path hpath ⟨⟨x,hx,hcx⟩,y,hy,hcy⟩
    have hnone := hcond.resolve_left hparallel x hx y hy
    rcases seen_or_unseen hpath hcx hcy with hseen | hun | hun
    · exact hparallel (.inr (.inr (.inr (.inr ⟨x,hx,y,hy,hseen⟩))))
    · exact hnone.1 hun
    · exact hnone.2 hun

end

def asciiLower (text : String) : String := String.ofList (text.toList.map Char.toLower)

def wholeDirectory : Footprint := { storyId := "s1", writePaths := {"verdict"} }
def oneFile : Footprint := { storyId := "s2", writePaths := {"Verdict/api.py"} }

/-- A directory without a trailing slash runs beside a file beneath it. -/
theorem directory_beside_its_file : collide asciiLower wholeDirectory oneFile = (.parallel,.disjoint) ∧
    ¬ ShareNoPath asciiLower wholeDirectory oneFile := by
  refine ⟨by decide +kernel,fun h => h "verdict/api.py" (by unfold RepoPath; decide +kernel) ⟨?_,?_⟩⟩
  · exact ⟨"verdict",by decide,.inr (.inl (by decide +kernel))⟩
  · exact ⟨"Verdict/api.py",by decide,.inl (by decide +kernel)⟩

end Verdict.StoryFootprint

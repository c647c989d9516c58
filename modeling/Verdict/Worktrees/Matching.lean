import Verdict.Basics.Raising
import Verdict.Handoff.Survival
import Verdict.Worktrees.Registry

/-! # Which worktree a story is matched to

A name is searched for the id as a substring, and the tests for whole pieces behind it can never
succeed, since an id has a hyphen and a piece has none. So a worktree whose name holds the id
inside a longer one, as `bod-65` holds `bod-6`, is matched too.
-/
namespace Verdict.Worktrees
open Handoff (Text Lowers)
open Path (strip isSpace)
open Char (ofNat toUpper)
open Raising (bind_ok mapM_mem)

def isTokenChar (c : Char) : Bool := ('a' ≤ c ∧ c ≤ 'z') ∨ Patch.isDigit c

/-- The id stands in the name with no letter and no digit directly before or behind it. -/
def HasToken (token name : Text) : Prop := ∃ i < name.length + 1,
  token <+: name.drop i ∧ (name.take i).getLast?.any isTokenChar = false ∧ (name.drop (i + token.length)).head?.any isTokenChar = false

instance (token name : Text) : Decidable (HasToken token name) := Nat.decidableExistsLT _

namespace World

local instance listedLawful : LawfulBEq (List Char) := inferInstance

def listsStory (w : World) (sid : Text) (entry : WorktreeEntry) : Bool := match w.discoverHandoff entry.path with
  | .ok (some d) => decide (sid ∈ d.primaryStoryIds w.letters)
  | _ => false

def Names (w : World) (sid : Text) (entry : WorktreeEntry) : Prop :=
  HasToken (w.lower sid) (w.lower entry.path) ∨ HasToken (w.lower sid) (w.lower (branchText entry)) ∨ w.listsStory sid entry = true

/-- The id occurs in the path or the branch, but only inside longer ids, and no handoff lists it. -/
def Glued (w : World) (sid : Text) (entry : WorktreeEntry) : Prop :=
  (w.lower sid <:+: w.lower entry.path ∨ w.lower sid <:+: w.lower (branchText entry)) ∧ ¬ w.Names sid entry

instance (w : World) (sid : Text) (entry : WorktreeEntry) : Decidable (w.Names sid entry) := inferInstanceAs (Decidable (_ ∨ _))
instance (w : World) (sid : Text) (entry : WorktreeEntry) : Decidable (w.Glued sid entry) := inferInstanceAs (Decidable (_ ∧ _))

/-- A worktree matches the story exactly when it names it, and neither a search nor a second attachment returns another. -/
structure RightStory (w : World) (storyId sid : Text) : Prop where
  exactly : ∀ entry ∈ w.worktrees, w.storyMatchesEntry storyId entry = .ok true ↔ w.Names sid entry
  found : ∀ binding, w.findStoryWorktree storyId = .ok (some binding) →
    ∃ entry ∈ w.worktrees, w.bindingOf sid entry = .ok binding ∧ w.Names sid entry
  attached : ∀ path branch base binding, w.ensureStoryWorktree storyId path branch base = .ok binding → binding.reattached = true →
    ∃ entry ∈ w.worktrees, binding.path = w.resolve entry.path ∧ binding.branch = entry.branch ∧ w.Names sid entry

end World

variable {w : World} {storyId sid t token : Text} {entry : WorktreeEntry} {c : Char}

/-! ### Story ids -/

theorem normalizeStoryId_ok (h : normalizeStoryId storyId = .ok sid) :
    ∃ letters digits : Text, sid = letters.map toUpper ++ '-' :: digits ∧ letters.all isAsciiLetter = true ∧
      2 ≤ letters.length ∧ letters.length ≤ 10 ∧ digits ≠ [] ∧ digits.all Patch.isDigit = true := by
  unfold normalizeStoryId at h
  simp only at h
  split at h
  · next digits _ =>
    split at h
    · next hshape =>
      obtain ⟨hlow,hhigh,hne,hdigits⟩ := hshape
      cases h
      exact ⟨_,digits,rfl,List.all_takeWhile,hlow,hhigh,hne,hdigits⟩
    · cases h
  · cases h

theorem hyphen_mem (hlower : Lowers w.lower) (h : normalizeStoryId storyId = .ok sid) : '-' ∈ w.lower sid := by
  obtain ⟨letters,digits,rfl,-⟩ := normalizeStoryId_ok h
  exact hlower.member _ '-' (List.mem_append_right _ List.mem_cons_self) (by decide)

theorem isSpace_of_isDigit (h : Patch.isDigit c = true) : isSpace c = false := by
  have hall : ∀ n ∈ Patch.zeros, ∀ k : Fin 10, isSpace (ofNat (n + k)) = false := by decide +kernel
  obtain ⟨n,hn,hrange⟩ := List.any_eq_true.mp h
  obtain ⟨hlow,hhigh⟩ := of_decide_eq_true hrange
  have hspace := hall n hn ⟨c.toNat - n,by omega⟩
  rwa [show n + (c.toNat - n) = c.toNat by omega,Char.ofNat_toNat] at hspace

theorem capital_letter (h : isAsciiLetter c = true) :
    isAsciiLetter c.toUpper = true ∧ c.toUpper.toUpper = c.toUpper ∧ isSpace c.toUpper = false := by
  have hall : ∀ k : Fin 128, isAsciiLetter (ofNat k) = true → isAsciiLetter (ofNat k).toUpper = true ∧
      (ofNat k).toUpper.toUpper = (ofNat k).toUpper ∧ isSpace (ofNat k).toUpper = false := by decide +kernel
  have hsmall : c.toNat < 128 := by
    rcases of_decide_eq_true h with ⟨-,hle⟩ | ⟨-,hle⟩
    · have hz : c.toNat ≤ 90 := hle
      omega
    · have hz : c.toNat ≤ 122 := hle
      omega
  have hc := hall ⟨c.toNat,hsmall⟩
  rw [Char.ofNat_toNat] at hc
  exact hc h

theorem normalizeStoryId_normal (h : normalizeStoryId storyId = .ok sid) : normalizeStoryId sid = .ok sid := by
  obtain ⟨letters,digits,rfl,hletters,hlow,hhigh,hne,hdigits⟩ := normalizeStoryId_ok h
  have hcapital : ∀ c ∈ letters.map toUpper, isAsciiLetter c = true ∧ c.toUpper = c ∧ isSpace c = false := by
    intro c hc
    obtain ⟨b,hb,rfl⟩ := List.mem_map.mp hc
    exact capital_letter (List.all_eq_true.mp hletters b hb)
  have hstrip : strip (letters.map toUpper ++ '-' :: digits) = letters.map toUpper ++ '-' :: digits := by
    have hhead : ∀ c ∈ (letters.map toUpper ++ '-' :: digits).head?, isSpace c = false := by
      intro c hc
      rw [List.head?_append_of_ne_nil _ (by intro hnil; simp_all)] at hc
      exact (hcapital c (List.mem_of_mem_head? hc)).2.2
    have hlast : ∀ c ∈ (letters.map toUpper ++ '-' :: digits).getLast?, isSpace c = false := by
      intro c hc
      rw [List.getLast?_append_of_ne_nil _ (List.cons_ne_nil _ _),List.getLast?_cons_of_ne_nil hne] at hc
      exact isSpace_of_isDigit (List.all_eq_true.mp hdigits c (List.mem_of_mem_getLast? hc))
    simpa using Path.strip_spaces hhead hlast (by simp) fun c hc => absurd hc List.not_mem_nil
  have hall : ∀ c ∈ letters.map toUpper, isAsciiLetter c = true := fun c hc => (hcapital c hc).1
  have htake : (letters.map toUpper ++ '-' :: digits).takeWhile isAsciiLetter = letters.map toUpper := by
    rw [List.takeWhile_append_of_pos hall,List.takeWhile_cons_of_neg (by decide),List.append_nil]
  have hdrop : (letters.map toUpper ++ '-' :: digits).dropWhile isAsciiLetter = '-' :: digits := by
    rw [List.dropWhile_append_of_pos hall,List.dropWhile_cons_of_neg (by decide)]
  have hupper : (letters.map toUpper).map toUpper = letters.map toUpper :=
    List.map_congr_left (fun c hc => (hcapital c hc).2.1) |>.trans (List.map_id _)
  unfold normalizeStoryId
  simp only [hstrip,hdrop,htake,List.length_map]
  rw [if_pos ⟨hlow,hhigh,hne,hdigits⟩,hupper]

/-! ### Names -/

theorem splitRuns_keep {keep : Char → Bool} {piece : Text} (h : piece ∈ splitRuns keep t) : ∀ c ∈ piece, keep c = true := by
  induction t generalizing piece with
  | nil => simp_all [splitRuns]
  | cons b t ih =>
    rw [splitRuns] at h
    split at h
    · next hkeep =>
      split at h
      · rw [List.mem_singleton] at h
        subst h
        simpa using hkeep
      · next first pieces hpieces =>
        rw [hpieces] at ih
        rcases List.mem_cons.mp h with rfl | h
        · exact List.forall_mem_cons.mpr ⟨hkeep,ih List.mem_cons_self⟩
        · exact ih (List.mem_cons_of_mem _ h)
    · split at h
      · exact ih h
      · rcases List.mem_cons.mp h with rfl | h
        · simp
        · exact ih h

theorem HasToken.infix (h : HasToken token t) : token <:+: t := by
  obtain ⟨i,-,hat,-⟩ := h
  exact hat.isInfix.trans (List.drop_suffix i t).isInfix

theorem namedFor_iff (htoken : '-' ∈ token) :
    w.namedFor token entry = true ↔ token <:+: w.lower entry.path ∨ token <:+: w.lower (World.branchText entry) := by
  have hpiece : ∀ piece ∈ splitRuns isPartChar (w.lower entry.path ++ ' ' :: w.lower (World.branchText entry)), '-' ∉ piece :=
    fun piece hpiece hmem => absurd (splitRuns_keep hpiece '-' hmem) (by decide)
  have hcontains : (splitRuns isPartChar (w.lower entry.path ++ ' ' :: w.lower (World.branchText entry))).contains token = false := by
    rw [List.contains_eq_mem,decide_eq_false_iff_not]
    exact fun hmem => hpiece token hmem htoken
  have hfront : (splitRuns isPartChar (w.lower entry.path ++ ' ' :: w.lower (World.branchText entry))).any
      (fun part => decide (token ++ ['-'] <+: part) || decide (part = token)) = false := by
    rw [List.any_eq_false]
    intro piece hmem hor
    rcases (Bool.or_eq_true ..).mp hor with hpre | heq
    · exact hpiece piece hmem ((of_decide_eq_true hpre).subset (by simp))
    · exact hpiece piece hmem (of_decide_eq_true heq ▸ htoken)
  simp only [World.namedFor,hcontains,hfront,Bool.or_false,List.any_cons,List.any_nil]
  constructor
  · intro h
    split at h
    · simpa using h
    · cases h
  · intro h
    rw [if_pos (by rcases h with h | h <;> simp [h])]
    simpa using h

theorem storyMatchesEntry_iff (hlower : Lowers w.lower) (h : normalizeStoryId storyId = .ok sid) :
    w.storyMatchesEntry storyId entry = .ok true ↔
      w.lower sid <:+: w.lower entry.path ∨ w.lower sid <:+: w.lower (World.branchText entry) ∨ w.listsStory sid entry = true := by
  rw [World.storyMatchesEntry,h,← or_assoc,← namedFor_iff (hyphen_mem hlower h)]
  simp only [bind,Except.bind,pure,Except.pure]
  cases hnamed : w.namedFor (w.lower sid) entry with
  | true => simp
  | false =>
    rw [World.listsStory]
    cases hread : w.discoverHandoff entry.path with
    | error e => simp
    | ok handoff => cases handoff <;> simp

/-! ### The search -/

theorem mem_matching {found : List WorktreeEntry} (h : w.matching sid = .ok found) (hmem : entry ∈ found) :
    entry ∈ w.worktrees ∧ w.storyMatchesEntry sid entry = .ok true := by
  obtain ⟨looked,hlooked,hfound⟩ := bind_ok.mp h
  cases hfound
  obtain ⟨⟨isMatch,e⟩,hpair,rfl⟩ := List.mem_map.mp hmem
  obtain ⟨hin,htrue⟩ := List.mem_filter.mp hpair
  obtain ⟨e,he,hread⟩ := mapM_mem hlooked _ hin
  obtain ⟨b,hb,heq⟩ := bind_ok.mp hread
  cases heq
  exact ⟨he,by rw [hb]; exact congrArg _ htrue⟩

theorem chosenWorktree_ok (h : w.chosenWorktree sid = .ok (some entry)) :
    entry ∈ w.worktrees ∧ w.storyMatchesEntry sid entry = .ok true := by
  obtain ⟨found,hfound,h⟩ := bind_ok.mp h
  obtain ⟨ranked,hranked,h⟩ := bind_ok.mp h
  have hhead : ((ranked.mergeSort fun a b => World.rankLe a.1 b.1).head?).map Prod.snd = some entry := Except.ok.inj h
  obtain ⟨⟨key,e⟩,hpair,rfl⟩ := Option.map_eq_some_iff.mp hhead
  obtain ⟨e,he,hread⟩ := mapM_mem hranked _ (List.mem_mergeSort.mp (List.mem_of_mem_head? hpair))
  obtain ⟨k,-,heq⟩ := bind_ok.mp hread
  cases heq
  exact mem_matching hfound he

variable {binding : StoryWorktreeBinding}

theorem findStoryWorktree_ok (hsid : normalizeStoryId storyId = .ok sid)
    (h : w.findStoryWorktree storyId = .ok (some binding)) :
    ∃ entry ∈ w.worktrees, w.storyMatchesEntry sid entry = .ok true ∧ w.bindingOf sid entry = .ok binding := by
  obtain ⟨sid',hsid',h⟩ := bind_ok.mp h
  cases hsid.symm.trans hsid'
  obtain ⟨chosen,hchosen,h⟩ := bind_ok.mp h
  cases chosen with
  | none => cases h
  | some entry =>
    obtain ⟨b,hb,heq⟩ := bind_ok.mp h
    cases heq
    obtain ⟨hmem,hmatch⟩ := chosenWorktree_ok hchosen
    exact ⟨entry,hmem,hmatch,hb⟩

theorem bindingOf_ok (h : w.bindingOf sid entry = .ok binding) :
    binding.path = w.resolve entry.path ∧ binding.branch = entry.branch ∧ binding.reattached = false := by
  obtain ⟨handoff,-,h⟩ := bind_ok.mp h
  cases h
  exact ⟨rfl,rfl,rfl⟩

variable {path branch base : Text}

theorem createStoryWorktree_ok (h : w.createStoryWorktree storyId path branch base = .ok binding) : binding.reattached = false := by
  obtain ⟨sid,-,h⟩ := bind_ok.mp h
  obtain ⟨bindings,-,h⟩ := bind_ok.mp h
  cases bindings with
  | cons first rest => cases h
  | nil =>
    simp only at h
    split at h
    · cases h
    split at h
    · cases h
    split at h
    · cases h
    cases h
    rfl

theorem ensureStoryWorktree_ok (hsid : normalizeStoryId storyId = .ok sid)
    (h : w.ensureStoryWorktree storyId path branch base = .ok binding) (hre : binding.reattached = true) :
    ∃ found, w.findStoryWorktree sid = .ok (some found) ∧ binding.path = found.path ∧ binding.branch = found.branch := by
  obtain ⟨sid',hsid',h⟩ := bind_ok.mp h
  cases hsid.symm.trans hsid'
  obtain ⟨found,hfound,h⟩ := bind_ok.mp h
  cases found with
  | none => exact absurd hre (by rw [createStoryWorktree_ok h]; decide)
  | some found =>
    refine ⟨found,hfound,?_⟩
    simp only at h
    split at h
    · cases h
      exact ⟨rfl,rfl⟩
    split at h
    · cases h
    cases h
    exact ⟨rfl,rfl⟩

/-- A story goes to worktrees that name it exactly when no worktree holds its id inside a longer one alone. -/
theorem right_story_iff (w : World) (hlower : Lowers w.lower) (storyId sid : Text) (hsid : normalizeStoryId storyId = .ok sid) :
    w.RightStory storyId sid ↔ ∀ entry ∈ w.worktrees, ¬ w.Glued sid entry := by
  have hmatches : ∀ entry, w.storyMatchesEntry storyId entry = .ok true ↔ w.Names sid entry ∨ w.Glued sid entry := by
    intro entry
    rw [storyMatchesEntry_iff hlower hsid]
    by_cases hnames : w.Names sid entry
    · refine iff_of_true ?_ (.inl hnames)
      rcases hnames with hpath | hbranch | hlists
      · exact .inl hpath.infix
      · exact .inr (.inl hbranch.infix)
      · exact .inr (.inr hlists)
    · have hlists : ¬ w.listsStory sid entry = true := fun h => hnames (.inr (.inr h))
      simp only [World.Glued,hnames,hlists,not_false_eq_true,and_true,false_or]
      simp
  have hnormal := normalizeStoryId_normal hsid
  constructor
  · intro h entry hmem hglued
    exact hglued.2 ((h.exactly entry hmem).mp ((hmatches entry).mpr (.inr hglued)))
  · intro h
    have hexact : ∀ entry ∈ w.worktrees, w.storyMatchesEntry storyId entry = .ok true ↔ w.Names sid entry := fun entry hmem =>
      (hmatches entry).trans (or_iff_left (h entry hmem))
    have hsame : ∀ entry, w.storyMatchesEntry sid entry = w.storyMatchesEntry storyId entry := fun entry => by
      rw [World.storyMatchesEntry,World.storyMatchesEntry,hsid,hnormal]
    refine ⟨hexact,?_,?_⟩
    · intro binding hfind
      obtain ⟨entry,hmem,hmatch,hbinding⟩ := findStoryWorktree_ok hsid hfind
      exact ⟨entry,hmem,hbinding,(hexact entry hmem).mp (hsame entry ▸ hmatch)⟩
    · intro path branch base binding hensure hre
      obtain ⟨found,hfind,hpath,hbranch⟩ := ensureStoryWorktree_ok hsid hensure hre
      obtain ⟨entry,hmem,hmatch,hbinding⟩ := findStoryWorktree_ok hnormal hfind
      obtain ⟨hfoundPath,hfoundBranch,-⟩ := bindingOf_ok hbinding
      exact ⟨entry,hmem,hpath.trans hfoundPath,hbranch.trans hfoundBranch,(hexact entry hmem).mp (hsame entry ▸ hmatch)⟩

def beside (path branch : String) : World where
  letters := ⟨fun c => c.isAlphanum || c = '_',fun t => t.map toUpper⟩
  lower t := t.map Char.toLower
  repo := "/repo".toList
  resolve := id
  worktrees := [⟨"/repo".toList,"aaaa".toList,some "main".toList,false⟩,⟨path.toList,"bbbb".toList,some branch.toList,false⟩]
  handoffText _ := none
  pathExists _ := false
  revParse _ := some "aaaa".toList
  worktreeAdd _ _ _ := some "aaaa".toList

theorem named_worktree_right :
    (beside "/worktrees/bod-65-harness" "feat/bod-65-harness").RightStory "bod-65".toList "BOD-65".toList :=
  (right_story_iff _ Handoff.lowers_ascii _ _ (by decide +kernel)).mpr (by decide +kernel)

/-- The worktree of the sixty-fifth story matches the sixth. -/
theorem longer_id_matches : ¬ ∀ (w : World), Lowers w.lower → ∀ storyId sid, normalizeStoryId storyId = .ok sid →
    w.RightStory storyId sid := by
  intro h
  have hright := h (beside "/worktrees/bod-65" "feat/bod-65") Handoff.lowers_ascii "BOD-6".toList "BOD-6".toList (by decide +kernel)
  have hnames := (hright.exactly ⟨"/worktrees/bod-65".toList,"bbbb".toList,some "feat/bod-65".toList,false⟩ (by decide +kernel)).mp
    (by decide +kernel)
  exact absurd hnames (by decide +kernel)

/-- The search for the sixth story returns it. -/
example : (beside "/worktrees/bod-65" "feat/bod-65").findStoryWorktree "BOD-6".toList =
    .ok (some {
      storyId := "BOD-6".toList
      path := "/worktrees/bod-65".toList
      branch := some "feat/bod-65".toList
      headSha := "bbbb".toList }) := by decide +kernel

end Verdict.Worktrees

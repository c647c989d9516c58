import Verdict.Salvage.RoundTrip

/-! # Salvage then restore

The whole of both calls as the runtime makes them: what is saved is changed, owned and within the limit, and
a worktree with room for it gets back exactly that. Together with the agreement of the two ownership tests
on what git reports, this holds exactly when the reported paths are straight.
-/
namespace Verdict.Salvage
open FileTree Path

def Place.file? (place : Place) (p : Text) : Option (List UInt8) := match place with
  | .dir t => fileIn t p
  | _ => none

/-- What is saved are changed files of the worktree that the node owns, within the limit. -/
structure InBounds (n : WorkNode) (worktree : Place) (changed saved : List Text) : Prop where
  owned : ∀ s ∈ saved, s ∈ changed ∧ OwnedBy n s
  total : (saved.map fun s => ((worktree.file? s).getD []).length).sum ≤ maxTotalBytes

/-- The worktree afterwards has the saved files, as they were; nothing else is changed in it, but for the
directories that were missing above them, and nothing is written behind a link. -/
structure Recreated (worktree : Place) (saved : List Text) (fresh : FileTree) (result : RestoreResult)
    (after : FileTree) : Prop where
  restored : ∀ s, s ∈ result.restored ↔ s ∈ saved
  same : ∀ s ∈ saved, ∃ content, worktree.file? s = some content ∧ fileIn after s = some content
  untouched : ∀ q, (∀ s ∈ saved, q ≠ parts s) → after.get? q = fresh.get? q ∨
    fresh.get? q = none ∧ after.get? q = some .dir ∧ ∃ s ∈ saved, q <+: parts s
  inside : result.error ≠ troubleName .elsewhere

variable (env : Env)

/-- A salvage for a node, and its restore into any worktree that has room for it. Nothing is salvaged where
a worktree is no directory. -/
def SavesAndRestores (n : WorkNode) (worktree salvageDir : Place) (changed : List Text) : Prop :=
  ∃ result salvage, salvageOwnedFiles env worktree (ownedTexts n) salvageDir (some changed) true = (result,salvage) ∧
    InBounds n worktree changed result.saved ∧
    ((∀ w, worktree ≠ .dir w) → result.saved = []) ∧
    ∀ w, worktree = .dir w → ∀ fresh, Compatible fresh result.saved → ∃ back after,
      restoreSalvagedFiles env salvage (.dir fresh) (ownedTexts n) = (back,.dir after) ∧
        Recreated worktree result.saved fresh back after

theorem troubleName_elsewhere_ne : troubleName .elsewhere ≠ [] ∧ troubleName .elsewhere ≠ "unsafe_restore_root".toList := by
  unfold troubleName
  constructor <;> decide

theorem restore_nothing {place : Place} (h : ∀ t, place ≠ .dir t) (worktree : Place)
    (fresh : FileTree) (ownedFiles : List Text) : ∃ back, restoreSalvagedFiles env place (.dir fresh)
    ownedFiles = (back,.dir fresh) ∧ Recreated worktree [] fresh back fresh := by
  have hempty : ∀ error : Text, error ≠ troubleName .elsewhere → Recreated worktree [] fresh {error} fresh :=
    fun error herror => ⟨by simp,by simp,fun _ _ => .inl rfl,herror⟩
  have hquiet := hempty [] troubleName_elsewhere_ne.1.symm
  cases place with
  | absent => exact ⟨_,rfl,hquiet⟩
  | dangling => exact ⟨_,rfl,hquiet⟩
  | other toDir => exact ⟨_,rfl,hempty _ troubleName_elsewhere_ne.2.symm⟩
  | dir t => exact absurd rfl (h t)

theorem restore_saved {env : Env} {n : WorkNode} {w fresh : FileTree} {candidates : List Text}
    {p : Progress} (hp : Saving env w (safeOwnedSet (ownedTexts n)) candidates p)
    (hc : Compatible fresh p.saved) : ∃ back after, restoreSalvagedFiles env (.dir p.target) (.dir fresh)
    (ownedTexts n) = (back,.dir after) ∧ Recreated (.dir w) p.saved fresh back after := by
  obtain ⟨r,hrun,hr⟩ := restoreAll_ok (iterRegularRelativeFiles p.target []).2 hp hc
  have hmem : ∀ s, s ∈ (iterRegularRelativeFiles p.target []).1 ↔ s ∈ p.saved := fun s => hp.found.mem_iff
  refine ⟨{restored := r.restored, skipped := r.skipped, totalBytes := r.totalBytes},r.target,?_,?_⟩
  · simp only [restoreSalvagedFiles,Place.present,Bool.not_true,Bool.false_eq_true,if_false,hrun]
  · refine ⟨fun s => by rw [hr.all,hmem],fun s hs => ?_,fun q hq => ?_,troubleName_elsewhere_ne.1.symm⟩
    · obtain ⟨content,keeps,hsal,hback⟩ := hr.same s ((hmem s).mpr hs)
      obtain ⟨_,_,content',_,hw,ht⟩ := hp.kept s hs
      rw [hsal] at ht
      cases ht
      exact ⟨content,by simp only [Place.file?,fileIn,hw],by simp only [fileIn,hback]⟩
    · rcases hr.untouched q fun s hs => hq s ((hmem s).mp hs) with heq | ⟨hnone,hdir,s,hs,hpre⟩
      · exact .inl heq
      · exact .inr ⟨hnone,hdir,s,(hmem s).mp hs,hpre⟩

theorem saves_and_restores (n : WorkNode) (worktree salvageDir : Place) {changed : List Text}
    (h : ∀ p ∈ changed, Reported p) : SavesAndRestores env n worktree salvageDir changed := by
  have hnone : ∀ result : SalvageResult, result.saved = [] → InBounds n worktree changed result.saved :=
    fun _ hsaved => ⟨by simp [hsaved],by simp [hsaved]⟩
  cases worktree with
  | absent => exact ⟨_,_,rfl,hnone _ rfl,fun _ => rfl,fun _ hw => nomatch hw⟩
  | dangling => exact ⟨_,_,rfl,hnone _ rfl,fun _ => rfl,fun _ hw => nomatch hw⟩
  | other toDir => exact ⟨_,_,rfl,hnone _ rfl,fun _ => rfl,fun _ hw => nomatch hw⟩
  | dir w =>
    have houtcome := salvage_outcome env w (ownedTexts n) changed salvageDir
    unfold SavesAndRestores
    generalize salvageOwnedFiles env (.dir w) (ownedTexts n) salvageDir (some changed) true = out at houtcome
    cases houtcome with
    | @nothing result place hsaved _ hplace =>
      refine ⟨result,place,rfl,hnone result hsaved,fun hw => absurd rfl (hw w),fun _ _ fresh _ => ?_⟩
      obtain ⟨back,hback,hsame⟩ := restore_nothing env hplace (.dir w) fresh (ownedTexts n)
      exact ⟨back,fresh,hback,hsaved ▸ hsame⟩
    | @saved result p candidates hp hchanged hsaved htotal =>
      refine ⟨result,.dir p.target,rfl,⟨fun s hs => ?_,?_⟩,fun hw => absurd rfl (hw w),fun _ _ fresh hc => ?_⟩
      · rw [hsaved] at hs
        obtain ⟨hgood,howned,_⟩ := hp.kept s hs
        obtain ⟨c,hc,hsafe⟩ := hchanged s (hp.among s hs)
        rw [(h c hc).good.safe] at hsafe
        exact ⟨Option.some.inj hsafe ▸ hc,(isOwned_node hgood).mp howned⟩
      · have hcap := hp.cap
        rw [hp.total] at hcap
        rw [hsaved]
        exact hcap
      · rw [hsaved] at hc ⊢
        exact restore_saved hp hc

/-- What salvage, restore and the ownership tests promise of the paths git reports. -/
def Promised (changed : List Text) : Prop :=
  (∀ env n worktree salvageDir, SavesAndRestores env n worktree salvageDir changed) ∧
    ∀ p ∈ changed, ∀ n : WorkNode, isOwned p (safeOwnedSet (ownedTexts n)) = true ↔ n.owns (String.ofList p) = true

theorem promised_iff_straight {changed : List Text} (h : ∀ p ∈ changed, Reported p) :
    Promised changed ↔ ∀ p ∈ changed, Straight p := by
  have hagree : ∀ p ∈ changed, (∀ n : WorkNode, isOwned p (safeOwnedSet (ownedTexts n)) = true ↔
      n.owns (String.ofList p) = true) ↔ Straight p := by
    intro p hp
    rw [← agree_iff_straight (h p hp)]
    exact forall_congr' fun n => by rw [isOwned_node (h p hp).good]
  constructor
  · exact fun hpromised p hp => (hagree p hp).mp (hpromised.2 p hp)
  · exact fun hstraight => ⟨fun env n worktree salvageDir => saves_and_restores env n worktree salvageDir h,
      fun p hp => (hagree p hp).mpr (hstraight p hp)⟩

theorem plain_paths_promised : Promised ["src/a b.py".toList,"top".toList] := by
  refine (promised_iff_straight fun p hp => ?_).mpr fun p hp => ?_
  · rcases List.mem_pair.mp hp with rfl | rfl <;> exact ⟨by decide,fun hb => absurd hb (by decide)⟩
  · rcases List.mem_pair.mp hp with rfl | rfl <;> exact (if_neg (by decide)).mpr (by decide)

/-- A file whose name ends in a blank is owned by the owner of the name without it, for `owns` alone. -/
theorem trailing_blank_not_promised :
    (∀ p ∈ ["a ".toList,"b".toList], Reported p) ∧ ¬ Promised ["a ".toList,"b".toList] := by
  refine ⟨fun p hp => ?_,fun h => ?_⟩
  · rcases List.mem_pair.mp hp with rfl | rfl <;> exact ⟨by decide,fun hb => absurd hb (by decide)⟩
  have hagree := h.2 _ List.mem_cons_self (ownerOf "a" (by decide))
  revert hagree
  decide

end Verdict.Salvage

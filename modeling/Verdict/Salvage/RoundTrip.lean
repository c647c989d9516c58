import Verdict.Basics.Raising
import Verdict.Salvage.Copying

/-! # Saved and restored

What the loop of the salvage has saved is a set of owned changed files, each with its bytes in the salvage
directory, and nothing else lies there but their directories. So the loop of the restore takes every file it
finds there, and writes it where the worktree has room.
-/
namespace Verdict.Salvage
open FileTree Path
open List (mem_append mem_append_left mem_cons_self mem_map mem_singleton sum)

variable {path : List Text}

theorem parts_join (hgood : path.all goodName = true) (hne : path ≠ []) :
    GoodPath (join path) ∧ parts (join path) = path := by
  have hsplit : (join path).splitOn '/' = path := by
    rw [join,if_neg hne]
    exact List.splitOn_intercalate '/' (fun x hx => (of_decide_eq_true (List.all_eq_true.mp hgood x hx)).2.2.2.1) hne
  have hpath : GoodPath (join path) := by rwa [GoodPath,hsplit]
  exact ⟨hpath,hpath.parts.trans hsplit⟩

theorem parts_injective {p q : Text} (hp : GoodPath p) (hq : GoodPath q) (h : parts p = parts q) : p = q := by
  rw [← hp.join_parts,h,hq.join_parts]

theorem GoodPath.all_parts {p : Text} (h : GoodPath p) : (Path.parts p).all goodName = true := by
  rw [h.parts]
  exact h

theorem GoodPath.parts_ne_nil {p : Text} (h : GoodPath p) : Path.parts p ≠ [] := by
  rw [h.parts]
  exact List.splitOn_ne_nil '/' p

def fileIn (t : FileTree) (p : Text) : Option (List UInt8) := match t.get? (parts p) with
  | some (.file content _) => some content
  | _ => none

def sizeOf (t : FileTree) (files : List Text) : Nat := (files.map fun p => ((fileIn t p).getD []).length).sum

theorem sizeOf_append (t : FileTree) (xs ys : List Text) : sizeOf t (xs ++ ys) = sizeOf t xs + sizeOf t ys := by
  simp [sizeOf]

variable {t : FileTree} {content : List UInt8} {readable : Bool}

theorem sizeOf_singleton {p : Text}
    (h : t.get? (parts p) = some (.file content readable)) : sizeOf t [p] = content.length := by
  simp [sizeOf,fileIn,h]

def Clean (env : Env) (content : List UInt8) : Prop :=
  content.length ≤ maxFileBytes ∧ env.redactText (env.decode content) = env.decode content

theorem clean_of_check {env : Env}
    (hget : t.get? path = some (.file content readable)) (h : hasCredentialContent env t path = false) :
    readable = true ∧ Clean env content ∧ readNoFollow t path = .ok content := by
  rw [hasCredentialContent,readNoFollow,lstat_of_get? hget] at h
  cases readable with
  | false => simp at h
  | true =>
    by_cases hlen : content.length > maxFileBytes
    · simp [hlen] at h
    · simp only [if_neg hlen,decide_eq_false_iff_not,not_not] at h
      refine ⟨rfl,⟨not_lt.mp hlen,h⟩,?_⟩
      rw [readNoFollow,lstat_of_get? hget]
      exact if_neg hlen

theorem check_of_clean {env : Env} (hget : t.get? path = some (.file content true)) (h : Clean env content)
    : hasCredentialContent env t path = false ∧ readNoFollow t path = .ok content := by
  have hread : readNoFollow t path = .ok content := by
    rw [readNoFollow,lstat_of_get? hget]
    exact if_neg (not_lt.mpr h.1)
  refine ⟨?_,hread⟩
  simp [hasCredentialContent,hread,h.2]

/-! ## Salvage -/

structure Saving (env : Env) (w : FileTree) (owned done : List Text) (p : Progress) : Prop where
  among : ∀ s ∈ p.saved, s ∈ done
  distinct : p.saved.Nodup
  kept : ∀ s ∈ p.saved, GoodPath s ∧ isOwned s owned = true ∧ ∃ content, Clean env content ∧
    w.get? (parts s) = some (.file content true) ∧ p.target.get? (parts s) = some (.file content true)
  only : ∀ q e, p.target.get? q = some e → e = .dir ∧ w.get? q = some .dir ∨ ∃ s ∈ p.saved, q = parts s
  total : p.totalBytes = sizeOf w p.saved
  cap : p.totalBytes ≤ maxTotalBytes

section Save
variable {env : Env} {w : FileTree} {owned done : List Text} {p : Progress}
variable {s : Text}

theorem Saving.skip {x : Text} (h : Saving env w owned done p) : Saving env w owned (done ++ [x]) (p.skip s) :=
  ⟨fun s hs => mem_append_left _ (h.among s hs),h.distinct,h.kept,h.only,h.total,h.cap⟩

variable {content : List UInt8}

theorem Saving.room (h : Saving env w owned done p)
    (hs : GoodPath s) (hnew : s ∉ p.saved) (hget : w.get? (parts s) = some (.file content readable)) :
    p.target.Open (parts s) ∧ p.target.get? (parts s) = none := by
  constructor
  · intro above habove hne
    have hdir := above_dir hget habove hne
    cases he : p.target.get? above with
    | none => exact .inl rfl
    | some e =>
      rcases h.only above e he with ⟨rfl,_⟩ | ⟨s',hs',rfl⟩
      · exact .inr rfl
      · obtain ⟨_,_,content',_,hw,_⟩ := h.kept s' hs'
        rw [hdir] at hw
        cases hw
  · cases he : p.target.get? (parts s) with
    | none => rfl
    | some e =>
      rcases h.only _ e he with ⟨_,hdir⟩ | ⟨s',hs',heq⟩
      · rw [hget] at hdir
        cases hdir
      · exact absurd (parts_injective hs (h.kept s' hs').1 heq ▸ hs') hnew

theorem Saving.save {t₂ : FileTree}
    (h : Saving env w owned done p) (files : List FileEvidence) (hs : GoodPath s) (howned : isOwned s owned = true) (hnew : s ∉ p.saved)
    (hget : w.get? (parts s) = some (.file content true)) (hclean : Clean env content)
    (hcap : p.totalBytes + content.length ≤ maxTotalBytes)
    (ht₂ : ∀ q, t₂.get? q = if q = parts s then some (.file content true)
      else if q <+: parts s ∧ p.target.get? q = none then some .dir else p.target.get? q) :
    Saving env w owned (done ++ [s])
      {p with target := t₂, saved := p.saved ++ [s], totalBytes := p.totalBytes + content.length, files} where
  among x hx := by
    rcases mem_append.mp hx with hx | hx
    · exact mem_append_left _ (h.among x hx)
    · exact List.mem_append_right _ hx
  distinct := List.nodup_append'.mpr ⟨h.distinct,List.nodup_singleton s,by simpa using hnew⟩
  kept x hx := by
    rcases mem_append.mp hx with hx | hx
    · obtain ⟨hgood,hown,c,hc,hw,ht⟩ := h.kept x hx
      refine ⟨hgood,hown,c,hc,hw,?_⟩
      have hne : parts x ≠ parts s := fun heq => hnew (parts_injective hgood hs heq ▸ hx)
      rw [ht₂,if_neg hne,if_neg (by simp [ht]),ht]
    · obtain rfl := mem_singleton.mp hx
      exact ⟨hs,howned,content,hclean,hget,by rw [ht₂,if_pos rfl]⟩
  only q e hq := by
    rw [ht₂] at hq
    split at hq
    · rename_i heq
      exact .inr ⟨s,by simp,heq⟩
    · rename_i hne
      split at hq
      · rename_i hdir
        cases hq
        exact .inl ⟨rfl,above_dir hget hdir.1 hne⟩
      · rcases h.only q e hq with hd | ⟨s',hs',heq⟩
        · exact .inl hd
        · exact .inr ⟨s',mem_append_left _ hs',heq⟩
  total := by rw [sizeOf_append,sizeOf_singleton hget,h.total]
  cap := hcap

theorem regularFileSize_some {size : Nat} (h : regularFileSize w path = some size) :
    ∃ content readable, w.get? path = some (.file content readable) ∧ size = content.length := by
  unfold regularFileSize at h
  split at h
  · rename_i content readable hstat
    exact ⟨content,readable,lstat_ok_iff.mp hstat,(Option.some.inj h).symm⟩
  · cases h

theorem saveOne_ok (h : Saving env w owned done p) (hs : GoodPath s) (hnew : s ∉ done) :
    ∃ p', saveOne env w owned p s = .ok p' ∧ Saving env w owned (done ++ [s]) p' := by
  have hnew : s ∉ p.saved := fun hm => hnew (h.among s hm)
  unfold saveOne
  by_cases howned : isOwned s owned = true
  swap
  · refine ⟨p.skip s,?_,h.skip⟩
    simp [howned]
  simp only [howned,Bool.not_true,Bool.false_eq_true,if_false]
  split
  · exact ⟨_,rfl,h.skip⟩
  split
  · refine ⟨_,rfl,?_⟩
    split
    · exact h.skip
    · exact ⟨fun s hs => mem_append_left _ (h.among s hs),h.distinct,h.kept,h.only,h.total,h.cap⟩
  · rename_i size hsize
    obtain ⟨content,readable,hget,rfl⟩ := regularFileSize_some hsize
    split
    · exact ⟨_,rfl,h.skip⟩
    split
    · exact ⟨_,rfl,h.skip⟩
    rename_i hcap
    split
    · exact ⟨_,rfl,h.skip⟩
    rename_i hcredential
    obtain ⟨rfl,hclean,hread⟩ := clean_of_check hget (by simpa using hcredential)
    obtain ⟨hopen,hfree⟩ := h.room hs hnew hget
    obtain ⟨t₁,t₂,keeps,hparent,hcopy,hkeeps,ht₂⟩ :=
      install_ok env hopen (.inl hfree) hs.all_parts hs.parts_ne_nil hread
    obtain rfl := hkeeps hfree
    let files := if p.files.length < maxEvidencePaths then p.files ++ [⟨s,content.length,env.sha256 content⟩] else p.files
    refine ⟨_,?_,h.save files hs howned hnew hget hclean (not_lt.mp hcap) ht₂⟩
    simp only [hparent,hread,hcopy,bind,Except.bind,files]

theorem saveAll_ok (env : Env) (w : FileTree) (owned skipped : List Text) {candidates : List Text}
    (hgood : ∀ s ∈ candidates, GoodPath s) (hdistinct : candidates.Nodup) : ∃ p, candidates.foldlM
    (saveOne env w owned) {target := .empty, skipped} = .ok p ∧ Saving env w owned candidates p := by
  refine Raising.foldlM_along (P := Saving env w owned) (fun done s rest p hall hp => ?_) ?_
  · subst hall
    refine saveOne_ok hp (hgood s (by simp)) fun hm => ?_
    exact (List.nodup_append.mp hdistinct).2.2 s hm s mem_cons_self rfl
  · refine ⟨by simp,List.nodup_nil,by simp,fun q e hq => ?_,rfl,Nat.zero_le _⟩
    rw [get?_empty] at hq
    split at hq
    · rename_i hnil
      subst hnil
      exact .inl ⟨(Option.some.inj hq).symm,rfl⟩
    · cases hq

end Save

/-! The candidates are distinct safe paths of changed files. -/

structure Collection (changed : List Text) (acc : Collected) : Prop where
  distinct : acc.1.Nodup
  from_changed : ∀ s ∈ acc.1, GoodPath s ∧ ∃ c ∈ changed, safeRelativePath c = some s

theorem Collection.addChanged {changed : List Text} {acc : Collected} {c : Text} (h : Collection changed acc)
    (hc : c ∈ changed) : Collection changed (addChanged acc c) := by
  unfold Salvage.addChanged
  split
  · exact ⟨h.distinct,h.from_changed⟩
  · rename_i s hs
    unfold Collected.add
    split
    · exact h
    · rename_i hnew
      refine ⟨List.nodup_append'.mpr ⟨h.distinct,List.nodup_singleton s,by simpa using hnew⟩,fun x hx => ?_⟩
      rcases mem_append.mp hx with hx | hx
      · exact h.from_changed x hx
      · obtain rfl := mem_singleton.mp hx
        exact ⟨(safe_eq_some hs).2,c,hc,hs⟩

theorem collected_changed (changed : List Text) : Collection changed (changedCandidates changed) := by
  have hrun : ∀ xs : List Text, (∀ c ∈ xs, c ∈ changed) → ∀ acc, Collection changed acc →
      Collection changed (xs.foldl Salvage.addChanged acc) := by
    intro xs
    induction xs with
    | nil => exact fun _ acc h => h
    | cons c xs ih =>
      exact fun hsub acc h => ih (fun d hd => hsub d (List.mem_cons_of_mem c hd)) _ (h.addChanged (hsub c mem_cons_self))
  exact hrun changed (fun _ h => h) ([],[]) ⟨List.nodup_nil,by simp⟩

/-- What a salvage of changed files leaves: nothing to restore, or what the loop has saved. -/
inductive Outcome (env : Env) (w : FileTree) (owned changed : List Text) : SalvageResult × Place → Prop
  | nothing {result : SalvageResult} {place : Place} : result.saved = [] → result.totalBytes = 0 →
      (∀ t, place ≠ .dir t) → Outcome env w owned changed (result,place)
  | saved {result : SalvageResult} {p : Progress} {candidates : List Text} :
      Saving env w owned candidates p → (∀ s ∈ candidates, ∃ c ∈ changed, safeRelativePath c = some s) →
      result.saved = p.saved → result.totalBytes = p.totalBytes → Outcome env w owned changed (result,.dir p.target)

theorem salvageCandidates_outcome (env : Env) (w : FileTree) (owned changed : List Text) {candidates skipped : List Text}
    (h : Collection changed (candidates,skipped)) {place : Place} (hplace : ∀ t, place ≠ .dir t) :
    Outcome env w owned changed (salvageCandidates env w owned candidates skipped place) := by
  cases place with
  | dangling => exact .nothing rfl rfl (by simp)
  | other toDir => cases toDir <;> exact .nothing rfl rfl (by simp)
  | dir t => exact absurd rfl (hplace t)
  | absent =>
    obtain ⟨p,hrun,hp⟩ := saveAll_ok env w owned skipped (fun s hs => (h.from_changed s hs).1) h.distinct
    rw [salvageCandidates,salvageCandidates.run,hrun]
    by_cases hnil : p.saved = []
    · refine .nothing hnil ?_ (by simp [hnil])
      simp [hp.total,hnil,sizeOf]
    · simp only [if_neg hnil]
      exact .saved hp (fun s hs => (h.from_changed s hs).2) rfl rfl

theorem clearExisting_not_dir (place : Place) (t : FileTree) : (clearExisting place).2 ≠ .dir t := by
  unfold clearExisting
  split <;> exact fun h => Place.noConfusion h

theorem salvage_outcome (env : Env) (w : FileTree) (ownedFiles changed : List Text) (place : Place) :
    Outcome env w (safeOwnedSet ownedFiles) changed
    (salvageOwnedFiles env (.dir w) ownedFiles place (some changed) true) := by
  have hcollect := collected_changed changed
  have hcleared := clearExisting_not_dir place
  simp only [salvageOwnedFiles,if_true]
  split
  · exact .nothing rfl rfl hcleared
  split
  · exact .nothing rfl rfl hcleared
  · exact salvageCandidates_outcome env w _ changed hcollect hcleared

/-! ## Restore -/

section
variable {env : Env} {w : FileTree} {owned candidates : List Text} {p : Progress}

theorem mem_walk : path ∈ walk t [] ↔ path ≠ [] ∧ ∃ e, t.get? path = some e := by
  simp only [walk,List.mem_mergeSort,mem_map,List.mem_filter,Dict.mem_keys_iff,decide_eq_true_eq,
    List.nil_prefix,true_and,List.length_nil,List.drop_zero,exists_eq_right]
  rw [and_comm]
  refine and_congr_right fun hne => ?_
  rw [get?_ne_nil hne]

theorem walk_nodup (t : FileTree) : (walk t []).Nodup := by
  have hperm := List.mergeSort_perm ((t.entries.keys.filter fun path => decide ([] <+: path ∧ path ≠ [])).map
    (·.drop ([] : List Text).length)) (walkOrder t [])
  refine hperm.nodup_iff.mpr ?_
  simp only [List.length_nil,List.drop_zero,List.map_id']
  exact t.entries.nodup.filter _

theorem Saving.visit (h : Saving env w owned candidates p) {path : List Text} (hpath : path ∈ walk p.target []) :
    (visit p.target [] path).candidate? = if join path ∈ p.saved then some (join path) else none := by
  obtain ⟨hne,e,he⟩ := mem_walk.mp hpath
  obtain ⟨hgood,hparts⟩ := parts_join (all_good he) hne
  have hnotlink : ∀ d, p.target.get? path ≠ some (.link d) := by
    intro d hd
    rcases h.only path _ hd with ⟨hlink,_⟩ | ⟨s,hs,rfl⟩
    · cases hlink
    · obtain ⟨_,_,content,_,_,ht⟩ := h.kept s hs
      rw [hd] at ht
      cases ht
  have hlinks := hasSymlink_false [] (open_of_get? he) hnotlink
  simp only [Salvage.visit,hgood.safe,hparts,hlinks,Bool.false_eq_true,if_false,List.nil_append,lstat_of_get? he]
  rcases h.only path e he with ⟨rfl,hdir⟩ | ⟨s,hs,rfl⟩
  · rw [if_neg fun hs => ?_]
    · rfl
    · obtain ⟨_,_,content,_,hw,_⟩ := h.kept _ hs
      rw [hparts,hdir] at hw
      cases hw
  · obtain ⟨hgoods,_,content,_,_,ht⟩ := h.kept s hs
    rw [he] at ht
    cases ht
    rw [hgoods.join_parts,if_pos hs]
    rfl

theorem Saving.found (h : Saving env w owned candidates p) :
    (iterRegularRelativeFiles p.target []).1.Perm p.saved := by
  have hfound : (iterRegularRelativeFiles p.target []).1 =
      ((walk p.target []).filter fun path => decide (join path ∈ p.saved)).map join := by
    have hrun : ∀ xs : List (List Text), (∀ path ∈ xs, path ∈ walk p.target []) →
        (xs.filterMap fun below => (Salvage.visit p.target [] below).candidate?) =
          (xs.filter fun path => decide (join path ∈ p.saved)).map join := by
      intro xs
      induction xs with
      | nil => exact fun _ => rfl
      | cons x xs ih =>
        intro hsub
        have hrest := ih fun path hm => hsub path (List.mem_cons_of_mem x hm)
        have hx := h.visit (hsub x mem_cons_self)
        rw [List.filterMap_cons,List.filter_cons,hx,hrest]
        by_cases hm : join x ∈ p.saved <;> simp [hm]
    exact hrun _ fun _ hm => hm
  rw [hfound]
  refine (List.perm_ext_iff_of_nodup ?_ h.distinct).mpr fun s => ?_
  · refine ((walk_nodup p.target).filter _).map_on fun x hx y hy heq => ?_
    obtain ⟨hnx,e,hex⟩ := mem_walk.mp (List.mem_of_mem_filter hx)
    obtain ⟨hny,f,hey⟩ := mem_walk.mp (List.mem_of_mem_filter hy)
    rw [← (parts_join (all_good hex) hnx).2,heq,(parts_join (all_good hey) hny).2]
  · simp only [mem_map,List.mem_filter,decide_eq_true_eq]
    constructor
    · rintro ⟨path,⟨_,hm⟩,rfl⟩
      exact hm
    · intro hs
      obtain ⟨hgood,_,content,_,_,ht⟩ := h.kept s hs
      refine ⟨parts s,⟨mem_walk.mpr ⟨hgood.parts_ne_nil,_,ht⟩,?_⟩,hgood.join_parts⟩
      rwa [hgood.join_parts]

/-- A worktree has room for files: only directories lie above them, and at most regular files stand at them. -/
def Compatible (fresh : FileTree) (files : List Text) : Prop :=
  ∀ s ∈ files, fresh.Open (parts s) ∧ fresh.Free (parts s)

structure Restored (salvage fresh : FileTree) (done : List Text) (r : Restoring) : Prop where
  all : r.restored = done
  total : r.totalBytes = sizeOf salvage done
  same : ∀ s ∈ done, ∃ content keeps, salvage.get? (parts s) = some (.file content true) ∧
    r.target.get? (parts s) = some (.file content keeps)
  untouched : ∀ q, (∀ s ∈ done, q ≠ parts s) → r.target.get? q = fresh.get? q ∨
    fresh.get? q = none ∧ r.target.get? q = some .dir ∧ ∃ s ∈ done, q <+: parts s

variable {fresh : FileTree} {r : Restoring} {s : Text}

theorem Restored.room {done : List Text}
    (h : Restored p.target fresh done r) (hp : Saving env w owned candidates p) (hdone : ∀ x ∈ done, x ∈ p.saved)
    (hs : GoodPath s) (hnew : s ∉ done) (hget : p.target.get? (parts s) = some (.file content true))
    (hc : fresh.Open (parts s) ∧ fresh.Free (parts s)) : r.target.Open (parts s) ∧ r.target.Free (parts s) := by
  have hapart : ∀ x ∈ done, parts s ≠ parts x := by
    intro x hx heq
    exact hnew (parts_injective hs (hp.kept x (hdone x hx)).1 heq ▸ hx)
  constructor
  · intro above habove hne
    have hdir := above_dir hget habove hne
    have hnot : ∀ x ∈ done, above ≠ parts x := by
      rintro x hx rfl
      obtain ⟨_,_,_,_,_,ht⟩ := hp.kept x (hdone x hx)
      rw [hdir] at ht
      cases ht
    rcases h.untouched above hnot with heq | ⟨_,hmade,_⟩
    · exact heq ▸ hc.1 above habove hne
    · exact .inr hmade
  · rcases h.untouched _ hapart with heq | ⟨_,_,x,hx,hpre⟩
    · rw [Free,heq]
      exact hc.2
    · obtain ⟨_,_,_,_,_,ht⟩ := hp.kept x (hdone x hx)
      have hdir := above_dir ht hpre (hapart x hx)
      rw [hget] at hdir
      cases hdir

theorem restoreOne_ok {done : List Text}
    (h : Restored p.target fresh done r) (hp : Saving env w owned candidates p) (hdone : ∀ x ∈ done, x ∈ p.saved)
    (hs : s ∈ p.saved) (hnew : s ∉ done) (hcap : sizeOf p.target (done ++ [s]) ≤ maxTotalBytes)
    (hc : fresh.Open (parts s) ∧ fresh.Free (parts s)) :
    ∃ r', restoreOne env p.target owned r s = .ok r' ∧ Restored p.target fresh (done ++ [s]) r' := by
  obtain ⟨hgood,howned,content,hclean,_,hget⟩ := hp.kept s hs
  have hlink : ∀ d, Entry.file content true ≠ .link d := fun d hd => nomatch hd
  obtain ⟨hcheck,hread⟩ := check_of_clean hget hclean
  obtain ⟨hopen,hfree⟩ := h.room hp hdone hgood hnew hget hc
  obtain ⟨t₁,t₂,keeps,hparent,hcopy,_,ht₂⟩ := install_ok env hopen hfree hgood.all_parts hgood.parts_ne_nil hread
  have hsize : regularFileSize p.target (parts s) = some content.length := by rw [regularFileSize,lstat_of_get? hget]
  have htotal : r.totalBytes + content.length = sizeOf p.target (done ++ [s]) := by
    rw [sizeOf_append,sizeOf_singleton hget,h.total]
  have hsym : hasSymlinkComponent p.target [] (parts s) = false :=
    hasSymlink_false [] (open_of_get? hget) fun d hd => hlink d (Option.some.inj (hget ▸ hd))
  refine ⟨{r with target := t₂, restored := r.restored ++ [s], totalBytes := r.totalBytes + content.length},?_,?_⟩
  · simp only [restoreOne,howned,hsym,resolvedWithin_of_get? hget hlink true,hsize,
      if_neg (not_lt.mpr hclean.1),htotal,if_neg (not_lt.mpr hcap),hcheck,hparent,hcopy,Bool.not_true,
      Bool.false_eq_true,Bool.or_false,if_false]
  · refine ⟨by rw [h.all],htotal,fun x hx => ?_,fun q hq => ?_⟩
    · rcases mem_append.mp hx with hx | hx
      · obtain ⟨c,k,hsal,hfile⟩ := h.same x hx
        have hne : parts x ≠ parts s := fun heq =>
          hnew (parts_injective (hp.kept x (hdone x hx)).1 hgood heq ▸ hx)
        exact ⟨c,k,hsal,by rw [ht₂,if_neg hne,if_neg (by simp [hfile]),hfile]⟩
      · obtain rfl := mem_singleton.mp hx
        exact ⟨content,keeps,hget,by rw [ht₂,if_pos rfl]⟩
    · have hold := h.untouched q fun x hx => hq x (mem_append_left _ hx)
      rw [ht₂,if_neg (hq s (by simp))]
      split
      · rename_i hmade
        rcases hold with heq | ⟨_,hdir,_⟩
        · exact .inr ⟨heq ▸ hmade.2,rfl,s,by simp,hmade.1⟩
        · rw [hmade.2] at hdir
          cases hdir
      · rcases hold with heq | ⟨hnone,hdir,x,hx,hpre⟩
        · exact .inl heq
        · exact .inr ⟨hnone,hdir,x,mem_append_left _ hx,hpre⟩

theorem restoreAll_ok (rejected : List Text) (hp : Saving env w owned candidates p)
    (hc : Compatible fresh p.saved) : ∃ r, (iterRegularRelativeFiles p.target []).1.foldlM
    (restoreOne env p.target owned) {target := fresh, skipped := rejected} = .ok r ∧ Restored p.target
    fresh (iterRegularRelativeFiles p.target []).1 r := by
  have hperm := hp.found
  have hnodup := hperm.nodup_iff.mpr hp.distinct
  have hsame : sizeOf p.target p.saved = sizeOf w p.saved := by
    refine congrArg sum (List.map_congr_left fun s hs => ?_)
    obtain ⟨_,_,content,_,hw,ht⟩ := hp.kept s hs
    simp only [fileIn,hw,ht]
  have hcap : sizeOf p.target (iterRegularRelativeFiles p.target []).1 ≤ maxTotalBytes := by
    have hsum : sizeOf p.target (iterRegularRelativeFiles p.target []).1 = sizeOf p.target p.saved :=
      (hperm.map _).sum_eq
    rw [hsum,hsame,← hp.total]
    exact hp.cap
  refine Raising.foldlM_along (P := Restored p.target fresh) (fun done s rest r hall hr => ?_) ?_
  · have hmem : ∀ x ∈ done ++ s :: rest, x ∈ p.saved := fun x hx => hperm.mem_iff.mp (hall ▸ hx)
    refine restoreOne_ok hr hp (fun x hx => hmem x (mem_append_left _ hx)) (hmem s (by simp)) (fun hm => ?_) ?_
      (hc s (hmem s (by simp)))
    · rw [← hall] at hnodup
      exact (List.nodup_append.mp hnodup).2.2 s hm s mem_cons_self rfl
    · rw [← hall] at hcap
      have hsplit : done ++ s :: rest = done ++ [s] ++ rest := by simp
      rw [hsplit,sizeOf_append] at hcap
      omega
  · exact ⟨rfl,rfl,by simp,fun q _ => .inl rfl⟩

end

end Verdict.Salvage

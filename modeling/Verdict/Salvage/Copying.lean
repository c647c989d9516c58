import Verdict.Salvage.Ownership

/-! # Copying one file

What the checks find of a path that nothing but directories lies above, and what the tree is after the
directories of such a path are made and a file is copied to it.
-/
namespace Verdict.Salvage
open FileTree Path
variable {env : Env} {t : FileTree} {path : List Text} {e : Entry}

theorem Open.prefix_of {q : List Text} (h : t.Open path) (hq : q <+: path) : t.Open q := by
  intro above habove hne
  refine h above (habove.trans hq) fun heq => hne ?_
  exact habove.eq_of_length (le_antisymm habove.length_le (heq ▸ hq.length_le))

theorem hasSymlink_false (cur : List Text) {rest : List Text} (ho : t.Open (cur ++ rest)) (hl : ∀ d, t.get? (cur ++ rest) ≠ some (.link d)) :
    hasSymlinkComponent t cur rest = false := by
  induction rest generalizing cur with
  | nil => rfl
  | cons part rest ih =>
    have hshape : cur ++ part :: rest = cur ++ [part] ++ rest := by simp
    rw [hshape] at ho hl
    have hnext := ih (cur ++ [part]) ho hl
    rw [hasSymlinkComponent]
    cases hget : t.get? (cur ++ [part]) with
    | none =>
      rw [lstat_missing hget (Open.prefix_of ho (List.prefix_append _ _))]
      exact hnext
    | some e =>
      rw [lstat_of_get? hget]
      have hlink : ∀ d, e ≠ .link d := by
        rintro d rfl
        by_cases hrest : rest = []
        · subst hrest
          exact hl d (by rwa [List.append_nil])
        · have habove := ho (cur ++ [part]) (List.prefix_append _ _) (fun heq => hrest (by simpa using heq))
          simp [hget] at habove
      cases e with
      | link d => exact absurd rfl (hlink d)
      | file _ _ => exact hnext
      | dir => exact hnext
      | special => exact hnext

theorem resolvedWithin_of_get? (h : t.get? path = some e) (hl : ∀ d, e ≠ .link d) (strict : Bool) :
    resolvedWithin env t path strict = true := by
  rw [resolvedWithin,lstat_of_get? h]
  cases e with
  | link d => exact absurd rfl (hl d)
  | file _ _ => rfl
  | dir => rfl
  | special => rfl

theorem resolvedWithin_free (h : t.Free path) (ho : t.Open path) : resolvedWithin env t path false = true := by
  rcases h with h | ⟨content,readable,h⟩
  · rw [resolvedWithin,lstat_missing h ho]
    rfl
  · exact resolvedWithin_of_get? h (by simp) false

theorem free_not_link (h : t.Free path) (d : Bool) : t.get? path ≠ some (.link d) := by
  rcases h with h | ⟨_,_,h⟩ <;> simp [h]

theorem ensureDirs_ok (env : Env) (cur : List Text) {rest : List Text} (hcur : t.get? cur = some .dir) (hgood : (cur ++ rest).all goodName = true)
    (hopen : ∀ q, q <+: cur ++ rest → t.get? q = none ∨ t.get? q = some .dir) :
    ∃ t', ensureDirs env t cur rest = (true,t') ∧
      ∀ q, t'.get? q = if q <+: cur ++ rest ∧ t.get? q = none then some .dir else t.get? q := by
  induction rest generalizing cur t with
  | nil =>
    refine ⟨t,rfl,fun q => ?_⟩
    split
    · rename_i hq
      rw [List.append_nil] at hq
      by_cases heq : q = cur
      · rw [heq,hcur] at hq
        exact absurd hq.2 (by simp)
      · rw [above_dir hcur hq.1 heq] at hq
        exact absurd hq.2 (by simp)
    · rfl
  | cons part rest ih =>
    have hshape : cur ++ part :: rest = cur ++ [part] ++ rest := by simp
    have hpre : cur ++ [part] <+: cur ++ part :: rest := hshape ▸ List.prefix_append _ _
    rw [ensureDirs]
    rcases hopen _ hpre with hget | hget
    · -- nothing is there: the directory is made
      have hopen' : t.Open (cur ++ [part]) := fun q hq _ => hopen q (hq.trans hpre)
      have hgood' : (cur ++ [part]).all goodName = true := by
        rw [hshape,List.all_append,Bool.and_eq_true] at hgood
        exact hgood.1
      obtain ⟨t₁,hmk,ht₁⟩ := mkdir_spec hget hgood' (by simp) (by rw [List.dropLast_concat]; exact hcur)
      have hopen₁ : ∀ q, q <+: cur ++ [part] ++ rest → t₁.get? q = none ∨ t₁.get? q = some .dir := by
        intro q hq
        rw [ht₁]
        split
        · exact .inr rfl
        · exact hopen q (hshape ▸ hq)
      obtain ⟨t',hrun,ht'⟩ := ih (cur ++ [part]) (by rw [ht₁,if_pos rfl]) (hshape ▸ hgood) hopen₁
      refine ⟨t',?_,fun q => ?_⟩
      · simp only [lstat_missing hget hopen',hmk,hrun]
      · rw [ht',ht₁,hshape]
        by_cases hq : q = cur ++ [part]
        · subst hq
          simp [hget]
        · simp only [if_neg hq]
    · obtain ⟨t',hrun,ht'⟩ := ih (cur ++ [part]) hget (hshape ▸ hgood) (hshape ▸ hopen)
      refine ⟨t',?_,hshape ▸ ht'⟩
      simp only [lstat_of_get? hget,resolvedWithin_of_get? hget (fun _ h => nomatch h) true,if_true,hrun]

theorem install_ok (env : Env) {src : FileTree} {content : List UInt8} (ho : t.Open path) (hf : t.Free path)
    (hgood : path.all goodName = true) (hne : path ≠ []) (hread : readNoFollow src path = .ok content) :
    ∃ t₁ t₂ keeps, ensureSafeParent env t path = (true,t₁) ∧ copyRegular src t₁ path = .ok t₂ ∧
      (t.get? path = none → keeps = true) ∧
      ∀ q, t₂.get? q = if q = path then some (.file content keeps)
        else if q <+: path ∧ t.get? q = none then some .dir else t.get? q := by
  have hdirs : ∀ q, q <+: path.dropLast → t.get? q = none ∨ t.get? q = some .dir := by
    intro q hq
    refine ho q (hq.trans (List.dropLast_prefix path)) fun heq => ?_
    have hlen := hq.length_le
    rw [heq,List.length_dropLast] at hlen
    have := List.length_pos_iff.mpr hne
    omega
  have hgood' : path.dropLast.all goodName = true :=
    List.all_eq_true.mpr fun x hx => List.all_eq_true.mp hgood x (List.dropLast_subset path hx)
  obtain ⟨t₁,hrun,ht₁⟩ := ensureDirs_ok env [] (get?_nil t) hgood' hdirs
  rw [List.nil_append] at ht₁
  have hself : t₁.get? path = t.get? path := by
    rw [ht₁,if_neg fun h => ?_]
    have hlen := h.1.length_le
    rw [List.length_dropLast] at hlen
    have := List.length_pos_iff.mpr hne
    omega
  have hparent : t₁.get? path.dropLast = some .dir := by
    rw [ht₁]
    rcases hdirs path.dropLast (List.prefix_refl _) with h | h <;> simp [h]
  have hfree : t₁.Free path := by
    rw [Free,hself]
    exact hf
  obtain ⟨t₂,keeps,hwrite,hkeeps,ht₂⟩ := write_spec hfree hgood hne hparent content true
  refine ⟨t₁,t₂,keeps,?_,?_,hself ▸ hkeeps,fun q => ?_⟩
  · simp only [ensureSafeParent,resolvedWithin_free hf ho,hasSymlink_false [] ho (free_not_link hf),hrun,
      Bool.not_true,Bool.false_eq_true,if_false]
  · rw [copyRegular,hread]
    exact hwrite
  · rw [ht₂,ht₁]
    by_cases hq : q = path
    · simp only [if_pos hq]
    · have hiff : q <+: path.dropLast ↔ q <+: path :=
        ⟨fun h => h.trans (List.dropLast_prefix path),fun h => prefix_dropLast h hq⟩
      simp only [if_neg hq,hiff]

end Verdict.Salvage

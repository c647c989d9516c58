import Mathlib.Tactic.Ring
import Verdict.Basics.Greedy
import Verdict.Context.Compiler

/-! # What a context pack costs

The compiler takes units greedily, so that the costs it adds up stay within the budget. The prompt
joins the parts with separators that no unit has paid for: it costs no more than was added up
exactly when what the rounding of the single costs leaves over covers them.
-/
namespace Verdict.Context
open Raising
open List (append_assoc length map_cons map_map mem_map sum_cons)
open Greedy (take)

variable {lib : Library} {plan : ContextPlan} {now : Stamp} {u : ContextUnit} {units : List ContextUnit} {s s' : Assembly}
  {pack : ContextPack} {packId evaluationAt : Option Text}

section
variable (lib plan now)

def Passes (u : ContextUnit) : Prop := gate lib plan now u = .ok none

instance : DecidablePred (Passes lib plan now) := fun _ => inferInstanceAs (Decidable (_ = _))

def part (u : ContextUnit) : Text := (rendered lib u).toOption.getD []

def taken (sorted : List ContextUnit) : List ContextUnit :=
  take (Passes lib plan now) (fun u => contentFingerprint lib u.content)
    (fun u => estimateTokens (part lib u)) plan.inputTokenBudget 0 [] sorted

end

/-! ### One round -/

@[simp] theorem exclude_decisions (s : Assembly) (u : ContextUnit) (reason : Reason) (ref : Text) :
    (s.exclude u reason ref).decisions.map ContextDecision.unitId = s.decisions.map ContextDecision.unitId ++ [u.unitId] :=
  List.map_append

@[simp] theorem include_decisions (s : Assembly) (u : ContextUnit) (part : Text) :
    (s.include lib u part).decisions.map ContextDecision.unitId = s.decisions.map ContextDecision.unitId ++ [u.unitId] :=
  List.map_append

theorem addUnit_cases (h : addUnit lib plan now s u = .ok s') :
    (s'.decisions.map ContextDecision.unitId = s.decisions.map ContextDecision.unitId ++ [u.unitId]) ∧
    ((Passes lib plan now u ∧ contentFingerprint lib u.content ∉ s.fingerprints.map Prod.fst ∧
        s.currentTokens + estimateTokens (part lib u) ≤ plan.inputTokenBudget) ∧ s' = s.include lib u (part lib u) ∧
        rendered lib u = .ok (part lib u) ∨
      ¬ (Passes lib plan now u ∧ contentFingerprint lib u.content ∉ s.fingerprints.map Prod.fst ∧
        s.currentTokens + estimateTokens (part lib u) ≤ plan.inputTokenBudget) ∧ s'.parts = s.parts ∧ s'.units = s.units ∧
        s'.currentTokens = s.currentTokens ∧ s'.fingerprints = s.fingerprints) := by
  obtain ⟨reason,hgate,h⟩ := bind_ok.mp h
  cases reason with
  | some reason =>
    cases h
    refine ⟨exclude_decisions ..,.inr ⟨fun hfits => ?_,rfl,rfl,rfl,rfl⟩⟩
    exact absurd (hgate.symm.trans hfits.1) (by simp)
  | none =>
    cases hheld : s.fingerprints.lookup (contentFingerprint lib u.content) with
    | some keptId =>
      simp only [hheld] at h
      cases h
      refine ⟨exclude_decisions ..,.inr ⟨fun hfits => ?_,rfl,rfl,rfl,rfl⟩⟩
      obtain ⟨before,after,hsplit,-⟩ := List.lookup_eq_some_iff.mp hheld
      exact hfits.2.1 (mem_map.mpr ⟨_,hsplit ▸ List.mem_append_right before List.mem_cons_self,rfl⟩)
    | none =>
      simp only [hheld] at h
      obtain ⟨rest,hrendered,h⟩ := bind_ok.mp h
      obtain rfl : part lib u = rest := by rw [part,hrendered]; rfl
      split at h
      · next hover =>
        cases h
        exact ⟨exclude_decisions ..,.inr ⟨fun hfits => absurd hfits.2.2 (not_le.mpr hover),rfl,rfl,rfl,rfl⟩⟩
      · next hfits =>
        cases h
        refine ⟨include_decisions ..,.inl ⟨⟨hgate,?_,not_lt.mp hfits⟩,rfl,hrendered⟩⟩
        intro hmem
        obtain ⟨e,he,heq⟩ := mem_map.mp hmem
        have hne := List.lookup_eq_none_iff.mp hheld e he
        simp [heq] at hne

/-! ### The whole loop -/

theorem assembled (h : units.foldlM (addUnit lib plan now) s = .ok s') :
    let chosen := take (Passes lib plan now) (fun u => contentFingerprint lib u.content)
      (fun u => estimateTokens (part lib u)) plan.inputTokenBudget s.currentTokens (s.fingerprints.map Prod.fst) units
    s'.units = s.units ++ chosen ∧ s'.parts = s.parts ++ chosen.map (part lib) ∧
      s'.currentTokens = s.currentTokens + (chosen.map fun u => estimateTokens (part lib u)).sum ∧
      s'.decisions.map ContextDecision.unitId = s.decisions.map ContextDecision.unitId ++ units.map ContextUnit.unitId ∧
      ∀ u ∈ chosen, rendered lib u = .ok (part lib u) := by
  induction units generalizing s with
  | nil =>
    cases h
    simp [take]
  | cons u rest ih =>
    rw [List.foldlM_cons] at h
    obtain ⟨s₁,hstep,hrest⟩ := bind_ok.mp h
    obtain ⟨hdecided,hcases⟩ := addUnit_cases hstep
    obtain ⟨hunits,hparts,htokens,hdecisions,hrendered⟩ := ih hrest
    rcases hcases with ⟨hfits,rfl,hpart⟩ | ⟨hover,hp,hu,ht,hf⟩
    · simp only [take,if_pos hfits]
      refine ⟨hunits.trans (append_assoc ..),hparts.trans (append_assoc ..),?_,?_,?_⟩
      · rw [htokens,map_cons,sum_cons,← Nat.add_assoc]
        rfl
      · rw [hdecisions,hdecided,append_assoc]
        rfl
      · intro v hv
        rcases List.mem_cons.mp hv with rfl | hv
        · exact hpart
        · exact hrendered v hv
    · simp only [take,if_neg hover]
      rw [hf,ht] at hunits hparts htokens hrendered
      rw [hu] at hunits
      rw [hp] at hparts
      refine ⟨hunits,hparts,htokens,?_,hrendered⟩
      rw [hdecisions,hdecided,append_assoc]
      rfl

/-! ### Rounding -/

def slack (text : Text) : ℕ := 4 * estimateTokens text - text.length

theorem length_le_cost (text : Text) : text.length ≤ 4 * estimateTokens text := by
  unfold estimateTokens
  omega

theorem sum_cost_eq (parts : List Text) :
    4 * (parts.map estimateTokens).sum = (parts.map length).sum + (parts.map slack).sum := by
  induction parts with
  | nil => rfl
  | cons text parts ih =>
    have hle := length_le_cost text
    simp only [map_cons,sum_cons,slack] at ih ⊢
    omega

theorem length_join (parts : List Text) :
    ([lineFeed].intercalate parts).length = (parts.map length).sum + (parts.length - 1) := by
  induction parts with
  | nil => rfl
  | cons text parts ih =>
    cases parts with
    | nil => simp [List.intercalate]
    | cons next parts =>
      rw [List.intercalate_cons_cons,List.length_append,List.length_append,ih]
      simp only [map_cons,sum_cons,List.length_cons,List.length_nil]
      omega

theorem estimate_join_le_iff {parts : List Text} (hne : parts ≠ []) :
    estimateTokens ([lineFeed].intercalate parts) ≤ (parts.map estimateTokens).sum ↔ parts.length ≤ 1 + (parts.map slack).sum := by
  have hlength := length_join parts
  have hsum := sum_cost_eq parts
  have hpos : 1 ≤ (parts.map estimateTokens).sum := by
    obtain ⟨text,rest,rfl⟩ := List.exists_cons_of_ne_nil hne
    simp only [map_cons,sum_cons,estimateTokens]
    omega
  have hparts : 1 ≤ parts.length := List.length_pos_iff.mpr hne
  unfold estimateTokens at hpos hsum ⊢
  omega

/-! ### Order -/

theorem unitId_of_sortKey {u v : ContextUnit} (h : sortKey u = sortKey v) : u.unitId = v.unitId := by
  have hpair := congrArg (fun k => (ofLex (ofLex (ofLex (ofLex (ofLex k).2).2).2).2).2) h
  exact hpair

theorem sortedUnits_perm {units' : List ContextUnit} (hperm : units'.Perm units)
    (hnodup : (units.map ContextUnit.unitId).Nodup) : sortedUnits units' = sortedUnits units := by
  have hids : ((units.map ContextUnit.normalized).map ContextUnit.unitId).Nodup := by
    rw [map_map]
    exact hnodup
  refine List.Perm.eq_of_pairwise (fun u v hu hv huv hvu => ?_) (List.pairwise_insertionSort (fun u v => sortKey u ≤ sortKey v) _)
    (List.pairwise_insertionSort _ _) ?_
  · have hu := (hperm.map _).mem_iff.mp ((List.mem_insertionSort _).mp hu)
    have hv := (List.mem_insertionSort _).mp hv
    exact List.inj_on_of_nodup_map hids hu hv (unitId_of_sortKey (le_antisymm huv hvu))
  · exact (List.perm_insertionSort _ _).trans ((hperm.map _).trans (List.perm_insertionSort _ _).symm)

/-! ### Packs -/

section
variable (lib : Library) (units : List ContextUnit) (plan : ContextPlan) (packId evaluationAt : Option Text)

/-- The pack fits its budget, decides every unit once, has let only units through that pass every gate, and does not
depend on the order of the units. -/
structure Sound (pack : ContextPack) : Prop where
  fits : pack.units ≠ [] → estimateTokens pack.compiledPrompt ≤ pack.usedTokens ∧ pack.usedTokens ≤ plan.inputTokenBudget
  decided : (pack.decisions.map ContextDecision.unitId).Perm (units.map ContextUnit.unitId)
  gated : ∀ now, lib.timestamp (evaluationAt.getD plan.createdAt) = some now → ∀ u ∈ pack.units,
    inScope plan u = true ∧ (u.status = .active ∨ u.status = .observed) ∧ expired lib now u = .ok false ∧
      safeContent lib.words u.content = true
  distinct : (pack.units.map fun u => contentFingerprint lib u.content).Nodup
  ordered : (units.map ContextUnit.unitId).Nodup → ∀ units', units'.Perm units →
    compileUnits lib units' plan packId evaluationAt = .ok pack

/-- Of the units that are taken, the single costs round up by as many characters as there are separators between them. -/
def SeparatorsPaid : Prop := ∀ now, lib.timestamp (evaluationAt.getD plan.createdAt) = some now →
  (taken lib plan now (sortedUnits units)).length ≤
    1 + ((taken lib plan now (sortedUnits units)).map fun u => slack (part lib u)).sum

end

theorem passes_iff : Passes lib plan now u ↔ safeContent lib.words u.content = true ∧
    (u.status = .active ∨ u.status = .observed) ∧ inScope plan u = true ∧ expired lib now u = .ok false := by
  unfold Passes gate
  cases safeContent lib.words u.content <;> cases hstatus : u.status <;> cases inScope plan u <;>
    cases hexpired : expired lib now u <;> simp [Except.map]

theorem compileSorted_ok {sorted : List ContextUnit}
    (h : compileSorted lib plan packId evaluationAt sorted = .ok pack) : ∃ now, lib.timestamp
    (evaluationAt.getD plan.createdAt) = some now ∧ pack.units = taken lib plan now sorted ∧
    pack.compiledPrompt = [lineFeed].intercalate ((taken lib plan now sorted).map (part lib)) ∧
    pack.usedTokens = ((taken lib plan now sorted).map fun u => estimateTokens (part lib u)).sum ∧
    pack.decisions.map ContextDecision.unitId = sorted.map ContextUnit.unitId ∧ ∀ u ∈ taken lib plan now
    sorted, rendered lib u = .ok (part lib u) := by
  unfold compileSorted at h
  obtain ⟨now,hnow,h⟩ := bind_ok.mp h
  obtain ⟨s,hloop,h⟩ := bind_ok.mp h
  cases h
  obtain ⟨hunits,hparts,htokens,hdecisions,hrendered⟩ := assembled hloop
  refine ⟨now,?_,hunits,?_,htokens.trans (Nat.zero_add _),hdecisions,hrendered⟩
  · unfold evaluationTime at hnow
    split at hnow
    · next hstamp =>
      cases hnow
      exact hstamp
    · cases hnow
  · exact congrArg (fun parts => [lineFeed].intercalate parts) hparts

theorem compile_ok (h : compileUnits lib units plan packId evaluationAt = .ok pack) : ∃ now, lib.timestamp
    (evaluationAt.getD plan.createdAt) = some now ∧ pack.units = taken lib plan now (sortedUnits units) ∧
    pack.compiledPrompt = [lineFeed].intercalate ((taken lib plan now (sortedUnits units)).map (part lib)) ∧
    pack.usedTokens =
    ((taken lib plan now (sortedUnits units)).map fun u => estimateTokens (part lib u)).sum ∧
    pack.decisions.map ContextDecision.unitId = (sortedUnits units).map ContextUnit.unitId ∧ ∀ u ∈ taken lib
    plan now (sortedUnits units), rendered lib u = .ok (part lib u) :=
  compileSorted_ok h

theorem sortedUnits_ids : ((sortedUnits units).map ContextUnit.unitId).Perm (units.map ContextUnit.unitId) := by
  refine ((List.perm_insertionSort _ _).map _).trans ?_
  rw [map_map]
  exact List.Perm.refl _

theorem prompt_fits_iff (h : compileUnits lib units plan packId evaluationAt = .ok pack) :
    (pack.units ≠ [] → estimateTokens pack.compiledPrompt ≤ pack.usedTokens) ↔ SeparatorsPaid lib units plan evaluationAt := by
  obtain ⟨now,hnow,hunits,hprompt,hused,-⟩ := compile_ok h
  have hpaid : SeparatorsPaid lib units plan evaluationAt ↔ (taken lib plan now (sortedUnits units)).length ≤
      1 + ((taken lib plan now (sortedUnits units)).map fun u => slack (part lib u)).sum := by
    refine ⟨fun hpaid => hpaid now hnow,fun hle now' hnow' => ?_⟩
    obtain rfl : now = now' := Option.some.inj (hnow.symm.trans hnow')
    exact hle
  rw [hpaid,hunits,hprompt,hused]
  by_cases hnil : taken lib plan now (sortedUnits units) = []
  · rw [hnil]
    exact iff_of_true (fun hne => absurd rfl hne) (Nat.zero_le _)
  · have hne : (taken lib plan now (sortedUnits units)).map (part lib) ≠ [] := by simpa using hnil
    have hiff := estimate_join_le_iff hne
    rw [map_map,map_map,List.length_map] at hiff
    exact ⟨fun hfits => hiff.mp (hfits hnil),fun hle _ => hiff.mpr hle⟩

/-- A pack is sound exactly when the rounding of its costs pays for the separators. -/
theorem pack_sound_iff (h : compileUnits lib units plan packId evaluationAt = .ok pack) :
    Sound lib units plan packId evaluationAt pack ↔ SeparatorsPaid lib units plan evaluationAt := by
  refine ⟨fun hsound => (prompt_fits_iff h).mp fun hne => (hsound.fits hne).1,fun hpaid => ?_⟩
  obtain ⟨now,hnow,hunits,-,hused,hdecisions,-⟩ := compile_ok h
  refine ⟨fun hne => ⟨(prompt_fits_iff h).mpr hpaid hne,?_⟩,?_,fun now' hnow' u hu => ?_,?_,fun hnodup units' hperm => ?_⟩
  · have hle : 0 + ((taken lib plan now (sortedUnits units)).map fun u => estimateTokens (part lib u)).sum ≤ plan.inputTokenBudget :=
      Greedy.sum_cost_le (Nat.zero_le plan.inputTokenBudget)
    rw [hused]
    rwa [Nat.zero_add] at hle
  · rw [hdecisions]
    exact sortedUnits_ids
  · obtain rfl : now = now' := Option.some.inj (hnow.symm.trans hnow')
    rw [hunits] at hu
    obtain ⟨hsafe,hstatus,hscope,hfresh⟩ := passes_iff.mp (Greedy.passes_of_mem hu)
    exact ⟨hscope,hstatus,hfresh,hsafe⟩
  · rw [hunits]
    exact Greedy.labels_nodup.1
  · unfold compileUnits at h ⊢
    rw [sortedUnits_perm hperm hnodup]
    exact h

/-! ### Two parts without slack -/

def evenUnits : List ContextUnit :=
  [plainUnit "u1" "k1" "note" "a.md" (by decide),plainUnit "u2" "k2" "fact" "b.md" (by decide)]

def evenLibrary : Library := plainLibrary
  [("note".toList,"edb465624291e4053c6c5ea4b7eb320dec773e10a57d26b95dcf0564f8e310f8".toList),
   ("fact".toList,"1e7dc6d6c16565406afd121a89164b990879f5f47695e03b9c3fd0f07395a4ca".toList),
   ("[MEMORY:k1 (source: a.md)]\nnote\n\n[MEMORY:k2 (source: b.md)]\nfact\n".toList,
    "53453ec1cdf8d3f918ec8efd1b17e7b7c22cdfbd93d17a2612762b6b0fbc591f".toList)]
  "sha256:ae7861d179f82fae25cbc7faa62f9e0653022096bd5d7c46ac0b9f105d5b6f39".toList

def evenPlan : ContextPlan := plainPlan 16 (by decide)

def evenPack : Option ContextPack := (compileUnits evenLibrary evenUnits evenPlan none none).toOption

theorem evenPack_costs : evenPack.map (fun pack => (pack.units.length,estimateTokens pack.compiledPrompt,pack.usedTokens)) =
    some (2,17,16) := by
  decide +kernel

/-- The budget of 16 tokens is used up, and the prompt has 17. -/
theorem separators_unpaid : ∃ pack, compileUnits evenLibrary evenUnits evenPlan none none = .ok pack ∧
    ¬ Sound evenLibrary evenUnits evenPlan none none pack := by
  obtain ⟨pack,hpack,hcosts⟩ := Option.map_eq_some_iff.mp evenPack_costs
  refine ⟨pack,toOption_some.mp hpack,fun hsound => ?_⟩
  simp only [Prod.mk.injEq] at hcosts
  have hfits := hsound.fits fun hnil => by simp [hnil] at hcosts
  omega

def roundedUnits : List ContextUnit :=
  [plainUnit "n4" "k4" "more" "d.md" (by decide),plainUnit "n3" "k3" "note" "c.md" (by decide),
   plainUnit "n2" "k2" "facts" "b.md" (by decide),plainUnit "n1" "k1" "note" "a.md" (by decide)]

def roundedLibrary : Library := plainLibrary
  [("note".toList,"edb465624291e4053c6c5ea4b7eb320dec773e10a57d26b95dcf0564f8e310f8".toList),
   ("facts".toList,"0694aacb66d62e742a92e8d5f1e82bd9d2a8ca1be88744201fbe63d0f5007502".toList),
   ("more".toList,"187897ce0afcf20b50ba2b37dca84a951b7046f29ed5ab94f010619f69d6e189".toList),
   ("[MEMORY:k1 (source: a.md)]\nnote\n\n[MEMORY:k2 (source: b.md)]\nfacts\n".toList,
    "c07623ab82b9092084e1dfbedb4f734e5323ee7ec6665ce49e458d7b49b3eff7".toList)]
  "sha256:56b7d862eb3ab102c1bdc700bc0c4e7521a99e27dc63511e0ab0790676083a63".toList

def roundedPlan : ContextPlan := plainPlan 24 (by decide)

def roundedPack : Option ContextPack := (compileUnits roundedLibrary roundedUnits roundedPlan none none).toOption

theorem roundedPack_costs : roundedPack.map (fun pack =>
    (pack.decisions.map fun d => (d.unitId,d.reason),estimateTokens pack.compiledPrompt,pack.usedTokens)) =
    some ([("n1".toList,.included),("n2".toList,.included),("n3".toList,.duplicateContent),("n4".toList,.inputBudgetExhausted)],17,17) := by
  decide +kernel

/-- The part of 33 characters pays for the separator; a duplicate and a unit over the budget are left out. -/
theorem rounded_units_sound : ∃ pack, compileUnits roundedLibrary roundedUnits roundedPlan none none = .ok pack ∧
    pack.decisions.map (fun d => (d.unitId,d.reason)) =
      [("n1".toList,.included),("n2".toList,.included),("n3".toList,.duplicateContent),("n4".toList,.inputBudgetExhausted)] ∧
    Sound roundedLibrary roundedUnits roundedPlan none none pack := by
  obtain ⟨pack,hpack,hcosts⟩ := Option.map_eq_some_iff.mp roundedPack_costs
  simp only [Prod.mk.injEq] at hcosts
  obtain ⟨hdecided,hprompt,hused⟩ := hcosts
  have hok := toOption_some.mp hpack
  refine ⟨pack,hok,hdecided,(pack_sound_iff hok).mpr ((prompt_fits_iff hok).mp fun _ => ?_)⟩
  rw [hprompt,hused]

end Verdict.Context

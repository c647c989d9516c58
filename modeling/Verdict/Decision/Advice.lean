import Verdict.Decision.Kernel

/-! # Advice reorders

Advice is compared by ids: the id of the decision and its outcome depend only on which ids are
admitted, and advice keeps those. The entries themselves are kept exactly when the ranker
lists every admitted entry it names as often as it was admitted.
-/
namespace Verdict.Decision
open Json
open List (map_cons mem_filter mem_map mem_map_of_mem perm_insertionSort)
variable {o : Outside} {i : Inputs}

/-! ### Canonical values of a decision -/

theorem canonicalList_map {α : Type} {f : α → Json} (h : ∀ a, canonical (f a) = .ok (f a)) (xs : List α) :
    canonicalList (xs.map f) = .ok (xs.map f) := by
  induction xs with
  | nil => rfl
  | cons x xs ih =>
    rw [map_cons,canonicalList,h,ih]
    rfl

theorem canonical_str (s : String) : canonical (.str s) = .ok (.str s) := by rw [canonical,canonicalScalar]

theorem canonical_optional (s : Option String) : canonical ((s.map Json.str).getD .null) = .ok ((s.map Json.str).getD .null) := by
  cases s with
  | none =>
    show canonical (.scalar .null) = .ok (.scalar .null)
    rw [canonical,canonicalScalar]
  | some s => exact canonical_str s

theorem canonical_strings (xs : List String) : canonical (strings xs) = .ok (strings xs) := by
  rw [strings,canonical,canonicalList_map canonical_str]
  rfl

theorem canonical_exclusion (r : EligibilityRecord) : canonical (exclusionProjection r) = .ok (exclusionProjection r) := by
  simp only [exclusionProjection,canonical,canonicalFields,canonical_optional]
  rfl

theorem canonical_exclusions (o : Outside) (i : Inputs) : canonicalList (i.exclusions o) = .ok (i.exclusions o) :=
  canonicalList_map canonical_exclusion _

theorem canonical_signature {r : DecisionReceipt} (h : canonicalList r.exclusions = .ok r.exclusions) :
    canonical (receiptSignature r) = .ok (receiptSignature r) := by
  simp only [receiptSignature,canonical,canonicalFields,canonical_strings,canonical_optional,h]
  rfl

/-! ### The record of a decision -/

def idOf (o : Outside) (i : Inputs) (ids : List String) : String :=
  fingerprintJson o (.obj [("canonical_task_spec",.str (canonicalTaskSpec o i.taskSpec)),("policy_version",.str i.policyVersion),
    ("candidate_catalog_digest",.str (candidateCatalogDigest o i.candidates)),
    ("admitted_set",strings (ids.dedup.insertionSort (· ≤ ·))),("exclusions",.arr (i.exclusions o))])

theorem computeDecisionId_eq (o : Outside) (i : Inputs) (ids : List String) : computeDecisionId o
    (canonicalTaskSpec o i.taskSpec) i.policyVersion (candidateCatalogDigest o i.candidates) ids
    (i.exclusions o) = .ok (idOf o i ids) := by
  rw [computeDecisionId,canonical,canonical_exclusions]
  rfl

structure Made (o : Outside) (i : Inputs) (advisory : Option AdvisoryInput) (r : DecisionRecord) : Prop where
  decisionId : r.decisionId = idOf o i ((i.admitted o advisory).map ModelInfo.id)
  receiptId : r.receipt.decisionId = r.decisionId
  spec : r.taskSpecCanonical = canonicalTaskSpec o i.taskSpec
  receiptSpec : r.receipt.canonicalTaskSpec = r.taskSpecCanonical
  policy : r.policyVersion = i.policyVersion
  receiptPolicy : r.receipt.policyVersion = r.policyVersion
  catalog : r.receipt.candidateCatalogDigest = candidateCatalogDigest o i.candidates
  outcome : (r.outcome,r.receipt.outcome) =
    composeOutcome (i.admitted o advisory) (i.records o) (preferredId (i.admitted o advisory) (i.records o))
  admitted : r.admitted = i.admitted o advisory
  receiptAdmitted : r.receipt.admittedSet = r.admitted.map ModelInfo.id
  routeAdmitted : r.routeContract.admittedIds = r.admitted.map ModelInfo.id
  selected : r.routeContract.selectedRoute = selectedRoute r.admitted
  exclusions : r.exclusions = i.exclusions o
  receiptExclusions : r.receipt.exclusions = r.exclusions
  digest : receiptDigest o r.receipt = .ok r.receipt.integrityDigest

theorem decide_made (o : Outside) (i : Inputs) (advisory : Option AdvisoryInput) (now : Option ℚ) :
    ∃ r, decide o i advisory now = .ok r ∧ Made o i advisory r := by
  obtain ⟨outcome,reason,hout⟩ : ∃ outcome reason, composeOutcome (i.admitted o advisory) (i.records o)
    (preferredId (i.admitted o advisory) (i.records o)) = (outcome,reason) := ⟨_,_,rfl⟩
  have hid := computeDecisionId_eq o i ((i.admitted o advisory).map ModelInfo.id)
  have hsignature : ∀ r : DecisionReceipt, r.exclusions = i.exclusions o →
      receiptDigest o r = .ok (fingerprintJson o (receiptSignature r)) := by
    intro r hr
    rw [receiptDigest,canonical_signature (by rw [hr,canonical_exclusions])]
    rfl
  rw [decide]
  simp only [hout,hid,bind,Except.bind,stampReceiptDigest,hsignature,Except.map,pure,Except.pure]
  refine ⟨_,rfl,⟨rfl,rfl,rfl,rfl,rfl,rfl,rfl,hout.symm,rfl,rfl,rfl,rfl,rfl,rfl,?_⟩⟩
  exact hsignature _ rfl

/-! ### Which ids are admitted -/

theorem mem_reorder_id {result : EligibilityResult} {spec : TaskSpec} {a : AdvisoryInput} {id : String} :
    id ∈ (reorder o result spec a).map ModelInfo.id ↔ id ∈ result.admitted.map ModelInfo.id := by
  rw [reorder]
  generalize ((a.ranker.getD (adaptiveRanker o .shadowAdaptive)) result spec).getD result.admitted = ranked
  rw [List.map_append,List.mem_append]
  constructor
  · rintro (h | h)
    · obtain ⟨m,hm,rfl⟩ := mem_map.mp h
      exact of_decide_eq_true (mem_filter.mp hm).2
    · obtain ⟨m,hm,rfl⟩ := mem_map.mp h
      exact mem_map_of_mem (mem_filter.mp hm).1
  · intro h
    by_cases hranked : id ∈ ranked.map ModelInfo.id
    · obtain ⟨m,hm,rfl⟩ := mem_map.mp hranked
      exact .inl (mem_map_of_mem (mem_filter.mpr ⟨hm,decide_eq_true h⟩))
    · obtain ⟨m,hm,rfl⟩ := mem_map.mp h
      exact .inr (mem_map_of_mem (mem_filter.mpr ⟨hm,decide_eq_true hranked⟩))

def Inputs.gated (o : Outside) (i : Inputs) : List ModelInfo := (i.eligibility o).admitted

variable (advisory : Option AdvisoryInput)

theorem mem_admitted_id {id : String} :
    id ∈ (i.admitted o advisory).map ModelInfo.id ↔ id ∈ (i.gated o).map ModelInfo.id := by
  cases advisory with
  | none => exact Iff.rfl
  | some a => exact mem_reorder_id

theorem sorted_ids_eq {xs ys : List String} (h : ∀ id, id ∈ xs ↔ id ∈ ys) :
    xs.dedup.insertionSort (· ≤ ·) = ys.dedup.insertionSort (· ≤ ·) := by
  have hperm : xs.dedup.Perm ys.dedup := (List.perm_ext_iff_of_nodup (List.nodup_dedup _) (List.nodup_dedup _)).mpr fun id => by
    rw [List.mem_dedup,List.mem_dedup,h]
  have hsorted := ((perm_insertionSort (· ≤ ·) xs.dedup).trans hperm).trans (perm_insertionSort (· ≤ ·) ys.dedup).symm
  exact hsorted.eq_of_pairwise (fun _ _ _ _ => le_antisymm) (List.pairwise_insertionSort _ _) (List.pairwise_insertionSort _ _)

theorem idOf_advised :
    idOf o i ((i.admitted o advisory).map ModelInfo.id) = idOf o i ((i.gated o).map ModelInfo.id) := by
  rw [idOf,idOf,sorted_ids_eq fun _ => mem_admitted_id advisory]

theorem isEmpty_advised : (i.admitted o advisory).isEmpty = (i.gated o).isEmpty := by
  rw [Bool.eq_iff_iff,List.isEmpty_iff,List.isEmpty_iff,← List.map_eq_nil_iff (f := ModelInfo.id),
    ← List.map_eq_nil_iff (f := ModelInfo.id),List.eq_nil_iff_forall_not_mem,List.eq_nil_iff_forall_not_mem]
  exact forall_congr' fun _ => not_congr (mem_admitted_id advisory)

theorem preferredId_advised :
    preferredId (i.admitted o advisory) (i.records o) = preferredId (i.gated o) (i.records o) := by
  cases hrecords : i.records o with
  | cons r rs => rfl
  | nil =>
    have hnone : i.gated o = [] := by
      obtain ⟨hjudged,-⟩ := List.append_eq_nil_iff.mp hrecords
      have hcapable := List.map_eq_nil_iff.mp hjudged
      rw [Inputs.gated,Inputs.eligibility,EligibilityGate.evaluate]
      simp only [hcapable,List.filter_nil]
    have hempty := isEmpty_advised (o := o) (i := i) advisory
    rw [hnone,List.isEmpty_nil,List.isEmpty_iff] at hempty
    rw [hempty,hnone]

theorem composeOutcome_advised : composeOutcome (i.admitted o advisory) (i.records o)
    (preferredId (i.admitted o advisory) (i.records o)) = composeOutcome (i.gated o) (i.records o)
    (preferredId (i.gated o) (i.records o)) := by
  have hids : ∀ id, (id ∉ (i.admitted o advisory).map ModelInfo.id) = (id ∉ (i.gated o).map ModelInfo.id) := fun id =>
    propext (not_congr (mem_admitted_id advisory))
  simp only [composeOutcome,preferredId_advised,isEmpty_advised,hids]

/-! ### Which entries are admitted -/

/-- The ranker lists the admitted entries it names as often as they were admitted. -/
def Faithful (o : Outside) (i : Inputs) (a : AdvisoryInput) : Prop :=
  ∀ ranked, (a.ranker.getD (adaptiveRanker o .shadowAdaptive)) (i.eligibility o) i.taskSpec = some ranked →
    (ranked.filter fun m => m.id ∈ (i.gated o).map ModelInfo.id).Perm
      ((i.gated o).filter fun m => m.id ∈ ranked.map ModelInfo.id)

theorem filter_split {α : Type} (xs : List α) (p : α → Prop) [DecidablePred p] :
    ((xs.filter fun x => p x) ++ xs.filter fun x => ¬p x).Perm xs := by
  have h := List.filter_append_perm (fun x => Decidable.decide (p x)) xs
  simpa only [decide_not] using h

variable (a : AdvisoryInput)

theorem reorder_perm_iff : (reorder o (i.eligibility o) i.taskSpec a).Perm (i.gated o) ↔ Faithful o i a := by
  rw [reorder,Faithful]
  cases hranked : (a.ranker.getD (adaptiveRanker o .shadowAdaptive)) (i.eligibility o) i.taskSpec with
  | none =>
    refine iff_of_true ?_ fun _ h => nomatch h
    show ((((i.gated o).filter fun m => m.id ∈ (i.gated o).map ModelInfo.id)) ++
      (i.gated o).filter fun m => ¬m.id ∈ (i.gated o).map ModelInfo.id).Perm (i.gated o)
    exact filter_split _ _
  | some ranked =>
    have hsplit := filter_split (i.gated o) fun m => m.id ∈ ranked.map ModelInfo.id
    show (((ranked.filter fun m => m.id ∈ (i.gated o).map ModelInfo.id)) ++
      (i.gated o).filter fun m => ¬m.id ∈ ranked.map ModelInfo.id).Perm (i.gated o) ↔ _
    constructor
    · rintro h _ he
      cases he
      exact (List.perm_append_right_iff _).mp (h.trans hsplit.symm)
    · intro h
      exact ((List.perm_append_right_iff _).mpr (h ranked rfl)).trans hsplit

/-! ### The adaptive ranker -/

theorem judge_modelId (g : EligibilityGate) (isProtected devMode : Bool) (m : ModelInfo) :
    (g.judge isProtected devMode m).modelId = m.id := by
  rw [EligibilityGate.judge]
  cases g.availabilitySource with
  | none => dsimp only; split <;> rfl
  | some truth =>
    dsimp only
    split
    · rfl
    · split
      · rfl
      · split
        · split
          · rfl
          · split <;> rfl
        · rfl

theorem admittedById_some {admitted : List ModelInfo} {m : ModelInfo} (hm : m ∈ admitted) :
    ∃ x, admittedById admitted m.id = some x ∧ x ∈ admitted ∧ x.id = m.id := by
  have hmem : m ∈ admitted.filter (·.id = m.id) := mem_filter.mpr ⟨hm,decide_eq_true rfl⟩
  cases hlast : (admitted.filter (·.id = m.id)).getLast? with
  | none =>
    rw [List.getLast?_eq_none_iff.mp hlast] at hmem
    exact absurd hmem List.not_mem_nil
  | some x =>
    obtain ⟨hx,hid⟩ := mem_filter.mp (List.mem_of_getLast? hlast)
    exact ⟨x,hlast,hx,of_decide_eq_true hid⟩

variable (admitted : List ModelInfo)

def entryOf (m : ModelInfo) : ModelInfo := (admittedById admitted m.id).getD m

theorem entryOf_mem {admitted : List ModelInfo} {m : ModelInfo} (hm : m ∈ admitted) :
    entryOf admitted m ∈ admitted ∧ (entryOf admitted m).id = m.id := by
  obtain ⟨x,hx,hmem,hid⟩ := admittedById_some hm
  rw [entryOf,hx]
  exact ⟨hmem,hid⟩

theorem filterMap_some_of {α β : Type} {f : α → Option β} {g : α → β} {xs : List α} (h : ∀ x ∈ xs, f x = some (g x)) :
    xs.filterMap f = xs.map g := by
  induction xs with
  | nil => rfl
  | cons x xs ih =>
    obtain ⟨hx,hxs⟩ := List.forall_mem_cons.mp h
    rw [List.filterMap_cons_some hx,ih hxs,map_cons]

theorem rankingCandidates_eq (o : Outside) (i : Inputs) :
    rankingCandidates (i.eligibility o) = (i.gated o).map (entryOf (i.gated o)) := by
  have hknown : ∀ m ∈ i.gated o, admittedById (i.gated o) m.id = some (entryOf (i.gated o) m) := by
    intro m hm
    obtain ⟨x,hx,-⟩ := admittedById_some hm
    rw [entryOf,hx]
    rfl
  rw [← filterMap_some_of hknown]
  show List.filterMap _ (List.map _ _) = _
  rw [List.filterMap_map,Inputs.gated,Inputs.eligibility,EligibilityGate.evaluate,List.filterMap_filter]
  refine List.filterMap_congr fun m _ => ?_
  rw [Function.comp_apply,judge_modelId]

theorem adaptiveRanker_perm (o : Outside) (mode : RankerMode) (i : Inputs) : ∃ ranked, adaptiveRanker o mode
    (i.eligibility o) i.taskSpec = some ranked ∧ ranked.Perm ((i.gated o).map (entryOf (i.gated o))) := by
  have hstatic : (staticRank (rankingCandidates (i.eligibility o))).Perm ((i.gated o).map (entryOf (i.gated o))) := by
    rw [rankingCandidates_eq]
    exact perm_insertionSort _ _
  have hsemantic : (semanticRank o i.taskSpec (rankingCandidates (i.eligibility o))).Perm
      ((i.gated o).map (entryOf (i.gated o))) := (perm_insertionSort _ _).trans hstatic
  cases mode with
  | static => exact ⟨_,rfl,hstatic⟩
  | semantic => exact ⟨_,rfl,hsemantic⟩
  | shadowAdaptive => exact ⟨_,rfl,hsemantic⟩

theorem map_entryOf_perm_iff :
    (admitted.map (entryOf admitted)).Perm admitted ↔ ∀ a ∈ admitted, ∀ b ∈ admitted, a.id = b.id → a = b := by
  have hsame : ∀ a b : ModelInfo, a.id = b.id → ∀ x ∈ admitted, ∀ y ∈ admitted, a = entryOf admitted x → b = entryOf admitted y →
      a = b := by
    rintro _ _ hid x hx y hy rfl rfl
    obtain ⟨x',hx',-⟩ := admittedById_some hx
    obtain ⟨-,hxid⟩ := entryOf_mem hx
    obtain ⟨-,hyid⟩ := entryOf_mem hy
    rw [hxid,hyid] at hid
    rw [entryOf,entryOf,← hid,hx']
    rfl
  constructor
  · intro hperm a ha b hb hid
    obtain ⟨x,hx,hxa⟩ := mem_map.mp (hperm.mem_iff.mpr ha)
    obtain ⟨y,hy,hyb⟩ := mem_map.mp (hperm.mem_iff.mpr hb)
    exact hsame a b hid x hx y hy hxa.symm hyb.symm
  · intro h
    have hid : admitted.map (entryOf admitted) = admitted := by
      refine (List.map_congr_left fun m hm => ?_).trans (List.map_id admitted)
      obtain ⟨hmem,hid⟩ := entryOf_mem hm
      exact h _ hmem m hm hid
    rw [hid]

theorem adaptive_faithful_iff (mode : RankerMode) (label : Option String) :
    Faithful o i ⟨some (adaptiveRanker o mode),label⟩ ↔ ∀ a ∈ i.gated o, ∀ b ∈ i.gated o, a.id = b.id → a = b := by
  obtain ⟨ranked,hranked,hperm⟩ := adaptiveRanker_perm o mode i
  rw [← map_entryOf_perm_iff]
  have hids : ∀ id, id ∈ ranked.map ModelInfo.id ↔ id ∈ (i.gated o).map ModelInfo.id := by
    intro id
    rw [(hperm.map _).mem_iff,List.map_map]
    refine iff_of_eq (congrArg (id ∈ ·) (List.map_congr_left fun m hm => ?_))
    exact (entryOf_mem hm).2
  have hall : (ranked.filter fun m => m.id ∈ (i.gated o).map ModelInfo.id) = ranked :=
    List.filter_eq_self.mpr fun m hm => decide_eq_true ((hids _).mp (mem_map_of_mem hm))
  have hgated : ((i.gated o).filter fun m => m.id ∈ ranked.map ModelInfo.id) = i.gated o :=
    List.filter_eq_self.mpr fun m hm => decide_eq_true ((hids _).mpr (mem_map_of_mem hm))
  constructor
  · intro h
    have hfaithful := h ranked hranked
    rw [hall,hgated] at hfaithful
    exact hperm.symm.trans hfaithful
  · intro h other hother
    cases Option.some.inj (hranked.symm.trans hother)
    rw [hall,hgated]
    exact hperm.trans h

/-! ### Advice reorders only -/

/-- The decision with advice is the one without, up to the order of its admitted list. -/
def ReordersOnly (o : Outside) (i : Inputs) (advisory : Option AdvisoryInput) (now : Option ℚ) : Prop :=
  ∃ r plain, decide o i advisory now = .ok r ∧ decide o i none now = .ok plain ∧ r.admitted.Perm (i.gated o) ∧
    (∀ route, r.routeContract.selectedRoute = some route → ∃ m ∈ i.gated o, route = (m.id,m.provider)) ∧
    r.decisionId = plain.decisionId ∧ r.outcome = plain.outcome

theorem reordersOnly_iff (now : Option ℚ) : ReordersOnly o i (some a) now ↔ Faithful o i a := by
  rw [← reorder_perm_iff]
  obtain ⟨r,hr,hmade⟩ := decide_made o i (some a) now
  obtain ⟨plain,hplain,hplainmade⟩ := decide_made o i none now
  constructor
  · rintro ⟨r',plain',hr',-,hperm,-⟩
    cases Except.ok.inj (hr.symm.trans hr')
    rw [hmade.admitted] at hperm
    exact hperm
  · intro hperm
    have hadmitted : r.admitted.Perm (i.gated o) := by
      rw [hmade.admitted]
      exact hperm
    refine ⟨r,plain,hr,hplain,hadmitted,?_,?_,?_⟩
    · intro route hroute
      rw [hmade.selected,selectedRoute] at hroute
      obtain ⟨m,hm,rfl⟩ := Option.map_eq_some_iff.mp hroute
      exact ⟨m,hadmitted.mem_iff.mp (List.mem_of_mem_head? hm),rfl⟩
    · rw [hmade.decisionId,hplainmade.decisionId,idOf_advised,idOf_advised]
    · have hout := hmade.outcome.trans (composeOutcome_advised (some a))
      exact congrArg Prod.fst (hout.trans ((composeOutcome_advised none).symm.trans hplainmade.outcome.symm))

/-- A decision is the one without advice up to the order of its admitted list exactly when the
ranker lists the admitted entries it names as often as they were admitted; for the adaptive
ranker, in each mode, exactly when no two admitted entries share an id but differ. The id and
the outcome never depend on advice. -/
theorem advice_reorders (o : Outside) (i : Inputs) (now : Option ℚ) :
    (∀ a, ReordersOnly o i (some a) now ↔ Faithful o i a) ∧ ReordersOnly o i none now ∧
      (∀ mode label, ReordersOnly o i (some ⟨some (adaptiveRanker o mode),label⟩) now ↔
        ∀ a ∈ i.gated o, ∀ b ∈ i.gated o, a.id = b.id → a = b) ∧
      ∀ advisory, ∃ r plain, decide o i advisory now = .ok r ∧ decide o i none now = .ok plain ∧
        r.decisionId = plain.decisionId ∧ r.outcome = plain.outcome := by
  obtain ⟨plain,hplain,hplainmade⟩ := decide_made o i none now
  refine ⟨fun a => reordersOnly_iff a now,?_,fun mode label => (reordersOnly_iff _ now).trans (adaptive_faithful_iff mode label),
    fun advisory => ?_⟩
  · refine ⟨plain,plain,hplain,hplain,?_,?_,rfl,rfl⟩
    · rw [hplainmade.admitted]
      exact List.Perm.refl _
    · intro route hroute
      rw [hplainmade.selected,selectedRoute] at hroute
      obtain ⟨m,hm,rfl⟩ := Option.map_eq_some_iff.mp hroute
      rw [hplainmade.admitted] at hm
      exact ⟨m,List.mem_of_mem_head? hm,rfl⟩
  · obtain ⟨r,hr,hmade⟩ := decide_made o i advisory now
    refine ⟨r,plain,hr,hplain,?_,?_⟩
    · rw [hmade.decisionId,hplainmade.decisionId,idOf_advised,idOf_advised]
    · have hout := hmade.outcome.trans (composeOutcome_advised advisory)
      exact congrArg Prod.fst (hout.trans ((composeOutcome_advised none).symm.trans hplainmade.outcome.symm))

def plainText : Outside where
  stripLower := id
  lower := id
  repr := fun xs => "[" ++ ", ".intercalate xs ++ "]"
  dumps := print
  fingerprint := fun text => "sha256:" ++ text

def twins : Inputs where
  taskSpec := {objective := "build", taskType := "code"}
  policyVersion := "1"
  candidates := [{id := "m", provider := "a", model := "m"},{id := "m", provider := "b", model := "m"}]
  availabilityTruth := fun id => if id = "m" then some ⟨[⟨"m",.eligible,"runtime"⟩],[],"runtime",[]⟩ else none
  isProtected := true

/-- The adaptive ranker lists the second provider twice and the first one never. -/
theorem twin_lost : ¬∀ (o : Outside) (i : Inputs) (advisory : Option AdvisoryInput) (now : Option ℚ),
    ReordersOnly o i advisory now := by
  intro hall
  have hsame := (adaptive_faithful_iff .static none).mp
    ((reordersOnly_iff _ none).mp (hall plainText twins (some ⟨some (adaptiveRanker plainText .static),none⟩) none))
  have hgated : twins.gated plainText = twins.candidates := by decide +kernel
  rw [hgated] at hsame
  exact absurd (hsame _ List.mem_cons_self _ (List.mem_cons_of_mem _ List.mem_cons_self) rfl) (by decide)

end Verdict.Decision

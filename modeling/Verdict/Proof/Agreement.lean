import Verdict.Proof.Portable

/-! # Where producer and verifier agree

They differ in what they take for a sensitive identifier, and in nothing else. Both let a claim
name itself as the one it supersedes.
-/
namespace Verdict.Proof
open Json
open Raising (bind_ok check_ok require_ok)
open List (any_eq_true cons_ne_nil forall_mem_append forall_mem_cons mem_cons mem_cons_self mem_map
  mem_singleton not_mem_nil)
open JsonText (compact fits jsonOf valueOf wholeFloats)
open ProofReceipt (make make_ok serialize toDict)

/-! ### Identifiers -/

def DropReason.identifiers (d : DropReason) : List String := d.candidateId :: d.code :: d.evidenceId.toList

def ClaimRecord.identifiers (c : ClaimRecord) : List String := c.claimId :: (c.receiptRefs ++ c.evidenceRefs ++ c.supersedes.toList)

def Content.identifiers (c : Content String) : List String :=
  [c.receiptId,c.taskId,c.requestId,c.policyVersion] ++ c.eligibleCandidates ++ c.selectedRoute.toList ++
    c.dropReasons.flatMap DropReason.identifiers ++ c.sourceReferences.map Reference.id ++ c.evidence.map Reference.id ++
    c.claims.flatMap ClaimRecord.identifiers

section
variable {o : Outside} {Id : String → Prop} {ids : List String}

def Any (_ : String) : Prop := True

theorem Reference.fits_iff {r : Reference} : r.Fits Id ↔ r.Fits Any ∧ Id r.id :=
  ⟨fun h => ⟨⟨trivial,h.digest,h.status⟩,h.id⟩,fun ⟨h,hid⟩ => ⟨hid,h.digest,h.status⟩⟩

theorem DropReason.fits_iff {d : DropReason} : d.Fits Id ids ↔ d.Fits Any ids ∧ ∀ s ∈ d.identifiers, Id s := by
  rw [DropReason.identifiers,forall_mem_cons,forall_mem_cons]
  simp only [Option.mem_toList]
  constructor
  · intro h
    exact ⟨⟨trivial,trivial,fun e he => ⟨trivial,(h.evidenceId e he).2⟩⟩,h.candidateId,h.code,fun e he => (h.evidenceId e he).1⟩
  · rintro ⟨h,hid,hcode,hevidence⟩
    exact ⟨hid,hcode,fun e he => ⟨hevidence e he,(h.evidenceId e he).2⟩⟩

theorem ClaimRecord.fits_iff {known : List String} {c : ClaimRecord} :
    c.Fits Id ids known ↔ c.Fits Any ids known ∧ ∀ s ∈ c.identifiers, Id s := by
  rw [ClaimRecord.identifiers,forall_mem_cons,forall_mem_append,forall_mem_append]
  simp only [Option.mem_toList]
  constructor
  · intro h
    exact ⟨⟨trivial,h.status,h.claimHash,h.referenced,fun _ _ => trivial,fun r hr => ⟨trivial,(h.evidenceRefs r hr).2⟩,
      fun s hs => ⟨trivial,(h.supersedes s hs).2⟩⟩,h.claimId,⟨h.receiptRefs,fun r hr => (h.evidenceRefs r hr).1⟩,
      fun s hs => (h.supersedes s hs).1⟩
  · rintro ⟨h,hid,⟨hreceipts,hevidence⟩,hsupersedes⟩
    exact ⟨hid,h.status,h.claimHash,h.referenced,hreceipts,fun r hr => ⟨hevidence r hr,(h.evidenceRefs r hr).2⟩,
      fun s hs => ⟨hsupersedes s hs,(h.supersedes s hs).2⟩⟩

theorem claimsFit_iff {seen : List String} {cs : List ClaimRecord} :
    ClaimsFit Id ids seen cs ↔ ClaimsFit Any ids seen cs ∧ ∀ s ∈ cs.flatMap ClaimRecord.identifiers, Id s := by
  induction cs generalizing seen with
  | nil => exact iff_of_true trivial ⟨trivial,fun _ hs => absurd hs not_mem_nil⟩
  | cons c cs ih =>
    rw [ClaimsFit,ClaimsFit,ih,List.flatMap_cons,forall_mem_append,ClaimRecord.fits_iff]
    constructor
    · rintro ⟨⟨hnew,h,hc⟩,hrest,hcs⟩
      exact ⟨⟨⟨hnew,h⟩,hrest⟩,hc,hcs⟩
    · rintro ⟨⟨⟨hnew,h⟩,hrest⟩,hc,hcs⟩
      exact ⟨⟨hnew,h,hc⟩,hrest,hcs⟩

theorem forall_fits_iff {α : Type} {xs : List α} {P Q : α → Prop} {R : α → List String} (h : ∀ a, P a ↔ Q a ∧ ∀ s ∈ R a, Id s) :
    (∀ a ∈ xs, P a) ↔ (∀ a ∈ xs, Q a) ∧ ∀ s ∈ xs.flatMap R, Id s := by
  constructor
  · intro hall
    refine ⟨fun a ha => ((h a).mp (hall a ha)).1,fun s hs => ?_⟩
    obtain ⟨a,ha,hmem⟩ := List.mem_flatMap.mp hs
    exact ((h a).mp (hall a ha)).2 s hmem
  · rintro ⟨hall,hids⟩ a ha
    exact (h a).mpr ⟨hall a ha,fun s hs => hids s (List.mem_flatMap.mpr ⟨a,ha,hs⟩)⟩

theorem wellFormed_iff {c : Content String} : WellFormed o Id c ↔ WellFormed o Any c ∧ ∀ s ∈ c.identifiers, Id s := by
  have hreferences (rs : List Reference) : (∀ r ∈ rs, r.Fits Id) ↔ (∀ r ∈ rs, r.Fits Any) ∧ ∀ s ∈ rs.map Reference.id, Id s := by
    rw [List.forall_mem_map,← forall₂_and]
    exact forall₂_congr fun _ _ => Reference.fits_iff
  have hreasons : (∀ d ∈ c.dropReasons, d.Fits Id c.evidenceIds) ↔
      (∀ d ∈ c.dropReasons, d.Fits Any c.evidenceIds) ∧ ∀ s ∈ c.dropReasons.flatMap DropReason.identifiers, Id s :=
    forall_fits_iff fun _ => DropReason.fits_iff
  simp only [Content.identifiers,forall_mem_append,forall_mem_cons,not_mem_nil,false_imp_iff,implies_true,and_true,
    Option.mem_toList]
  constructor
  · intro h
    obtain ⟨hdrop,hdropIds⟩ := hreasons.mp h.dropReasons
    obtain ⟨hsources,hsourceIds⟩ := (hreferences _).mp h.sources.2
    obtain ⟨hevidence,hevidenceIds⟩ := (hreferences _).mp h.evidence.2
    obtain ⟨hclaims,hclaimIds⟩ := claimsFit_iff.mp h.claims
    exact ⟨{h with
        receiptId := trivial, taskId := trivial, requestId := trivial, policyVersion := trivial
        candidates := ⟨h.candidates.1,fun _ _ => trivial⟩, route := fun r hr => ⟨trivial,(h.route r hr).2⟩, dropReasons := hdrop
        sources := ⟨h.sources.1,hsources⟩, evidence := ⟨h.evidence.1,hevidence⟩, claims := hclaims},
      ⟨⟨⟨⟨⟨⟨h.receiptId,h.taskId,h.requestId,h.policyVersion⟩,h.candidates.2⟩,fun r hr => (h.route r hr).1⟩,hdropIds⟩,hsourceIds⟩,
        hevidenceIds⟩,hclaimIds⟩
  · rintro ⟨h,⟨⟨⟨⟨⟨⟨hreceipt,htask,hrequest,hpolicy⟩,hcandidates⟩,hroute⟩,hdropIds⟩,hsourceIds⟩,hevidenceIds⟩,hclaimIds⟩
    exact {h with
      receiptId := hreceipt, taskId := htask, requestId := hrequest, policyVersion := hpolicy
      candidates := ⟨h.candidates.1,hcandidates⟩, route := fun r hr => ⟨hroute r hr,(h.route r hr).2⟩
      dropReasons := hreasons.mpr ⟨h.dropReasons,hdropIds⟩, sources := ⟨h.sources.1,(hreferences _).mpr ⟨h.sources.2,hsourceIds⟩⟩
      evidence := ⟨h.evidence.1,(hreferences _).mpr ⟨h.evidence.2,hevidenceIds⟩⟩, claims := claimsFit_iff.mpr ⟨h.claims,hclaimIds⟩}

end

variable {s : String}

theorem sensitive_of_segment (h : sensitiveSegment s = true) : sensitive s = true := by
  obtain ⟨t,ht,h⟩ := any_eq_true.mp h
  obtain ⟨w,hw,h⟩ := any_eq_true.mp h
  have htail : t <:+ s.toList := by
    rcases mem_cons.mp ht with rfl | ht
    · exact List.suffix_refl _
    · obtain ⟨u,hu,hsome⟩ := List.mem_filterMap.mp ht
      cases u with
      | nil => cases hsome
      | cons c rest =>
        have hrest : (if isSeparator c = true then some rest else none) = some t := hsome
        split at hrest
        · cases hrest
          exact (List.suffix_cons c t).trans ((List.mem_tails _ _).mp hu)
        · cases hrest
  refine any_eq_true.mpr ⟨t,(List.mem_tails _ _).mpr htail,any_eq_true.mpr ⟨w,hw,?_⟩⟩
  cases hd : ReceiptStore.dropWord w.toList t with
  | none =>
    rw [hd] at h
    cases h
  | some rest => rfl

theorem Plain.portable (h : Plain s) : Portable s := by
  refine ⟨h.1,?_⟩
  cases hs : sensitiveSegment s with
  | false => rfl
  | true => exact absurd ((sensitive_of_segment hs).symm.trans h.2) Bool.true_eq_false.mp

variable {c : Content String}

theorem plain_iff {o : Outside} (h : WellFormed o Portable c) :
    WellFormed o Plain c ↔ ∀ s ∈ c.identifiers, sensitive s = false := by
  obtain ⟨hshape,hportable⟩ := wellFormed_iff.mp h
  rw [wellFormed_iff,and_iff_right hshape]
  exact forall₂_congr fun s hs => and_iff_right (hportable s hs).1

theorem portable_of_plain {o : Outside} (h : WellFormed o Plain c) : WellFormed o Portable c := by
  obtain ⟨hshape,hplain⟩ := wellFormed_iff.mp h
  exact wellFormed_iff.mpr ⟨hshape,fun s hs => (hplain s hs).portable⟩

/-! ### Supersession -/

def Supersedes (claims : List ClaimRecord) (a b : String) : Prop := ∃ c ∈ claims, c.claimId = a ∧ c.supersedes = some b

def Acyclic (claims : List ClaimRecord) : Prop := ∀ a, ¬Relation.TransGen (Supersedes claims) a a

variable {cs : List ClaimRecord}

theorem supersedes_before {Id : String → Prop} {ids seen : List String} (h : ClaimsFit Id ids seen cs)
    {c : ClaimRecord} (hc : c ∈ cs) {b : String} (hb : c.supersedes = some b) (hne : b ≠ c.claimId) :
    (seen.reverse ++ cs.map ClaimRecord.claimId).idxOf b < (seen.reverse ++ cs.map ClaimRecord.claimId).idxOf c.claimId := by
  induction cs generalizing seen with
  | nil => exact absurd hc not_mem_nil
  | cons d cs ih =>
    obtain ⟨⟨hnew,hfits⟩,hrest⟩ := h
    rcases mem_cons.mp hc with rfl | hc
    · have hmem : b ∈ seen.reverse := by
        refine List.mem_reverse.mpr (((mem_cons.mp (hfits.supersedes b hb).2)).resolve_left hne)
      rw [List.idxOf_append_of_mem hmem,List.idxOf_append_of_notMem fun hin => hnew (List.mem_reverse.mp hin)]
      exact Nat.lt_of_lt_of_le (List.idxOf_lt_length_of_mem hmem) (Nat.le_add_right _ _)
    · have hlater := ih hrest hc
      rw [List.reverse_cons,List.append_assoc] at hlater
      exact hlater

theorem acyclic_iff {Id : String → Prop} {ids : List String} (h : ClaimsFit Id ids [] cs) :
    Acyclic cs ↔ ∀ c ∈ cs, c.supersedes ≠ some c.claimId := by
  constructor
  · exact fun hacyclic c hc hself => hacyclic c.claimId (.single ⟨c,hc,rfl,hself⟩)
  · intro hself
    have hstep : ∀ a b, Supersedes cs a b → (cs.map ClaimRecord.claimId).idxOf b < (cs.map ClaimRecord.claimId).idxOf a := by
      rintro _ b ⟨c,hc,rfl,hb⟩
      exact supersedes_before h hc hb fun hsame => hself c hc (hsame ▸ hb)
    have hpath : ∀ {a b}, Relation.TransGen (Supersedes cs) a b →
        (cs.map ClaimRecord.claimId).idxOf b < (cs.map ClaimRecord.claimId).idxOf a := by
      intro a b hab
      induction hab with
      | single hab => exact hstep _ _ hab
      | tail _ hbc ih => exact (hstep _ _ hbc).trans ih
    exact fun a ha => lt_irrefl _ (hpath ha)

/-! ### What is written -/

variable (o : Outside)

theorem distinct_texts (ss : List String) : Distinct (texts ss) := distinct_map fun _ _ => trivial

theorem distinct_optional (key : String) (s : Option String) : ∀ e ∈ [(key,s.map Json.str)], ∀ j ∈ e.2, Distinct j := by
  intro e he j hj
  rw [mem_singleton.mp he] at hj
  obtain ⟨t,-,rfl⟩ := Option.map_eq_some_iff.mp hj
  trivial

theorem Reference.distinct {key : String} (hkey : key ≠ "digest" ∧ key ≠ "status") (r : Reference) : Distinct (r.toDict key) := by
  refine distinct_members (by simpa using hkey) ?_ fun _ he => absurd he not_mem_nil
  simp only [forall_mem_cons,not_mem_nil,false_imp_iff,implies_true,and_true,Distinct]

theorem DropReason.distinct (d : DropReason) : Distinct d.toDict := by
  refine distinct_members (by simp) ?_ (distinct_optional _ _)
  simp only [forall_mem_cons,not_mem_nil,false_imp_iff,implies_true,and_true,Distinct]

theorem ClaimRecord.distinct (c : ClaimRecord) : Distinct c.toDict := by
  refine distinct_members (by simp) ?_ (distinct_optional _ _)
  simp only [forall_mem_cons,not_mem_nil,false_imp_iff,implies_true,and_true]
  exact ⟨trivial,trivial,trivial,distinct_texts _,distinct_texts _⟩

theorem Content.distinct (c : Content String) : Distinct (c.toDict o) := by
  have htimes : Distinct c.timestamps := by
    refine distinct_members (by simp) ?_ (distinct_optional _ _)
    simp only [forall_mem_cons,not_mem_nil,false_imp_iff,implies_true,and_true,Distinct]
  have hroute : Distinct (nullable c.selectedRoute) := by cases c.selectedRoute <;> trivial
  have hkeys : ((c.members o).map Prod.fst).Nodup := by
    show receiptFields.Nodup
    decide
  refine ⟨hkeys,distinctFields_iff.mpr ?_⟩
  simp only [Content.protectedMembers,List.cons_append,List.nil_append,forall_mem_cons,not_mem_nil,false_imp_iff,
    implies_true,and_true]
  exact ⟨trivial,trivial,trivial,trivial,trivial,trivial,trivial,distinct_texts _,hroute,distinct_map fun d _ => d.distinct,
    distinct_map fun r _ => r.distinct (by decide),distinct_map fun r _ => r.distinct (by decide),htimes,
    distinct_map fun c _ => c.distinct,⟨(show ["algorithm","receipt_digest"].Nodup by decide),trivial,trivial,trivial⟩⟩

variable {v : Json}

variable {o} in
theorem accepted_of_same (r : ProofReceipt o) (hv : Distinct v) (h : Same v (r.toDict o)) :
    (validateReceipt o v).valid = true :=
  (validateReceipt_iff o hv).mpr ⟨r.content,h,portable_of_plain r.wellFormed⟩

variable (text : JsonText.Library)
variable {fs : Fields}

theorem load_obj (h : Same v (.obj fs)) : load text v = .ok v := by
  obtain ⟨gs,rfl,-⟩ := h.fields
  rfl

variable {o} in
theorem fromDict_same (r : ProofReceipt o) (hv : Distinct v) (h : Same v (r.toDict o)) : fromDict o text v = .ok r := by
  have hvalid : (verifySerializedReceipt o text v).valid = true := by
    rw [verifySerializedReceipt,load_obj text h]
    exact accepted_of_same r hv h
  rw [fromDict,if_neg (by rw [hvalid]; decide),readContent_same o h r.wellFormed.schemaVersion]
  dsimp only
  rw [ProofReceipt.make_stamped r.wellFormed]

/-! ### Manifests -/

theorem joinResults_valid {i : ℕ} {rs : List VerificationResult} (h : ∀ r ∈ rs, r.valid = true) : (joinResults i rs).valid = true := by
  induction rs generalizing i with
  | nil => rfl
  | cons r rs ih =>
    obtain ⟨hr,hrs⟩ := forall_mem_cons.mp h
    have hnil : r.errors = [] := List.isEmpty_iff.mp hr
    have hrest : (joinResults (i + 1) rs).errors = [] := List.isEmpty_iff.mp (ih hrs)
    rw [VerificationResult.valid,joinResults,hnil,hrest]
    rfl

theorem manifest_valid {receipts : List (ProofReceipt o)} {manifest : Json} (h : buildReceiptManifest o receipts = .ok manifest) :
    (verifySerializedManifest o text manifest).valid = true := by
  rw [buildReceiptManifest] at h
  split at h
  · cases h
  · next hsome =>
    cases h
    have hcheck : checkManifest o text (.obj [("schema_version",.str SCHEMA_VERSION),("receipts",.arr (receipts.map (toDict o))),
        ("manifest_digest",.str (canonicalHash o (.arr (receipts.map (toDict o)))).text)]) =
        .ok (receipts.map (toDict o)) := by
      rw [checkManifest,bind_ok]
      refine ⟨_,rfl,bind_ok.mpr ⟨_,requiredObject_ok.mpr ⟨rfl,?_,?_⟩,?_⟩⟩
      · simp only [forall_mem_cons,not_mem_nil,false_imp_iff,implies_true,and_true]
        exact ⟨by rintro ⟨⟩,by rintro ⟨⟩,by rintro ⟨⟩⟩
      · exact fun _ hkey => .inl hkey
      · rw [check_ok,bind_ok]
        refine ⟨require_ok.mpr rfl,_,checkNonEmpty_ok.mpr ⟨rfl,fun hnil => hsome (List.map_eq_nil_iff.mp hnil)⟩,?_⟩
        rw [check_ok,check_ok,checkSha_ok,require_ok]
        exact ⟨⟨_,rfl,(canonicalHash o _).shaped⟩,rfl,rfl⟩
    rw [verifySerializedManifest,hcheck]
    refine joinResults_valid fun result hresult => ?_
    obtain ⟨v,hv,rfl⟩ := mem_map.mp hresult
    obtain ⟨r,-,rfl⟩ := mem_map.mp hv
    have hload : load text (r.toDict o) = .ok (r.toDict o) := rfl
    rw [verifySerializedReceipt,hload]
    exact accepted_of_same r (r.content.distinct o) (Same.refl _)

/-! ### The contract -/

def ReadsBack (r : ProofReceipt o) : Prop := text.loads (r.serialize o text).toList = .ok (canon (r.toDict o))

def Portably (r : ProofReceipt o) : Prop := (verifySerializedReceipt o text (.str (r.serialize o text))).valid = true ∧
  ∀ v, text.loads (r.serialize o text).toList = .ok v → fromDict o text v = .ok r

def TakenBack (v : Json) : Prop := ∃ r, fromDict o text v = .ok r ∧ Same (r.toDict o) v

variable {o} {text} in
theorem takenBack_iff (hfs : Distinct (.obj fs)) (hsame : Same (.obj fs) (c.toDict o))
    (hwell : WellFormed o Portable c) : TakenBack o text (.obj fs) ↔ WellFormed o Plain c := by
  constructor
  · rintro ⟨r,hr,-⟩
    rw [fromDict] at hr
    split at hr
    · cases hr
    · rw [readContent_same o hsame hwell.schemaVersion] at hr
      dsimp only at hr
      cases hmake : make o c.stamped with
      | error e =>
        rw [hmake] at hr
        cases hr
      | ok r' =>
        have hcontent := make_ok hmake
        exact hcontent ▸ r'.wellFormed
  · intro hplain
    exact ⟨⟨c,hplain⟩,fromDict_same text ⟨c,hplain⟩ hfs hsame,hsame.symm⟩

/-- Producer and verifier agree on everything that is built. What else is accepted is taken by the
producer exactly when no identifier hides a sensitive word, and its claims supersede one another
without a cycle exactly when none names itself. -/
theorem receipts_portable (o : Outside) (text : JsonText.Library) :
    (∀ r : ProofReceipt o, ReadsBack o text r → Portably o text r) ∧
    (∀ receipts manifest, buildReceiptManifest o receipts = .ok manifest → (verifySerializedManifest o text manifest).valid = true) ∧
    ∀ fs, Distinct (.obj fs) → (verifySerializedReceipt o text (.obj fs)).valid = true → ∃ c, readContent (.obj fs) = some c ∧
      (TakenBack o text (.obj fs) ↔ ∀ s ∈ c.identifiers, sensitive s = false) ∧
      (Acyclic c.claims ↔ ∀ claim ∈ c.claims, claim.supersedes ≠ some claim.claimId) := by
  refine ⟨fun r hback => ?_,fun receipts manifest hmanifest => manifest_valid o text hmanifest,fun fs hfs hvalid => ?_⟩
  · have hsame : Same (canon (r.toDict o)) (r.toDict o) := same_canon _
    have hdistinct : Distinct (canon (r.toDict o)) := Distinct.canon _ (r.content.distinct o)
    refine ⟨?_,fun v hv => ?_⟩
    · have hload : load text (.str (r.serialize o text)) = .ok (canon (r.toDict o)) := by
        rw [load,hback]
        rfl
      rw [verifySerializedReceipt,hload]
      exact accepted_of_same r hdistinct hsame
    · cases hback.symm.trans hv
      exact fromDict_same text r hdistinct hsame
  · obtain ⟨c,hsame,hwell⟩ := (validateReceipt_iff o hfs).mp hvalid
    refine ⟨c,readContent_same o hsame hwell.schemaVersion,?_,acyclic_iff hwell.claims⟩
    rw [takenBack_iff hfs hsame hwell,plain_iff hwell]

/-! ### A receipt -/

def sampleDigest : String := "sha256:0000000000000000000000000000000000000000000000000000000000000000"

theorem sampleDigest_shaped : matchesDigest sampleDigest = true := by decide +kernel

def sampleContent (candidate : String) (supersedes : Option String) : Content String :=
  ⟨"task","request","policy",sampleDigest,sampleDigest,[candidate],some candidate,[],[⟨"source",sampleDigest,"verified"⟩],
    [⟨"evidence",sampleDigest,"verified"⟩],"2026-01-01T00:00:00Z","2026-01-01T00:00:00Z","receipt",
    [⟨"claim","active",sampleDigest,[],["evidence"],supersedes⟩],none,SCHEMA_VERSION⟩

def modelHash : Digest := ⟨"sha256:16ac0bb50b09a035e7d9d3d31b080b64dc60c4813eafe0155ee807c1a7daaab0",by decide +kernel⟩

def tokenizerHash : Digest := ⟨"sha256:c9881bda5c5f3a8309dfeac2bcf160a23361390bcd72c1ebfdaba2704e3ea5e7",by decide +kernel⟩

def sampleHash (j : Json) : Digest :=
  if j = canon (.obj (sampleContent "model" none).protectedMembers) then modelHash
  else if j = canon (.obj (sampleContent "tokenizer-v1" (some "claim")).protectedMembers) then tokenizerHash
  else ⟨sampleDigest,sampleDigest_shaped⟩

def sampleOutside : Outside where
  Datetime := Unit
  isAware _ := true
  isoUtc _ := none
  fromisoformat s := if Path.strip s.toList = [] then none else some ()
  digest := sampleHash
  text
    | .str s => s
    | _ => ""
  unhashable _ := "unhashable type"
  isoUtc_base _ _ h := nomatch h
  fromisoformat_isoUtc _ _ h := nomatch h
  blank_refused _ h := if_pos h
  text_str _ := rfl

theorem sample_shape {candidate : String} {supersedes : Option String} (h : ∀ s ∈ supersedes, s = "claim") :
    WellFormed sampleOutside Any (sampleContent candidate supersedes) := by
  have hdigest : matchesDigest sampleDigest = true := sampleDigest_shaped
  have htime : IsTimestamp sampleOutside "2026-01-01T00:00:00Z" := by
    refine ⟨(),?_,rfl⟩
    show (if Path.strip (replace "Z" "+00:00" "2026-01-01T00:00:00Z").toList = [] then none else some ()) = some ()
    decide +kernel
  have hclaim : (⟨"claim","active",sampleDigest,[],["evidence"],supersedes⟩ : ClaimRecord).Fits Any ["evidence"] ["claim"] := {
    claimId := trivial, status := mem_cons_self, claimHash := hdigest, referenced := fun hnone => nomatch hnone.2
    receiptRefs := fun _ _ => trivial, evidenceRefs := fun r hr => ⟨trivial,hr⟩
    supersedes := fun s hs => ⟨trivial,by rw [h s hs]; exact mem_cons_self⟩}
  exact {
    schemaVersion := rfl, receiptId := trivial, taskId := trivial, requestId := trivial, policyVersion := trivial
    inputHash := hdigest, contextHash := hdigest, candidates := ⟨cons_ne_nil _ _,fun _ _ => trivial⟩
    route := fun r hr => ⟨trivial,by cases hr; exact mem_cons_self⟩, denial := fun hnone => nomatch hnone
    dropReasons := fun _ hd => absurd hd not_mem_nil
    sources := ⟨cons_ne_nil _ _,fun r hr => by rw [mem_singleton.mp hr]; exact ⟨trivial,hdigest,rfl⟩⟩
    evidence := ⟨cons_ne_nil _ _,fun r hr => by rw [mem_singleton.mp hr]; exact ⟨trivial,hdigest,rfl⟩⟩
    claims := ⟨⟨not_mem_nil,hclaim⟩,trivial⟩
    createdAt := htime, decisionAt := htime, verifiedAt := fun _ ht => nomatch ht}

theorem model_wellFormed : WellFormed sampleOutside Plain (sampleContent "model" none) :=
  wellFormed_iff.mpr ⟨sample_shape fun _ hs => (nomatch hs),
    show ∀ s ∈ (sampleContent "model" none).identifiers,matchesId s = true ∧ sensitive s = false by decide +kernel⟩

def modelReceipt : ProofReceipt sampleOutside := ⟨_,model_wellFormed⟩

theorem modelReceipt_value : ∃ v, valueOf (canon (modelReceipt.toDict sampleOutside)) = some v ∧
    v.every wholeFloats.finiteLeaf (fun _ => true) = true ∧ v.every fits (fun _ => true) = true ∧
    jsonOf v.sorted.back = some (canon (modelReceipt.toDict sampleOutside)) := by
  have hvalue : (valueOf (canon (modelReceipt.toDict sampleOutside))).isSome = true := by decide +kernel
  obtain ⟨v,hv⟩ := Option.isSome_iff_exists.mp hvalue
  have hall : ∀ v ∈ valueOf (canon (modelReceipt.toDict sampleOutside)),
      v.every wholeFloats.finiteLeaf (fun _ => true) = true ∧ v.every fits (fun _ => true) = true ∧
      jsonOf v.sorted.back = some (canon (modelReceipt.toDict sampleOutside)) := by decide +kernel
  exact ⟨v,hv,hall v hv⟩

/-- The text of a receipt is read by the parser of JSON. -/
theorem receipts_portable_sample : Portably sampleOutside compact modelReceipt := by
  obtain ⟨v,hv,hfinite,hfits,hback⟩ := modelReceipt_value
  refine (receipts_portable sampleOutside compact).1 modelReceipt ?_
  rw [ReadsBack,serialize,String.toList_ofList]
  exact JsonText.compact_reads hv hfinite hfits hback

/-- A receipt that the verifier accepts, with a candidate that the producer refuses and a claim that
supersedes itself. -/
theorem hidden_word_refused : ∃ fs, Distinct (.obj fs) ∧ ∀ text, (verifySerializedReceipt sampleOutside text (.obj fs)).valid = true ∧
    ¬TakenBack sampleOutside text (.obj fs) ∧ ∃ c, readContent (.obj fs) = some c ∧ ¬Acyclic c.claims := by
  let c := sampleContent "tokenizer-v1" (some "claim")
  have hwell : WellFormed sampleOutside Portable c :=
    wellFormed_iff.mpr ⟨sample_shape fun s hs => by cases hs; rfl,
      show ∀ s ∈ (sampleContent "tokenizer-v1" (some "claim")).identifiers,matchesId s = true ∧ sensitiveSegment s = false by decide +kernel⟩
  have hdistinct : Distinct (c.toDict sampleOutside) := c.distinct sampleOutside
  refine ⟨_,hdistinct,fun text => ⟨(validateReceipt_iff _ hdistinct).mpr ⟨c,Same.refl _,hwell⟩,fun htaken => ?_,c,
    readContent_same _ (Same.refl _) rfl,fun hacyclic => ?_⟩⟩
  · have hplain := (plain_iff hwell).mp ((takenBack_iff hdistinct (Same.refl _) hwell).mp htaken) "tokenizer-v1" (by decide)
    exact absurd hplain (by decide +kernel)
  · exact (acyclic_iff hwell.claims).mp hacyclic _ mem_cons_self rfl

end Verdict.Proof

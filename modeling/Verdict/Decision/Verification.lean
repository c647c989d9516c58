import Verdict.Basics.Raising
import Verdict.Decision.Advice

/-! # Verifying a decision

The verifier computes the digest of the receipt and the decision from the inputs, and compares
the digest, the id, and an accepted outcome. The other facts of a record are computed again and
not compared.
-/
namespace Verdict.Decision
open Json
variable {o : Outside} {i : Inputs} {record : DecisionRecord}

inductive VerificationFault
  | decisionIdDivergent | receiptTampered | acceptedOnInvalid

def verifyDecision (o : Outside) (record : DecisionRecord) (i : Inputs) : Except CanonicalError (Option VerificationFault) := do
  let digest ← receiptDigest o record.receipt
  if digest ≠ record.receipt.integrityDigest then return some .receiptTampered
  else
    let recomputed ← decide o i none none
    if recomputed.decisionId ≠ record.decisionId then return some .decisionIdDivergent
    else if record.outcome = outcomeAccepted ∧ recomputed.outcome ≠ outcomeAccepted then return some .acceptedOnInvalid
    else return none

def SameMembers (xs ys : List String) : Prop := ∀ id, id ∈ xs ↔ id ∈ ys

structure Checked (o : Outside) (record recomputed : DecisionRecord) : Prop where
  digest : receiptDigest o record.receipt = .ok record.receipt.integrityDigest
  decisionId : record.decisionId = recomputed.decisionId
  notOverstated : record.outcome = outcomeAccepted → recomputed.outcome = outcomeAccepted

/-- The facts of a record that the verifier computes again but does not compare. -/
structure Unchecked (record recomputed : DecisionRecord) : Prop where
  receiptId : record.receipt.decisionId = recomputed.decisionId
  outcome : record.outcome = recomputed.outcome
  reason : record.receipt.outcome = recomputed.receipt.outcome
  policy : record.policyVersion = recomputed.policyVersion ∧ record.receipt.policyVersion = recomputed.policyVersion
  spec : record.taskSpecCanonical = recomputed.taskSpecCanonical ∧
    record.receipt.canonicalTaskSpec = recomputed.taskSpecCanonical
  catalog : record.receipt.candidateCatalogDigest = recomputed.receipt.candidateCatalogDigest
  admitted : SameMembers (record.admitted.map ModelInfo.id) (recomputed.admitted.map ModelInfo.id) ∧
    SameMembers record.receipt.admittedSet (recomputed.admitted.map ModelInfo.id) ∧
    SameMembers record.routeContract.admittedIds (recomputed.admitted.map ModelInfo.id)
  exclusions : record.exclusions = recomputed.exclusions ∧ record.receipt.exclusions = recomputed.exclusions

/-- The record is the decision computed from the inputs, wherever it states a fact of it. -/
def Agrees (o : Outside) (record : DecisionRecord) (i : Inputs) : Prop :=
  ∃ recomputed, decide o i none none = .ok recomputed ∧ record.decisionId = recomputed.decisionId ∧
    receiptDigest o record.receipt = .ok record.receipt.integrityDigest ∧ Unchecked record recomputed

variable {recomputed : DecisionRecord}

theorem verifyDecision_iff (h : decide o i none none = .ok recomputed) :
    verifyDecision o record i = .ok none ↔ Checked o record recomputed := by
  cases hdigest : receiptDigest o record.receipt with
  | error e =>
    refine iff_of_false ?_ fun hchecked => ?_
    · rw [verifyDecision,hdigest]
      exact fun he => nomatch he
    · cases hdigest.symm.trans hchecked.digest
  | ok digest =>
    simp only [verifyDecision,hdigest,h,bind,Except.bind,pure,Except.pure]
    split
    · next hne =>
      refine iff_of_false (fun he => nomatch he) fun hchecked => hne ?_
      exact Except.ok.inj (hdigest.symm.trans hchecked.digest)
    · next hsame =>
      split
      · next hne => exact iff_of_false (fun he => nomatch he) fun hchecked => hne hchecked.decisionId.symm
      · next hid =>
        split
        · next hover => exact iff_of_false (fun he => nomatch he) fun hchecked => hover.2 (hchecked.notOverstated hover.1)
        · next hfine =>
          refine iff_of_true rfl ⟨?_,(not_not.mp hid).symm,fun haccepted => ?_⟩
          · rw [hdigest,not_not.mp hsame]
          · by_contra hnot
            exact hfine ⟨haccepted,hnot⟩

theorem agrees_iff (h : decide o i none none = .ok recomputed) :
    Agrees o record i ↔ Checked o record recomputed ∧ Unchecked record recomputed := by
  constructor
  · rintro ⟨other,hother,hid,hdigest,hrest⟩
    cases Except.ok.inj (h.symm.trans hother)
    exact ⟨⟨hdigest,hid,fun haccepted => hrest.outcome.symm.trans haccepted⟩,hrest⟩
  · rintro ⟨hchecked,hrest⟩
    exact ⟨recomputed,h,hchecked.decisionId,hchecked.digest,hrest⟩

theorem made_agrees {advisory : Option AdvisoryInput} (hrecord : Made o i advisory record)
    (hplain : decide o i none none = .ok recomputed) (hrecomputed : Made o i none recomputed) : Agrees o record i := by
  have hids : SameMembers (record.admitted.map ModelInfo.id) (recomputed.admitted.map ModelInfo.id) := by
    intro id
    rw [hrecord.admitted,hrecomputed.admitted,mem_admitted_id,mem_admitted_id]
  have hid : record.decisionId = recomputed.decisionId := by
    rw [hrecord.decisionId,hrecomputed.decisionId,idOf_advised,idOf_advised]
  have hout := (hrecord.outcome.trans (composeOutcome_advised advisory)).trans
    ((composeOutcome_advised none).symm.trans hrecomputed.outcome.symm)
  have hspec : record.taskSpecCanonical = recomputed.taskSpecCanonical := hrecord.spec.trans hrecomputed.spec.symm
  have hpolicy : record.policyVersion = recomputed.policyVersion := hrecord.policy.trans hrecomputed.policy.symm
  have hexclusions : record.exclusions = recomputed.exclusions := hrecord.exclusions.trans hrecomputed.exclusions.symm
  refine ⟨recomputed,hplain,hid,hrecord.digest,⟨hrecord.receiptId.trans hid,congrArg Prod.fst hout,congrArg Prod.snd hout,
    ⟨hpolicy,hrecord.receiptPolicy.trans hpolicy⟩,⟨hspec,hrecord.receiptSpec.trans hspec⟩,
    hrecord.catalog.trans hrecomputed.catalog.symm,⟨hids,?_,?_⟩,⟨hexclusions,hrecord.receiptExclusions.trans hexclusions⟩⟩⟩
  · rw [hrecord.receiptAdmitted]
    exact hids
  · rw [hrecord.routeAdmitted]
    exact hids

/-! ### Exactness -/

/-- The verifier finds no fault in the record exactly when it agrees with the inputs. -/
def VerifiedExactly (o : Outside) (record : DecisionRecord) (i : Inputs) : Prop :=
  verifyDecision o record i = .ok none ↔ Agrees o record i

def restamped (o : Outside) (record : DecisionRecord) (ids : List String) : Except CanonicalError DecisionRecord :=
  (stampReceiptDigest o {record.receipt with admittedSet := ids}).map fun receipt => {record with receipt := receipt}

theorem receiptDigest_stamp (r : DecisionReceipt) (digest : String) :
    receiptDigest o {r with integrityDigest := digest} = receiptDigest o r := rfl

theorem receiptDigest_ok {r : DecisionReceipt} (ids : List String) {digest : String} (h : receiptDigest o r = .ok digest) :
    ∃ other, receiptDigest o {r with admittedSet := ids} = .ok other := by
  cases hexclusions : canonicalList r.exclusions with
  | error e =>
    simp only [receiptDigest,receiptSignature,canonical,canonicalFields,canonical_strings,hexclusions,
      bind,Except.bind,Except.map] at h
    cases h
  | ok xs =>
    simp only [receiptDigest,receiptSignature,canonical,canonicalFields,canonical_strings,
      canonical_optional,hexclusions,bind,Except.bind,Except.map,pure,Except.pure]
    exact ⟨_,rfl⟩

theorem restamped_verifies (h : verifyDecision o record i = .ok none) (ids : List String)
    (admitted : List ModelInfo) : verifyDecision o {record with admitted := admitted} i = .ok none ∧ ∃
    forged, restamped o record ids = .ok forged ∧ verifyDecision o forged i = .ok none := by
  obtain ⟨recomputed,hplain,-⟩ := decide_made o i none none
  obtain ⟨hdigest,hid,hover⟩ := (verifyDecision_iff hplain).mp h
  refine ⟨(verifyDecision_iff hplain).mpr ⟨hdigest,hid,hover⟩,?_⟩
  obtain ⟨other,hother⟩ := receiptDigest_ok ids hdigest
  refine ⟨{record with receipt := {record.receipt with admittedSet := ids, integrityDigest := other}},?_,
    (verifyDecision_iff hplain).mpr ⟨?_,hid,hover⟩⟩
  · rw [restamped,stampReceiptDigest,hother]
    rfl
  · rw [receiptDigest_stamp (r := {record.receipt with admittedSet := ids})]
    exact hother

/-- A record is verified exactly just when it fails one of the three comparisons or states every
other fact as it is computed from the inputs. What `decide` makes with any advice at any time
verifies; a changed admitted list, or a receipt with other ids stamped again, always does. -/
theorem verification_exactness (o : Outside) (i : Inputs) :
    (∀ record, VerifiedExactly o record i ↔
      ∀ recomputed, decide o i none none = .ok recomputed → ¬Checked o record recomputed ∨ Unchecked record recomputed) ∧
    (∀ advisory now, ∃ record, decide o i advisory now = .ok record ∧ Agrees o record i ∧
      verifyDecision o record i = .ok none) ∧
    ∀ record ids admitted, verifyDecision o record i = .ok none →
      verifyDecision o {record with admitted := admitted} i = .ok none ∧
        ∃ forged, restamped o record ids = .ok forged ∧ verifyDecision o forged i = .ok none := by
  obtain ⟨recomputed,hplain,hmade⟩ := decide_made o i none none
  refine ⟨fun record => ?_,fun advisory now => ?_,fun record ids admitted h => restamped_verifies h ids admitted⟩
  · rw [VerifiedExactly,verifyDecision_iff hplain,agrees_iff hplain]
    constructor
    · intro h other hother
      cases Except.ok.inj (hplain.symm.trans hother)
      by_cases hchecked : Checked o record recomputed
      · exact .inr (h.mp hchecked).2
      · exact .inl hchecked
    · intro h
      rcases h recomputed hplain with hbad | hrest
      · exact iff_of_false hbad fun hboth => hbad hboth.1
      · exact ⟨fun hchecked => ⟨hchecked,hrest⟩,And.left⟩
  · obtain ⟨record,hrecord,hmade'⟩ := decide_made o i advisory now
    have hagrees := made_agrees hmade' hplain hmade
    exact ⟨record,hrecord,hagrees,(verifyDecision_iff hplain).mpr ((agrees_iff hplain).mp hagrees).1⟩

/-- A receipt that also names a model nobody offered, stamped again, is verified. -/
theorem added_model_verifies : ¬∀ (o : Outside) (record : DecisionRecord) (i : Inputs),
    o.fingerprint.Injective → VerifiedExactly o record i := by
  intro hall
  obtain ⟨record,hrecord,hmade⟩ := decide_made plainText twins none none
  have hverified : verifyDecision plainText record twins = .ok none :=
    (verifyDecision_iff hrecord).mpr ((agrees_iff hrecord).mp (made_agrees hmade hrecord hmade)).1
  obtain ⟨-,forged,hforged,hpasses⟩ := restamped_verifies hverified ["m","n"] []
  have hinjective : plainText.fingerprint.Injective := by
    intro a b h
    have hlist : "sha256:".toList ++ a.toList = "sha256:".toList ++ b.toList := by
      rw [← String.toList_append,← String.toList_append]
      exact congrArg String.toList h
    exact String.toList_inj.mp (List.append_cancel_left hlist)
  obtain ⟨recomputed,hplain,-,-,hrest⟩ := (hall plainText forged twins hinjective).mp hpasses
  cases Except.ok.inj (hrecord.symm.trans hplain)
  have hset : forged.receipt.admittedSet = ["m","n"] := by
    obtain ⟨receipt,hreceipt,rfl⟩ := Raising.map_ok.mp hforged
    obtain ⟨digest,-,rfl⟩ := Raising.map_ok.mp hreceipt
    rfl
  have hmember := (hrest.admitted.2.1 "n").mp (by rw [hset]; decide)
  rw [hmade.admitted] at hmember
  have hnames : (twins.admitted plainText none).map ModelInfo.id = ["m","m"] := by decide +kernel
  rw [hnames] at hmember
  exact absurd hmember (by decide)

end Verdict.Decision

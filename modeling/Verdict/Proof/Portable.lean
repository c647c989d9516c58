import Verdict.Proof.Acceptance

/-! # Producer and verifier

Receipts that are built are accepted by the portable verifier and read back as they are. What
the verifier accepts is read by the producer unless an identifier hides a sensitive word inside
a segment, and the claims it accepts supersede one another without a cycle unless one names itself.
-/
namespace Verdict.Proof
open Json
open JsonCodec (unknownKeys)
open Raising (bind_ok check_ok require_ok)

/-! ### Reading -/

def readText : Json → Option String
  | .str s => some s
  | _ => none

def readTexts : Json → Option (List String)
  | .arr xs => xs.mapM readText
  | _ => none

def readOptional : Json → Option (Option String)
  | .scalar .null => some none
  | .str s => some (some s)
  | _ => none

/-- `EvidenceReference(**item)` and `SourceReference(**item)`. -/
def readReference (key : String) : Json → Option Reference
  | .obj fs =>
    if unknownKeys [key,"digest"] ["status"] fs ≠ [] then none
    else do
      let id ← readText (get fs key)
      let digest ← readText (get fs "digest")
      let status ← readText ((fs.lookup "status").getD (.str "verified"))
      return ⟨id,digest,status⟩
  | _ => none

/-- `DropReason(**item)`. -/
def readReason : Json → Option DropReason
  | .obj fs =>
    if unknownKeys ["candidate_id","code"] ["evidence_id"] fs ≠ [] then none
    else do
      let candidateId ← readText (get fs "candidate_id")
      let code ← readText (get fs "code")
      let evidenceId ← readOptional (get fs "evidence_id")
      return ⟨candidateId,code,evidenceId⟩
  | _ => none

def readClaim : Json → Option ClaimRecord
  | .obj fs => do
    let claimId ← readText (get fs "claim_id")
    let status ← readText (get fs "status")
    let claimHash ← readText (get fs "claim_hash")
    let receiptRefs ← readTexts (get fs "receipt_refs")
    let evidenceRefs ← readTexts (get fs "evidence_refs")
    let supersedes ← readOptional (get fs "supersedes")
    return ⟨claimId,status,claimHash,receiptRefs,evidenceRefs,supersedes⟩
  | _ => none

def readItems {α : Type} (read : Json → Option α) : Json → Option (List α)
  | .arr xs => xs.mapM read
  | _ => none

/-- The arguments that `from_dict` takes from a payload. -/
def readContent : Json → Option (Content String)
  | .obj fs => do
    let evidence ← readItems (readReference "evidence_id") (get fs "evidence")
    let sources ← readItems (readReference "source_id") (get fs "source_references")
    let reasons ← readItems readReason (get fs "drop_reasons")
    let claims ← readItems readClaim (get fs "claims")
    let taskId ← readText (get fs "task_id")
    let requestId ← readText (get fs "request_id")
    let policyVersion ← readText (get fs "policy_version")
    let inputHash ← readText (get fs "input_hash")
    let contextHash ← readText (get fs "context_hash")
    let candidates ← readTexts (get fs "eligible_candidates")
    let route ← readOptional (get fs "selected_route")
    let createdAt ← readText (get (get fs "timestamps").fields "created_at")
    let decisionAt ← readText (get (get fs "timestamps").fields "decision_at")
    let receiptId ← readText (get fs "receipt_id")
    let verifiedAt ← readOptional (get (get fs "timestamps").fields "verified_at")
    return ⟨taskId,requestId,policyVersion,inputHash,contextHash,candidates,route,reasons,sources,evidence,createdAt,decisionAt,
      receiptId,claims,verifiedAt,SCHEMA_VERSION⟩
  | _ => none

variable (o : Outside) (text : JsonText.Library)

def fromDict (v : Json) : Except String (ProofReceipt o) :=
  if (verifySerializedReceipt o text v).valid = false then .error ("; ".intercalate (verifySerializedReceipt o text v).errors)
  else match readContent v with
    | none => .error "malformed receipt"
    | some c => match ProofReceipt.make o c.stamped with
      | .error e => .error ("malformed receipt: " ++ e)
      | .ok r => .ok r

def ProofReceipt.toDict (r : ProofReceipt o) : Json := r.content.toDict o

def ProofReceipt.serialize (r : ProofReceipt o) : String := .ofList (text.dumps (canon (r.toDict o)))

def buildReceiptManifest (receipts : List (ProofReceipt o)) : Except String Json :=
  if receipts = [] then .error "manifest must contain at least one receipt"
  else .ok (.obj [("schema_version",.str SCHEMA_VERSION),("receipts",.arr (receipts.map (ProofReceipt.toDict o))),
    ("manifest_digest",.str (canonicalHash o (.arr (receipts.map (ProofReceipt.toDict o)))).text)])

/-! ### What is written is read -/

variable {v : Json}

theorem readText_same {s : String} (h : Same v (.str s)) : readText v = some s := by
  rw [same_scalar.mp h]
  rfl

theorem readTexts_same {ss : List String} (h : Same v (texts ss)) : readTexts v = some ss := by
  obtain ⟨xs,rfl,hall⟩ := same_arr.mp h
  exact mapM_same (fun _ _ hx => readText_same hx) hall

theorem readItems_same {α : Type} {enc : α → Json} {read : Json → Option α} (hread : ∀ x a, Same x (enc a) → read x = some a)
    {as : List α} (h : Same v (.arr (as.map enc))) : readItems read v = some as := by
  obtain ⟨xs,rfl,hall⟩ := same_arr.mp h
  exact mapM_same hread hall

variable {s : Option String}

theorem readOptional_same (h : Same v (nullable s)) : readOptional v = some s := by
  cases s with
  | none =>
    rw [same_scalar.mp h]
    rfl
  | some s =>
    rw [same_scalar.mp h]
    rfl

variable {fs gs : Fields} {key : String}

theorem get_optional (h : canonFields fs = canonFields gs)
    (hs : gs.lookup key = s.map .str) : Same (get fs key) (nullable s) := by
  cases s with
  | some s => exact get_same h hs
  | none =>
    have hlookup := lookup_same h key
    rw [hs] at hlookup
    rw [Json.get,Option.map_eq_none_iff.mp hlookup]
    rfl

theorem unknownKeys_same {required optional : List String} (h : canonFields fs = canonFields gs)
    (hkeys : ∀ key ∈ gs.map Prod.fst, key ∈ required ∨ key ∈ optional) : unknownKeys required optional fs = [] := by
  refine List.filter_eq_nil_iff.mpr fun key hkey => ?_
  rw [decide_eq_true_eq,not_and_or,not_not,not_not]
  exact hkeys key (mem_keys_same h hkey)

theorem readReference_same (hkey : key ≠ "digest" ∧ key ≠ "status") {r : Reference}
    (h : Same v (r.toDict key)) : readReference key v = some r := by
  obtain ⟨fs,rfl,hfields⟩ := h.fields
  have hdigest : Same (get fs "digest") (.str r.digest) := get_same hfields (by
    rw [members,List.cons_append,Dict.lookup_cons_ite,if_neg hkey.1.symm]
    rfl)
  have hstatus : (fs.lookup "status").map canon = some (.str r.status) := by
    rw [lookup_same hfields,members,List.cons_append,Dict.lookup_cons_ite,if_neg hkey.2.symm]
    rfl
  have hid : Same (get fs key) (.str r.id) := get_same hfields (by
    rw [members,List.cons_append,Dict.lookup_cons_ite,if_pos rfl])
  obtain ⟨w,hw,hsame⟩ := Option.map_eq_some_iff.mp hstatus
  have hunknown : unknownKeys [key,"digest"] ["status"] fs = [] := unknownKeys_same hfields fun k hk => by
    have hmem := mem_members hk
    simp only [List.map_cons,List.map_nil,List.mem_cons,List.not_mem_nil,or_false] at hmem ⊢
    exact or_assoc.mpr hmem
  rw [readReference,if_neg (not_not.mpr hunknown),readText_same hid,readText_same hdigest,hw,Option.getD_some,readText_same hsame]
  rfl

theorem readReason_same {d : DropReason} (h : Same v d.toDict) : readReason v = some d := by
  obtain ⟨fs,rfl,hfields⟩ := h.fields
  have hunknown : unknownKeys ["candidate_id","code"] ["evidence_id"] fs = [] := unknownKeys_same hfields fun _ => mem_members
  have hevidence : Same (get fs "evidence_id") (nullable d.evidenceId) := get_optional hfields (by cases d.evidenceId <;> rfl)
  rw [readReason,if_neg (not_not.mpr hunknown),readText_same (get_same hfields rfl),readText_same (get_same hfields rfl),
    readOptional_same hevidence]
  rfl

theorem readClaim_same {c : ClaimRecord} (h : Same v c.toDict) : readClaim v = some c := by
  obtain ⟨fs,rfl,hfields⟩ := h.fields
  have hsupersedes : Same (get fs "supersedes") (nullable c.supersedes) := get_optional hfields (by cases c.supersedes <;> rfl)
  rw [readClaim,readText_same (get_same hfields rfl),readText_same (get_same hfields rfl),readText_same (get_same hfields rfl),
    readTexts_same (get_same hfields rfl),readTexts_same (get_same hfields rfl),readOptional_same hsupersedes]
  rfl

theorem readContent_same {c : Content String} (h : Same v (c.toDict o)) (hschema : c.schemaVersion = SCHEMA_VERSION) :
    readContent v = some c := by
  obtain ⟨fs,rfl,hfields⟩ := h.fields
  have hmember {key : String} {w : Json} (hw : (c.members o).lookup key = some w) : Same (get fs key) w := get_same hfields hw
  obtain ⟨ts,hts,htimes⟩ := (hmember rfl : Same (get fs "timestamps") c.timestamps).fields
  have hevidence := readItems_same (fun _ _ => readReference_same (by decide))
    (hmember rfl : Same (get fs "evidence") (.arr (c.evidence.map (Reference.toDict "evidence_id"))))
  have hsources := readItems_same (fun _ _ => readReference_same (by decide))
    (hmember rfl : Same (get fs "source_references") (.arr (c.sourceReferences.map (Reference.toDict "source_id"))))
  have hreasons := readItems_same (fun _ _ => readReason_same)
    (hmember rfl : Same (get fs "drop_reasons") (.arr (c.dropReasons.map DropReason.toDict)))
  have hclaims := readItems_same (fun _ _ => readClaim_same)
    (hmember rfl : Same (get fs "claims") (.arr (c.claims.map ClaimRecord.toDict)))
  have hroute := readOptional_same (hmember rfl : Same (get fs "selected_route") (nullable c.selectedRoute))
  have hcandidates := readTexts_same (hmember rfl : Same (get fs "eligible_candidates") (texts c.eligibleCandidates))
  have hverified := readOptional_same (get_optional htimes (by cases c.verifiedAt <;> rfl) : Same (get ts "verified_at") (nullable c.verifiedAt))
  have hread : readContent (.obj fs) = some {c with schemaVersion := SCHEMA_VERSION} := by
    rw [readContent,hts,Json.fields,hevidence,hsources,hreasons,hclaims,hcandidates,hroute,hverified,
      readText_same (hmember rfl : Same (get fs "task_id") (.str c.taskId)),
      readText_same (hmember rfl : Same (get fs "request_id") (.str c.requestId)),
      readText_same (hmember rfl : Same (get fs "policy_version") (.str c.policyVersion)),
      readText_same (hmember rfl : Same (get fs "input_hash") (.str c.inputHash)),
      readText_same (hmember rfl : Same (get fs "context_hash") (.str c.contextHash)),
      readText_same (hmember rfl : Same (get fs "receipt_id") (.str c.receiptId)),
      readText_same (get_same htimes rfl : Same (get ts "created_at") (.str c.createdAt)),
      readText_same (get_same htimes rfl : Same (get ts "decision_at") (.str c.decisionAt))]
    rfl
  rw [hread,← hschema]

end Verdict.Proof

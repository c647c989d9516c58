import Verdict.Basics.Raising
import Verdict.Basics.Regex
import Verdict.Basics.Same
import Verdict.Proof.Identifier

/-! # Proof receipts

What the producer of proof receipts checks before a receipt can be built, and the JSON object
it writes. The same well-formedness is stated for any notion of an identifier, as the portable
verifier has its own.
-/
namespace Verdict.Proof
open Json
open Raising (bind_ok check_ok each each_all each_ok map_ok require require_ok)

/-- Datetimes, the digest of a canonical JSON text, and how Python prints a value and an
unhashable type. A datetime in UTC is read back, and a blank text is none. -/
structure Outside where
  Datetime : Type
  isAware : Datetime → Bool
  /-- `astimezone(timezone.utc).isoformat()`, none when the moment is out of range. -/
  isoUtc : Datetime → Option String
  fromisoformat : String → Option Datetime
  digest : Json → Digest
  (text unhashable : Json → String)
  isoUtc_base : ∀ d s, isoUtc d = some s → ∃ base, s.toList = base ++ "+00:00".toList ∧ ∀ c ∈ base, c ∈ "0123456789-:.T".toList
  fromisoformat_isoUtc : ∀ d s, isoUtc d = some s → ∃ d', fromisoformat s = some d' ∧ isAware d' = true
  blank_refused : ∀ s, Path.strip s.toList = [] → fromisoformat s = none
  text_str : ∀ s, text (.str s) = s

/-- `text.replace(old, new)`. -/
def replace (old new text : String) : String :=
  .ofList (Substitute.sub (Substitute.literal old.toList new.toList) text.toList)

variable (o : Outside)

/-- A `datetime` or a text. -/
inductive Stamp
  | moment (d : o.Datetime)
  | text (s : String)

def IsTimestamp (s : String) : Prop := ∃ d, o.fromisoformat (replace "Z" "+00:00" s) = some d ∧ o.isAware d = true

/-! ### Members -/

/-- An `EvidenceReference` or a `SourceReference`. -/
structure Reference where
  (id digest : String)
  status : String := "verified"

structure DropReason where
  (candidateId code : String)
  evidenceId : Option String := none

structure ClaimRecord where
  (claimId status claimHash : String)
  receiptRefs : List String := []
  evidenceRefs : List String := []
  supersedes : Option String := none

def texts (xs : List String) : Json := .arr (xs.map .str)

/-- `to_dict`, with the name of the identifier. -/
def Reference.toDict (key : String) (r : Reference) : Json :=
  .obj (members [(key,.str r.id),("digest",.str r.digest),("status",.str r.status)] [])

def DropReason.toDict (d : DropReason) : Json :=
  .obj (members [("candidate_id",.str d.candidateId),("code",.str d.code)] [("evidence_id",d.evidenceId.map .str)])

def ClaimRecord.toDict (c : ClaimRecord) : Json :=
  .obj (members [("claim_id",.str c.claimId),("status",.str c.status),("claim_hash",.str c.claimHash),
    ("receipt_refs",texts c.receiptRefs),("evidence_refs",texts c.evidenceRefs)] [("supersedes",c.supersedes.map .str)])

def SCHEMA_VERSION : String := "1"

def claimStatuses : List String := ["active","superseded","disputed"]

structure Content (T : Type) where
  (taskId requestId policyVersion inputHash contextHash : String)
  eligibleCandidates : List String
  selectedRoute : Option String
  dropReasons : List DropReason
  (sourceReferences evidence : List Reference)
  (createdAt decisionAt : T)
  receiptId : String := ""
  claims : List ClaimRecord := []
  verifiedAt : Option T := none
  schemaVersion : String := SCHEMA_VERSION

variable {o} in
def Content.stamped (c : Content String) : Content (Stamp o) :=
  ⟨c.taskId,c.requestId,c.policyVersion,c.inputHash,c.contextHash,c.eligibleCandidates,c.selectedRoute,c.dropReasons,
    c.sourceReferences,c.evidence,.text c.createdAt,.text c.decisionAt,c.receiptId,c.claims,c.verifiedAt.map .text,c.schemaVersion⟩

def Content.evidenceIds {T : Type} (c : Content T) : List String := c.evidence.map Reference.id

def nullable : Option String → Json
  | none => .null
  | some s => .str s

def Content.timestamps (c : Content String) : Json :=
  .obj (members [("created_at",.str c.createdAt),("decision_at",.str c.decisionAt)] [("verified_at",c.verifiedAt.map .str)])

def Content.protectedMembers (c : Content String) : Fields :=
  [("schema_version",.str c.schemaVersion),("receipt_id",.str c.receiptId),("task_id",.str c.taskId),("request_id",.str c.requestId),
   ("policy_version",.str c.policyVersion),("input_hash",.str c.inputHash),("context_hash",.str c.contextHash),
   ("eligible_candidates",texts c.eligibleCandidates),("selected_route",nullable c.selectedRoute),
   ("drop_reasons",.arr (c.dropReasons.map DropReason.toDict)),
   ("source_references",.arr (c.sourceReferences.map (Reference.toDict "source_id"))),
   ("evidence",.arr (c.evidence.map (Reference.toDict "evidence_id"))),("timestamps",c.timestamps),
   ("claims",.arr (c.claims.map ClaimRecord.toDict))]

def canonicalHash (j : Json) : Digest := o.digest (canon j)

def Content.digest (c : Content String) : Digest := canonicalHash o (.obj c.protectedMembers)

def Content.toDict (c : Content String) : Json :=
  .obj (c.protectedMembers ++ [("integrity",.obj [("algorithm",.str "sha256"),("receipt_digest",.str (c.digest o).text)])])

/-! ### Well-formedness -/

section
variable (Id : String → Prop)

structure Reference.Fits (r : Reference) : Prop where
  id : Id r.id
  digest : matchesDigest r.digest = true
  status : r.status = "verified"

structure DropReason.Fits (ids : List String) (d : DropReason) : Prop where
  candidateId : Id d.candidateId
  code : Id d.code
  evidenceId : ∀ e ∈ d.evidenceId, Id e ∧ e ∈ ids

structure ClaimRecord.Fits (ids known : List String) (c : ClaimRecord) : Prop where
  claimId : Id c.claimId
  status : c.status ∈ claimStatuses
  claimHash : matchesDigest c.claimHash = true
  referenced : ¬(c.receiptRefs = [] ∧ c.evidenceRefs = [])
  receiptRefs : ∀ r ∈ c.receiptRefs, Id r
  evidenceRefs : ∀ r ∈ c.evidenceRefs, Id r ∧ r ∈ ids
  supersedes : ∀ s ∈ c.supersedes, Id s ∧ s ∈ known

def ClaimsFit (ids : List String) : List String → List ClaimRecord → Prop
  | _, [] => True
  | seen, c :: cs => (c.claimId ∉ seen ∧ c.Fits Id ids (c.claimId :: seen)) ∧ ClaimsFit ids (c.claimId :: seen) cs

structure MembersFit {T : Type} (c : Content T) : Prop where
  schemaVersion : c.schemaVersion = SCHEMA_VERSION
  receiptId : Id c.receiptId
  taskId : Id c.taskId
  requestId : Id c.requestId
  policyVersion : Id c.policyVersion
  inputHash : matchesDigest c.inputHash = true
  contextHash : matchesDigest c.contextHash = true
  candidates : c.eligibleCandidates ≠ [] ∧ ∀ s ∈ c.eligibleCandidates, Id s
  route : ∀ r ∈ c.selectedRoute, Id r ∧ r ∈ c.eligibleCandidates
  denial : c.selectedRoute = none → c.dropReasons ≠ []
  dropReasons : ∀ d ∈ c.dropReasons, d.Fits Id c.evidenceIds
  sources : c.sourceReferences ≠ [] ∧ ∀ r ∈ c.sourceReferences, r.Fits Id
  evidence : c.evidence ≠ [] ∧ ∀ r ∈ c.evidence, r.Fits Id
  claims : ClaimsFit Id c.evidenceIds [] c.claims

structure WellFormed (c : Content String) : Prop extends MembersFit Id c where
  createdAt : IsTimestamp o c.createdAt
  decisionAt : IsTimestamp o c.decisionAt
  verifiedAt : ∀ t ∈ c.verifiedAt, IsTimestamp o t

end

def Plain (s : String) : Prop := matchesId s = true ∧ sensitive s = false

/-! ### Construction -/

def checkId (value field : String) : Except String Unit := do
  require (matchesId value = true) (field ++ " must be a bounded identifier")
  require (sensitive value = false) (field ++ " contains sensitive content")

def checkDigest (value field : String) : Except String Unit :=
  require (matchesDigest value = true) (field ++ " must be a sha256 digest")

/-- `_timestamp`; a moment that is out of range raises an `OverflowError`. -/
def timestamp (field : String) : Stamp o → Except String String
  | .moment d =>
    if o.isAware d = false then .error (field ++ " must include a timezone")
    else match o.isoUtc d with
      | none => .error "date value out of range"
      | some s => .ok (replace "+00:00" "Z" s)
  | .text s => match o.fromisoformat (replace "Z" "+00:00" s) with
    | none => .error (field ++ " must be an ISO-8601 timestamp")
    | some d => if o.isAware d = false then .error (field ++ " must include a timezone") else .ok s

def Reference.postInit (idField digestField message : String) (r : Reference) : Except String Unit := do
  checkId r.id idField
  checkDigest r.digest digestField
  require (r.status = "verified") message

def EvidenceReference.postInit : Reference → Except String Unit :=
  Reference.postInit "evidence_id" "evidence.digest" "evidence must be verified"

def SourceReference.postInit : Reference → Except String Unit :=
  Reference.postInit "source_id" "source.digest" "source references must be verified"

def whenSome (f : String → Except String Unit) : Option String → Except String Unit
  | none => .ok ()
  | some s => f s

def DropReason.postInit (d : DropReason) : Except String Unit := do
  checkId d.candidateId "drop_reasons.candidate_id"
  checkId d.code "drop_reasons.code"
  whenSome (checkId · "drop_reasons.evidence_id") d.evidenceId

def ClaimRecord.postInit (c : ClaimRecord) : Except String Unit := do
  checkId c.claimId "claim_id"
  require (c.status ∈ claimStatuses) "claim status is invalid"
  checkDigest c.claimHash "claim_hash"
  require (¬(c.receiptRefs = [] ∧ c.evidenceRefs = [])) "claim must reference a receipt or evidence"
  each (fun _ ref => checkId ref "claim reference") 0 (c.receiptRefs ++ c.evidenceRefs)
  whenSome (checkId · "supersedes") c.supersedes

def checkReason (ids : List String) (d : DropReason) : Except String Unit := do
  d.postInit
  whenSome (fun e => require (e ∈ ids) "drop reason references unavailable evidence") d.evidenceId

def checkClaims (ids : List String) : List String → List ClaimRecord → Except String Unit
  | _, [] => .ok ()
  | seen, c :: cs => do
    require (c.claimId ∉ seen) "claims must have unique identifiers"
    require (∀ r ∈ c.evidenceRefs, r ∈ ids) "claim references unavailable evidence"
    require (∀ s ∈ c.supersedes, s ∈ c.claimId :: seen) "claim supersedes unavailable claim"
    checkClaims ids (c.claimId :: seen) cs

def checkRoute {T : Type} (c : Content T) : Except String Unit := match c.selectedRoute with
  | some route => do
    checkId route "selected_route"
    require (route ∈ c.eligibleCandidates) "selected_route must be one of eligible_candidates"
  | none => require (c.dropReasons ≠ []) "a denial must include at least one drop reason"

/-- The checks of `__post_init__` before the times. -/
def Content.checkMembers {T : Type} (c : Content T) : Except String Unit := do
  require (c.schemaVersion = SCHEMA_VERSION) "unsupported receipt schema_version"
  checkId c.taskId "task_id"
  checkId c.requestId "request_id"
  checkId c.policyVersion "policy_version"
  checkDigest c.inputHash "input_hash"
  checkDigest c.contextHash "context_hash"
  require (c.eligibleCandidates ≠ []) "eligible_candidates must not be empty"
  each (fun _ s => checkId s "eligible_candidates") 0 c.eligibleCandidates
  checkRoute c
  require (c.sourceReferences ≠ []) "source_references must not be empty"
  require (c.evidence ≠ []) "evidence must not be empty"
  each (fun _ r => EvidenceReference.postInit r) 0 c.evidence
  each (fun _ r => SourceReference.postInit r) 0 c.sourceReferences
  each (fun _ d => checkReason c.evidenceIds d) 0 c.dropReasons
  checkClaims c.evidenceIds [] c.claims

def timestampIf (field : String) : Option (Stamp o) → Except String (Option String)
  | none => .ok none
  | some t => (timestamp o field t).map some

/-- The constructors of the members, and then `__post_init__` of the receipt. -/
def Content.construct (c : Content (Stamp o)) : Except String (Content String) := do
  each (fun _ r => EvidenceReference.postInit r) 0 c.evidence
  each (fun _ r => SourceReference.postInit r) 0 c.sourceReferences
  each (fun _ d => DropReason.postInit d) 0 c.dropReasons
  each (fun _ r => ClaimRecord.postInit r) 0 c.claims
  c.checkMembers
  let createdAt ← timestamp o "created_at" c.createdAt
  let decisionAt ← timestamp o "decision_at" c.decisionAt
  let verifiedAt ← timestampIf o "verified_at" c.verifiedAt
  checkId c.receiptId "receipt_id"
  return {c with createdAt := createdAt, decisionAt := decisionAt, verifiedAt := verifiedAt}

/-! ### What is constructed -/

variable {value field : String}

theorem checkId_ok : checkId value field = .ok () ↔ Plain value := by
  rw [checkId,check_ok,require_ok,require_ok,Plain]

theorem checkDigest_ok : checkDigest value field = .ok () ↔ matchesDigest value = true := require_ok

theorem whenSome_ok {f : String → Except String Unit} {P : String → Prop} (h : ∀ s, f s = .ok () ↔ P s) {v : Option String} :
    whenSome f v = .ok () ↔ ∀ s ∈ v, P s := by
  cases v with
  | none => exact iff_of_true rfl fun _ hs => nomatch hs
  | some s =>
    rw [whenSome,h s]
    exact ⟨fun hs t ht => by cases ht; exact hs,fun hs => hs s rfl⟩

variable {idField digestField message : String}

theorem Reference.postInit_ok {r : Reference} :
    Reference.postInit idField digestField message r = .ok () ↔ r.Fits Plain := by
  rw [Reference.postInit,check_ok,check_ok,checkId_ok,checkDigest_ok,require_ok]
  exact ⟨fun ⟨hid,hdigest,hstatus⟩ => ⟨hid,hdigest,hstatus⟩,fun h => ⟨h.id,h.digest,h.status⟩⟩

variable {i : ℕ}

theorem ids_ok {xs : List String} : each (fun _ s => checkId s field) i xs = .ok () ↔ ∀ s ∈ xs, Plain s := by
  refine each_ok (f := fun _ s => checkId s field) (P := Plain) fun _ _ _ => ?_
  exact checkId_ok

theorem references_ok {rs : List Reference} :
    each (fun _ r => Reference.postInit idField digestField message r) i rs = .ok () ↔ ∀ r ∈ rs, r.Fits Plain := by
  refine each_ok (f := fun _ r => Reference.postInit idField digestField message r) (P := Reference.Fits Plain) fun _ _ _ => ?_
  exact Reference.postInit_ok

variable {d : DropReason}

theorem DropReason.postInit_ok :
    d.postInit = .ok () ↔ Plain d.candidateId ∧ Plain d.code ∧ ∀ e ∈ d.evidenceId, Plain e := by
  rw [DropReason.postInit,check_ok,check_ok,checkId_ok,checkId_ok,whenSome_ok fun _ => checkId_ok]

variable {ids : List String}

theorem checkReason_ok : checkReason ids d = .ok () ↔ d.Fits Plain ids := by
  rw [checkReason,check_ok,DropReason.postInit_ok,whenSome_ok fun _ => require_ok]
  exact ⟨fun ⟨⟨hid,hcode,hplain⟩,hids⟩ => ⟨hid,hcode,fun e he => ⟨hplain e he,hids e he⟩⟩,
    fun h => ⟨⟨h.candidateId,h.code,fun e he => (h.evidenceId e he).1⟩,fun e he => (h.evidenceId e he).2⟩⟩

theorem reasons_ok {ds : List DropReason} :
    each (fun _ d => checkReason ids d) i ds = .ok () ↔ ∀ d ∈ ds, d.Fits Plain ids := by
  refine each_ok (f := fun _ d => checkReason ids d) (P := DropReason.Fits Plain ids) fun _ _ _ => ?_
  exact checkReason_ok

theorem ClaimRecord.postInit_ok {c : ClaimRecord} : c.postInit = .ok () ↔
    Plain c.claimId ∧ c.status ∈ claimStatuses ∧ matchesDigest c.claimHash = true ∧ ¬(c.receiptRefs = [] ∧ c.evidenceRefs = []) ∧
      (∀ r ∈ c.receiptRefs ++ c.evidenceRefs, Plain r) ∧ ∀ s ∈ c.supersedes, Plain s := by
  rw [ClaimRecord.postInit,check_ok,check_ok,check_ok,check_ok,check_ok,checkId_ok,require_ok,checkDigest_ok,require_ok,
    ids_ok,whenSome_ok fun _ => checkId_ok]

theorem checkClaims_ok {seen : List String} {cs : List ClaimRecord} :
    (∀ c ∈ cs, c.postInit = .ok ()) ∧ checkClaims ids seen cs = .ok () ↔ ClaimsFit Plain ids seen cs := by
  induction cs generalizing seen with
  | nil => exact iff_of_true ⟨fun _ hc => absurd hc List.not_mem_nil,rfl⟩ trivial
  | cons c cs ih =>
    rw [ClaimsFit,← ih,checkClaims,check_ok,check_ok,check_ok,require_ok,require_ok,require_ok,List.forall_mem_cons,
      ClaimRecord.postInit_ok,List.forall_mem_append]
    constructor
    · rintro ⟨⟨⟨hid,hstatus,hhash,href,⟨hreceipts,hevidence⟩,hsupersedes⟩,hrest⟩,hnew,hids,hknown,hloop⟩
      exact ⟨⟨hnew,hid,hstatus,hhash,href,hreceipts,fun r hr => ⟨hevidence r hr,hids r hr⟩,
        fun s hs => ⟨hsupersedes s hs,hknown s hs⟩⟩,hrest,hloop⟩
    · rintro ⟨⟨hnew,h⟩,hrest,hloop⟩
      exact ⟨⟨⟨h.claimId,h.status,h.claimHash,h.referenced,⟨h.receiptRefs,fun r hr => (h.evidenceRefs r hr).1⟩,
        fun s hs => (h.supersedes s hs).1⟩,hrest⟩,hnew,fun r hr => (h.evidenceRefs r hr).2,fun s hs => (h.supersedes s hs).2,hloop⟩

theorem checkRoute_ok {T : Type} {c : Content T} : checkRoute c = .ok () ↔
    (∀ r ∈ c.selectedRoute, Plain r ∧ r ∈ c.eligibleCandidates) ∧ (c.selectedRoute = none → c.dropReasons ≠ []) := by
  rw [checkRoute]
  cases c.selectedRoute with
  | none =>
    rw [require_ok]
    exact ⟨fun h => ⟨fun _ hr => (nomatch hr),fun _ => h⟩,fun h => h.2 rfl⟩
  | some route =>
    rw [check_ok,checkId_ok,require_ok]
    exact ⟨fun h => ⟨fun r hr => by cases hr; exact h,fun hnone => nomatch hnone⟩,fun h => h.1 route rfl⟩

theorem members_ok {T : Type} {c : Content T} : ((∀ d ∈ c.dropReasons, d.postInit = .ok ()) ∧ (∀ r ∈ c.claims, r.postInit = .ok ()) ∧
    c.checkMembers = .ok () ∧ checkId c.receiptId "receipt_id" = .ok ()) ↔ MembersFit Plain c := by
  simp only [Content.checkMembers,EvidenceReference.postInit,SourceReference.postInit,check_ok,require_ok,checkId_ok,
    checkDigest_ok,checkRoute_ok,ids_ok,references_ok,reasons_ok]
  constructor
  · rintro ⟨-,hclaims,⟨hschema,htask,hrequest,hpolicy,hinput,hcontext,hsome,hcandidates,⟨hroute,hdenial⟩,hsources,hevidence,
      hevidenceFit,hsourcesFit,hreasons,hloop⟩,hreceipt⟩
    exact ⟨hschema,hreceipt,htask,hrequest,hpolicy,hinput,hcontext,⟨hsome,hcandidates⟩,hroute,hdenial,hreasons,⟨hsources,hsourcesFit⟩,
      ⟨hevidence,hevidenceFit⟩,checkClaims_ok.mp ⟨hclaims,hloop⟩⟩
  · intro h
    obtain ⟨hclaims,hloop⟩ := checkClaims_ok.mpr h.claims
    exact ⟨fun d hd => (check_ok.mp (checkReason_ok.mpr (h.dropReasons d hd))).1,hclaims,⟨h.schemaVersion,h.taskId,h.requestId,
      h.policyVersion,h.inputHash,h.contextHash,h.candidates.1,h.candidates.2,⟨h.route,h.denial⟩,h.sources.1,h.evidence.1,
      h.evidence.2,h.sources.2,h.dropReasons,hloop⟩,h.receiptId⟩

/-! ### Times -/

variable {t : String}

theorem timestamp_text {s : String} : timestamp o field (.text s) = .ok t ↔ t = s ∧ IsTimestamp o s := by
  rw [timestamp,IsTimestamp]
  cases hread : o.fromisoformat (replace "Z" "+00:00" s) with
  | none => exact iff_of_false (fun h => nomatch h) fun ⟨_,_,h,_⟩ => nomatch h
  | some d =>
    dsimp only
    cases haware : o.isAware d with
    | false =>
      rw [if_pos rfl]
      refine iff_of_false (fun h => nomatch h) fun ⟨_,e,he,haware'⟩ => ?_
      cases he
      exact nomatch haware.symm.trans haware'
    | true =>
      rw [if_neg Bool.true_eq_false.mp]
      exact ⟨fun h => ⟨(Except.ok.inj h).symm,d,rfl,haware⟩,fun h => congrArg Except.ok h.1.symm⟩

theorem replace_end {c : Char} {old new text : String} {r front : List Char} (hold : old.toList = c :: r)
    (htext : text.toList = front ++ c :: r) (hfront : c ∉ front) : (replace old new text).toList = front ++ new.toList := by
  rw [replace,String.toList_ofList,hold,htext]
  exact Substitute.sub_literal_end hfront

theorem timestamp_moment {d : o.Datetime} (h : timestamp o field (.moment d) = .ok t) : IsTimestamp o t := by
  rw [timestamp] at h
  split at h
  · cases h
  · split at h
    · cases h
    · next s hiso =>
      cases h
      obtain ⟨base,hs,hbase⟩ := o.isoUtc_base d s hiso
      obtain ⟨d',hread,haware⟩ := o.fromisoformat_isoUtc d s hiso
      have hplus : '+' ∉ base := fun hmem => absurd (hbase _ hmem) (by decide)
      have hzulu : 'Z' ∉ base := fun hmem => absurd (hbase _ hmem) (by decide)
      have hwritten : (replace "+00:00" "Z" s).toList = base ++ "Z".toList :=
        replace_end (c := '+') (r := "00:00".toList) rfl hs hplus
      have hback : (replace "Z" "+00:00" (replace "+00:00" "Z" s)).toList = base ++ "+00:00".toList :=
        replace_end (c := 'Z') (r := []) rfl hwritten hzulu
      have hsame : replace "Z" "+00:00" (replace "+00:00" "Z" s) = s := String.toList_injective (hback.trans hs.symm)
      exact ⟨d',by rw [hsame]; exact hread,haware⟩

theorem timestamp_ok {stamp : Stamp o} (h : timestamp o field stamp = .ok t) : IsTimestamp o t := by
  cases stamp with
  | moment d => exact timestamp_moment o h
  | text s =>
    obtain ⟨rfl,hs⟩ := (timestamp_text o).mp h
    exact hs

theorem timestampIf_ok {stamp : Option (Stamp o)} {t : Option String} (h : timestampIf o field stamp = .ok t) :
    ∀ s ∈ t, IsTimestamp o s := by
  cases stamp with
  | none =>
    cases h
    exact fun _ hs => nomatch hs
  | some stamp =>
    obtain ⟨s,hs,rfl⟩ := map_ok.mp h
    intro s' hs'
    cases hs'
    exact timestamp_ok o hs

theorem timestampIf_text {t : Option String} (h : ∀ s ∈ t, IsTimestamp o s) :
    timestampIf o field (t.map .text) = .ok t := by
  cases t with
  | none => rfl
  | some s => exact map_ok.mpr ⟨s,(timestamp_text o).mpr ⟨rfl,h s rfl⟩,rfl⟩

/-! ### Receipts -/

variable {o} in
theorem construct_wellFormed {c : Content (Stamp o)} {d : Content String} (h : c.construct o = .ok d) : WellFormed o Plain d := by
  rw [Content.construct,check_ok,check_ok,check_ok,check_ok,check_ok] at h
  obtain ⟨-,-,hreasons,hclaims,hmembers,h⟩ := h
  obtain ⟨createdAt,hcreated,h⟩ := bind_ok.mp h
  obtain ⟨decisionAt,hdecision,h⟩ := bind_ok.mp h
  obtain ⟨verifiedAt,hverified,h⟩ := bind_ok.mp h
  obtain ⟨hreceipt,h⟩ := check_ok.mp h
  cases h
  have hfit : MembersFit Plain c := members_ok.mp ⟨(each_all DropReason.postInit).mp hreasons,
    (each_all ClaimRecord.postInit).mp hclaims,hmembers,hreceipt⟩
  exact {hfit with createdAt := timestamp_ok o hcreated, decisionAt := timestamp_ok o hdecision, verifiedAt := timestampIf_ok o hverified}

variable {c : Content String}

variable {o} in
theorem construct_stamped (h : WellFormed o Plain c) : (c.stamped : Content (Stamp o)).construct o = .ok c := by
  have hfit : MembersFit Plain (c.stamped : Content (Stamp o)) := {h with}
  obtain ⟨hreasons,hclaims,hmembers,hreceipt⟩ := members_ok.mpr hfit
  rw [Content.construct,check_ok,check_ok,check_ok,check_ok,check_ok]
  refine ⟨references_ok.mpr h.evidence.2,references_ok.mpr h.sources.2,(each_all DropReason.postInit).mpr hreasons,
    (each_all ClaimRecord.postInit).mpr hclaims,hmembers,?_⟩
  refine bind_ok.mpr ⟨_,(timestamp_text o).mpr ⟨rfl,h.createdAt⟩,bind_ok.mpr ⟨_,(timestamp_text o).mpr ⟨rfl,h.decisionAt⟩,
    bind_ok.mpr ⟨_,timestampIf_text o h.verifiedAt,check_ok.mpr ⟨hreceipt,rfl⟩⟩⟩⟩

variable {o} in
theorem stamped_of_construct {d : Content String} (h : (c.stamped : Content (Stamp o)).construct o = .ok d) : d = c := by
  rw [Content.construct,check_ok,check_ok,check_ok,check_ok,check_ok] at h
  obtain ⟨-,-,-,-,-,h⟩ := h
  obtain ⟨createdAt,hcreated,h⟩ := bind_ok.mp h
  obtain ⟨decisionAt,hdecision,h⟩ := bind_ok.mp h
  obtain ⟨verifiedAt,hverified,h⟩ := bind_ok.mp h
  obtain ⟨-,h⟩ := check_ok.mp h
  cases h
  obtain ⟨rfl,-⟩ := (timestamp_text o).mp hcreated
  obtain ⟨rfl,-⟩ := (timestamp_text o).mp hdecision
  have hsame : verifiedAt = c.verifiedAt := by
    cases hv : c.verifiedAt with
    | none =>
      rw [Content.stamped,hv] at hverified
      exact (Except.ok.inj hverified).symm
    | some s =>
      rw [Content.stamped,hv] at hverified
      obtain ⟨t,ht,rfl⟩ := map_ok.mp hverified
      rw [((timestamp_text o).mp ht).1]
  rw [hsame]
  rfl

structure ProofReceipt where
  content : Content String
  wellFormed : WellFormed o Plain content

/-- `ProofReceipt(...)`. -/
def ProofReceipt.make (c : Content (Stamp o)) : Except String (ProofReceipt o) := match h : c.construct o with
  | .ok d => .ok ⟨d,construct_wellFormed h⟩
  | .error e => .error e

variable {o} in
theorem ProofReceipt.make_stamped (h : WellFormed o Plain c) :
    ProofReceipt.make o c.stamped = .ok ⟨c,h⟩ := by
  rw [ProofReceipt.make]
  split
  · next d hd =>
    cases Except.ok.inj (hd.symm.trans (construct_stamped h))
    rfl
  · next e he => cases he.symm.trans (construct_stamped h)

variable {o} in
theorem ProofReceipt.make_ok {r : ProofReceipt o} (h : ProofReceipt.make o c.stamped = .ok r) : r.content = c := by
  rw [ProofReceipt.make] at h
  split at h
  · next d hd =>
    cases h
    exact stamped_of_construct hd
  · cases h

end Verdict.Proof

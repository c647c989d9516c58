import Verdict.Proof.Identifier
import Verdict.ReceiptStore.Store

/-! # Claims

`Claim` and `ClaimTransition`, as their constructors have checked them, and the JSON form of
a claim. Times are instants in UTC: normalising and comparing them is the calendar's.
-/
namespace Verdict.Claims
open JsonCodec
open Proof
open ReceiptStore (Inert Untouched UntouchedFields UntouchedItems PlainKey KeepsSmall plainKey_of_small inert_of_alphabet
  untouchedItems_of_forall untouchedFields_of_forall)
open Json (canon canonFields)
open JsonCodec (find list)
open List (all_eq_true mem_cons mem_of_getElem? not_mem_nil)

inductive ClaimStatus
  | observed | active | verified | superseded | disputed
  deriving DecidableEq

def ClaimStatus.text : ClaimStatus → String
  | .observed => "observed"
  | .active => "active"
  | .verified => "verified"
  | .superseded => "superseded"
  | .disputed => "disputed"

/-- `_STATUSES`. -/
def ClaimStatus.all : List ClaimStatus := [.observed,.active,.verified,.superseded,.disputed]

def ClaimStatus.of (s : String) : Option ClaimStatus := ClaimStatus.all.find? fun status => status.text = s

def ClaimStatus.transitions : ClaimStatus → List ClaimStatus
  | .observed => [.active,.verified,.superseded,.disputed]
  | .active => [.verified,.superseded,.disputed]
  | .verified => [.active,.superseded,.disputed]
  | .disputed => [.active,.verified]
  | .superseded => []

variable (status : ClaimStatus)

theorem ClaimStatus.of_text : ClaimStatus.of status.text = some status := by
  cases status <;> rfl

/-- Datetimes as the ledger uses them: instants with a timezone, their order, their ISO text in UTC and what is
read from a text; and the digest of a text. -/
structure Outside where
  Instant : Type
  before : Instant → Instant → Bool
  isoformat : Instant → String
  fromisoformat : String → Option Instant
  fromisoformat_isoformat : ∀ t, fromisoformat (isoformat t) = some t
  isoformat_chars : ∀ t, ∀ c ∈ (isoformat t).toList, c ∈ "0123456789-:.TZ".toList
  claimHash : String → Digest

def isConfidence : Scalar → Bool
  | .int n => decide (0 ≤ n ∧ n ≤ 1)
  | .float q => decide (0 ≤ q ∧ q ≤ 1)
  | .negZero => true
  | _ => false

/-- A `SourceReference` or an `EvidenceReference`; its status is `verified`. -/
structure Reference where
  id : Identifier
  digest : Digest

def NonBlank (s : String) : Prop := Path.strip s.toList ≠ []

instance (s : String) : Decidable (NonBlank s) := inferInstanceAs (Decidable (_ ≠ _))

variable (o : Outside)

structure Claim where
  (claimId subject : Identifier)
  textHash : Digest
  status : ClaimStatus
  observedAt : o.Instant
  verifiedAt : Option o.Instant
  confidence : Scalar
  (sourceRefs evidenceRefs : List Reference)
  supersedes : Option Identifier
  sourceType : Identifier
  /-- Only in memory, and never written. -/
  text : Option String
  ordered : ∀ t, verifiedAt = some t → o.before t observedAt = false
  confident : isConfidence confidence = true
  referenced : ¬(sourceRefs = [] ∧ evidenceRefs = [])
  hashed : ∀ s, text = some s → NonBlank s ∧ o.claimHash s = textHash

structure ClaimTransition where
  (transitionId claimId : Identifier)
  (fromStatus toStatus : ClaimStatus)
  occurredAt : o.Instant
  reason : String
  supersededBy : Option Identifier
  explained : NonBlank reason

inductive ClaimsError
  | ledger (message : String)
  | transition (message : String)
  | store (e : ReceiptStore.StoreError)

variable {o}
variable (c : Claim o)

def Claim.withStatus : Claim o := {c with status := status}

def Claim.persisted : Claim o := {c with text := none, hashed := fun _ h => (by cases h)}

/-! ### JSON -/

def nullable {α : Type} (c : Codec α) (h : ∀ a, canon (c.encode a) ≠ .null) : Codec (Option α) where
  encode
    | none => .null
    | some a => c.encode a
  decode j := if j = .null then some none else (c.decode j).map some
  settled := Option.map c.settled
  roundTrip
    | none => rfl
    | some a => by
      simp only
      rw [if_neg (h a),c.roundTrip]
      rfl

def statusCodec : Codec ClaimStatus where
  encode status := .str status.text
  decode
    | .str s => ClaimStatus.of s
    | _ => none
  settled := id
  roundTrip := ClaimStatus.of_text

variable (o) in
/-- `_timestamp`. -/
def instantCodec : Codec o.Instant where
  encode t := .str (o.isoformat t)
  decode
    | .str s => o.fromisoformat s
    | _ => none
  settled := id
  roundTrip := o.fromisoformat_isoformat

def confidenceCodec : Codec {s : Scalar // isConfidence s = true} where
  encode s := .scalar s.1
  decode
    | .scalar s => if h : isConfidence s = true then some ⟨s,h⟩ else none
    | _ => none
  settled := id
  roundTrip s := dif_pos s.2

def nullableId : Codec (Option Identifier) := nullable identifierCodec fun _ h => (by cases h)

variable (o) in
def nullableInstant : Codec (Option o.Instant) := nullable (instantCodec o) fun _ h => (by cases h)

variable (key : String)

/-- The fields of a reference whose identifier stands under `key`. -/
def Reference.entries (r : Reference) : List (String × Option Json) :=
  [field key identifierCodec r.id,field "digest" digestCodec r.digest,field "status" string "verified"]

def Reference.read : Json → Option Reference
  | .obj fs =>
    if missingKeys [key,"digest"] fs ≠ [] ∨ unknownKeys [key,"digest"] ["status"] fs ≠ [] then none
    else do
      let id ← need identifierCodec key fs
      let digest ← need digestCodec "digest" fs
      let status ← find string "status" fs
      if status.getD "verified" = "verified" then some ⟨id,digest⟩ else none
  | _ => none

theorem Reference.read_entries {key : String} (hkey : key ≠ "digest" ∧ key ≠ "status") (r : Reference) :
    Reference.read key (canon (.obj (record (r.entries key)))) = some r := by
  have hnodup : ((r.entries key).map Prod.fst).Nodup := by
    show [key,"digest","status"].Nodup
    simpa using hkey
  have hid := lookup_record hnodup (mem_of_getElem? (show (r.entries key)[0]? = some (field key identifierCodec r.id) from rfl))
  have hdigest := lookup_record hnodup
    (mem_of_getElem? (show (r.entries key)[1]? = some (field "digest" digestCodec r.digest) from rfl))
  have hstatus := lookup_record hnodup
    (mem_of_getElem? (show (r.entries key)[2]? = some (fieldIf "status" string (some "verified")) from rfl))
  have hmissing : missingKeys [key,"digest"] (canonFields (record (r.entries key))) = [] := by
    refine missingKeys_eq_nil fun k hk => ?_
    rcases mem_cons.mp hk with rfl | hk
    · rw [hid]
      exact Option.some_ne_none _
    · rw [List.mem_singleton.mp hk,hdigest]
      exact Option.some_ne_none _
  have hunknown : unknownKeys [key,"digest"] ["status"] (canonFields (record (r.entries key))) = [] := by
    refine unknownKeys_eq_nil fun e he => ?_
    have hname : e.1 ∈ [key,"digest","status"] := mem_record he
    simp only [mem_cons,not_mem_nil,or_false] at hname ⊢
    exact (or_assoc).mpr hname
  rw [canon,Reference.read,if_neg (by rw [hmissing,hunknown]; simp),need_canonFields hid,need_canonFields hdigest,
    find_canonFields hstatus]
  rfl

def referenceCodec (hkey : key ≠ "digest" ∧ key ≠ "status") : Codec Reference where
  encode r := .obj (record (r.entries key))
  decode := Reference.read key
  settled := id
  roundTrip := Reference.read_entries hkey

def sourceCodec : Codec Reference := referenceCodec "source_id" (by decide)
def evidenceCodec : Codec Reference := referenceCodec "evidence_id" (by decide)

def CLAIMS_LEDGER_SCHEMA_VERSION : String := "1"

def Claim.entries : List (String × Option Json) :=
  [field "schema_version" string CLAIMS_LEDGER_SCHEMA_VERSION,field "claim_id" identifierCodec c.claimId,
    field "subject" identifierCodec c.subject,field "text_hash" digestCodec c.textHash,field "status" statusCodec c.status,
    field "observed_at" (instantCodec o) c.observedAt,field "verified_at" (nullableInstant o) c.verifiedAt,
    field "confidence" confidenceCodec ⟨c.confidence,c.confident⟩,field "source_type" identifierCodec c.sourceType,
    field "source_refs" (list sourceCodec) c.sourceRefs,field "evidence_refs" (list evidenceCodec) c.evidenceRefs,
    fieldIf "supersedes" nullableId (c.supersedes.map some)]

def Claim.toDict : Fields := record c.entries

def Claim.required : List String :=
  ["schema_version","claim_id","subject","text_hash","status","observed_at","verified_at","confidence","source_type",
   "source_refs","evidence_refs"]

def typed {α : Type} : Option α → Except ClaimsError α
  | some a => .ok a
  | none => .error (.ledger "malformed claim")

def Claim.fromDict : Json → Except ClaimsError (Claim o)
  | .obj fs => do
    if unknownKeys Claim.required ["supersedes"] fs ≠ [] then throw (.ledger "claim contains unknown fields")
    if missingKeys Claim.required fs ≠ [] then throw (.ledger "claim is missing required fields")
    if need string "schema_version" fs ≠ some CLAIMS_LEDGER_SCHEMA_VERSION then
      throw (.ledger "unsupported claims ledger schema version")
    let claimId ← typed (need identifierCodec "claim_id" fs)
    let subject ← typed (need identifierCodec "subject" fs)
    let textHash ← typed (need digestCodec "text_hash" fs)
    let status ← typed (need statusCodec "status" fs)
    let observedAt ← typed (need (instantCodec o) "observed_at" fs)
    let verifiedAt ← typed (need (nullableInstant o) "verified_at" fs)
    let confidence ← typed (need confidenceCodec "confidence" fs)
    let sourceType ← typed (need identifierCodec "source_type" fs)
    let sourceRefs ← typed (need (list sourceCodec) "source_refs" fs)
    let evidenceRefs ← typed (need (list evidenceCodec) "evidence_refs" fs)
    let supersedes ← typed (find nullableId "supersedes" fs)
    if h : (∀ t, verifiedAt = some t → o.before t observedAt = false) ∧ ¬(sourceRefs = [] ∧ evidenceRefs = []) then
      return {
        claimId := claimId, subject := subject, textHash := textHash, status := status, observedAt := observedAt
        verifiedAt := verifiedAt, confidence := confidence.1, sourceRefs := sourceRefs, evidenceRefs := evidenceRefs
        supersedes := supersedes.join, sourceType := sourceType, text := none
        ordered := h.1, confident := confidence.2, referenced := h.2, hashed := fun _ h => (by cases h) }
    throw (.ledger "malformed claim")
  | _ => .error (.ledger "claim must be an object")

theorem Claim.fromDict_toDict : Claim.fromDict (canon (.obj c.toDict)) = .ok c.persisted := by
  have hnodup : (c.entries.map Prod.fst).Nodup := by
    show (Claim.required ++ ["supersedes"]).Nodup
    decide
  have hread {α : Type} {key : String} {d : Codec α} {a : α} (i : ℕ) (h : c.entries[i]? = some (field key d a)) :
      need d key (canonFields c.toDict) = some (d.settled a) :=
    need_canonFields (lookup_record hnodup (mem_of_getElem? h))
  have hsupersedes : find nullableId "supersedes" (canonFields c.toDict) =
      some ((c.supersedes.map some).map nullableId.settled) :=
    find_canonFields (lookup_record hnodup (mem_of_getElem? (show c.entries[11]? = some _ from rfl)))
  have hunknown : unknownKeys Claim.required ["supersedes"] (canonFields c.toDict) = [] :=
    unknownKeys_eq_nil fun e he => List.mem_append.mp (show e.1 ∈ Claim.required ++ ["supersedes"] from mem_record he)
  have hmissing : missingKeys Claim.required (canonFields c.toDict) = [] := by
    refine missingKeys_eq_nil fun key hkey => ?_
    have hrequired : Claim.required.all (fun key => (c.entries.lookup key).join.isSome) = true := rfl
    obtain ⟨j,hj⟩ := Option.isSome_iff_exists.mp (all_eq_true.mp hrequired key hkey)
    rw [Claim.toDict,lookup_record hnodup (Dict.lookup_some_mem (Option.join_eq_some_iff.mp hj))]
    exact Option.some_ne_none j
  have hverified : (nullableInstant o).settled c.verifiedAt = c.verifiedAt := by
    cases hv : c.verifiedAt <;> rfl
  have hjoin : ((c.supersedes.map some).map nullableId.settled).join = c.supersedes := by
    cases hs : c.supersedes <;> rfl
  have hrefs (d : Codec Reference) (hd : d.settled = id) (rs : List Reference) : (list d).settled rs = rs := by
    show rs.map d.settled = rs
    rw [hd,List.map_id]
  simp only [canon,Claim.fromDict,hunknown,hmissing,ne_eq,not_true_eq_false,if_false,hread 0 rfl,hread 1 rfl,
    hread 2 rfl,hread 3 rfl,hread 4 rfl,hread 5 rfl,hread 6 rfl,hread 7 rfl,hread 8 rfl,hread 9 rfl,hread 10 rfl,
    hsupersedes,typed,bind,Except.bind,pure,Except.pure]
  simp only [hverified,hrefs sourceCodec rfl,hrefs evidenceCodec rfl]
  rw [if_neg (by simp),dif_pos ⟨c.ordered,c.referenced⟩]
  simp only [hjoin]
  rfl

/-! ### Transitions -/

theorem Digest.nonBlank (d : Digest) : NonBlank d.text := strip_of_matchesDigest d.shaped

variable (t : ClaimTransition o)

def ClaimTransition.hashed : ClaimTransition o :=
  {t with reason := (o.claimHash t.reason).text, explained := Digest.nonBlank _}

def ClaimTransition.entries : List (String × Option Json) :=
  [field "schema_version" string CLAIMS_LEDGER_SCHEMA_VERSION,field "transition_id" identifierCodec t.transitionId,
    field "claim_id" identifierCodec t.claimId,field "from_status" statusCodec t.fromStatus,
    field "to_status" statusCodec t.toStatus,field "occurred_at" (instantCodec o) t.occurredAt,
    field "reason" string t.reason,fieldIf "superseded_by" nullableId (t.supersededBy.map some)]

def ClaimTransition.toDict : Fields := record t.entries

/-- The constructor call of `from_receipt_store`. -/
def ClaimTransition.read (payload : Fields) : Except ClaimsError (ClaimTransition o) := do
  let transitionId ← typed (need identifierCodec "transition_id" payload)
  let claimId ← typed (need identifierCodec "claim_id" payload)
  let fromStatus ← typed (need statusCodec "from_status" payload)
  let toStatus ← typed (need statusCodec "to_status" payload)
  let occurredAt ← typed (need (instantCodec o) "occurred_at" payload)
  let reason ← typed (need string "reason" payload)
  let supersededBy ← typed (find nullableId "superseded_by" payload)
  if h : NonBlank reason then
    return ⟨transitionId,claimId,fromStatus,toStatus,occurredAt,reason,supersededBy.join,h⟩
  throw (.ledger "transition reason must be non-empty")

theorem ClaimTransition.read_toDict : ClaimTransition.read (canonFields t.toDict) = .ok t := by
  have hnodup : (t.entries.map Prod.fst).Nodup := by
    show ["schema_version","transition_id","claim_id","from_status","to_status","occurred_at","reason","superseded_by"].Nodup
    decide
  have hread {α : Type} {key : String} {d : Codec α} {a : α} (i : ℕ) (h : t.entries[i]? = some (field key d a)) :
      need d key (canonFields t.toDict) = some (d.settled a) :=
    need_canonFields (lookup_record hnodup (mem_of_getElem? h))
  have hsuperseded : find nullableId "superseded_by" (canonFields t.toDict) =
      some ((t.supersededBy.map some).map nullableId.settled) :=
    find_canonFields (lookup_record hnodup (mem_of_getElem? (show t.entries[7]? = some _ from rfl)))
  have hjoin : ((t.supersededBy.map some).map nullableId.settled).join = t.supersededBy := by
    cases hs : t.supersededBy <;> rfl
  simp only [ClaimTransition.read,hread 1 rfl,hread 2 rfl,hread 3 rfl,hread 4 rfl,hread 5 rfl,hread 6 rfl,hsuperseded,
    typed,bind,Except.bind,pure,Except.pure]
  rw [dif_pos (show NonBlank (string.settled t.reason) from t.explained),hjoin]
  rfl

/-! ### Redaction -/

section
variable {lower : String → String}

instance (lower : String → String) (name : String) : Decidable (PlainKey lower name) := inferInstanceAs (Decidable (_ ∧ _))

def payloadKeys : List String :=
  ["kind","claim","transition","supersedes","source_id","evidence_id","digest","transition_id","from_status","to_status",
   "occurred_at","reason","superseded_by"] ++ Claim.required

theorem payloadKeys_plain (hlower : KeepsSmall lower) : ∀ name ∈ payloadKeys, PlainKey lower name := by
  have hsmall : (payloadKeys.all fun name => name.toList.all fun c => c.isLower || c.isDigit || c == '_') = true := by decide
  have hplain : ∀ name ∈ payloadKeys, PlainKey id name := by decide
  refine fun name hname => plainKey_of_small hlower (fun c hc => ?_) (hplain name hname)
  simpa [or_assoc] using all_eq_true.mp (all_eq_true.mp hsmall name hname) c hc

theorem inert_literal {s : String}
    (h : (ReceiptStore.secretWords.all fun w => w.toList.any fun p => s.toList.all fun c => !ReceiptStore.sameLetter p c) = true)
    (huser : '@' ∉ s.toList) (hquery : '?' ∉ s.toList) : Inert s :=
  inert_of_alphabet s.toList (fun _ hc => hc) h huser hquery

theorem ClaimStatus.inert (status : ClaimStatus) : Inert status.text := by
  cases status <;> exact inert_literal (by decide) (by decide) (by decide)

theorem isoformat_inert (t : o.Instant) : Inert (o.isoformat t) :=
  inert_of_alphabet _ (o.isoformat_chars t) (by decide) (by decide) (by decide)

theorem untouched_record {es : List (String × Option Json)} (hkeys : ∀ e ∈ es, PlainKey lower e.1)
    (h : ∀ e ∈ es, ∀ j, e.2 = some j → Untouched lower j) : UntouchedFields lower (record es) := by
  refine untouchedFields_of_forall fun e he => ?_
  obtain ⟨f,hf,hsome⟩ := List.mem_filterMap.mp he
  obtain ⟨j,hj,rfl⟩ := Option.map_eq_some_iff.mp hsome
  exact ⟨hkeys f hf,h f hf j hj⟩

theorem Reference.untouched (hlower : KeepsSmall lower) {key : String} (hkey : key ∈ payloadKeys) (r : Reference) :
    Untouched lower (.obj (record (r.entries key))) := by
  refine untouched_record (fun e he => ?_) ?_
  · have hname : e.1 ∈ [key,"digest","status"] := List.mem_map_of_mem he
    refine payloadKeys_plain hlower e.1 ?_
    simp only [mem_cons,not_mem_nil,or_false] at hname
    rcases hname with h | h | h
    · exact h ▸ hkey
    · rw [h]
      decide
    · rw [h]
      decide
  · simp only [Reference.entries,List.forall_mem_cons,field,Option.some.injEq,forall_eq']
    exact ⟨r.id.inert,r.digest.inert,inert_literal (by decide) (by decide) (by decide),fun _ h => absurd h not_mem_nil⟩

theorem references_untouched (hlower : KeepsSmall lower) {key : String} (hkey : key ∈ payloadKeys)
    (hne : key ≠ "digest" ∧ key ≠ "status") (rs : List Reference) :
    Untouched lower ((list (referenceCodec key hne)).encode rs) := by
  refine untouchedItems_of_forall fun j hj => ?_
  obtain ⟨r,-,rfl⟩ := List.mem_map.mp hj
  exact r.untouched hlower hkey

theorem nullableId_untouched (i : Option Identifier) : ∀ j, (fieldIf "" nullableId (i.map some)).2 = some j → Untouched lower j := by
  cases i with
  | none => exact fun _ h => (by cases h)
  | some i =>
    intro j h
    cases h
    exact i.inert

theorem Claim.untouched (hlower : KeepsSmall lower) (c : Claim o) : UntouchedFields lower c.toDict := by
  refine untouched_record (fun e he => ?_) ?_
  · have hname : e.1 ∈ Claim.required ++ ["supersedes"] := List.mem_map_of_mem he
    have hall : ∀ name ∈ Claim.required ++ ["supersedes"], name ∈ payloadKeys := by decide
    exact payloadKeys_plain hlower e.1 (hall e.1 hname)
  · have hverified : Untouched lower ((nullableInstant o).encode c.verifiedAt) := by
      cases c.verifiedAt with
      | none => exact trivial
      | some t => exact isoformat_inert t
    have hconfidence : Untouched lower (confidenceCodec.encode ⟨c.confidence,c.confident⟩) := by
      show Untouched lower (.scalar c.confidence)
      have hnumber := c.confident
      cases hc : c.confidence with
      | str t =>
        rw [hc] at hnumber
        cases hnumber
      | _ => exact trivial
    simp only [Claim.entries,List.forall_mem_cons,field,Option.some.injEq,forall_eq']
    exact ⟨inert_literal (by decide) (by decide) (by decide),c.claimId.inert,c.subject.inert,c.textHash.inert,
      c.status.inert,isoformat_inert c.observedAt,hverified,hconfidence,c.sourceType.inert,
      references_untouched hlower (by decide) (by decide) c.sourceRefs,references_untouched hlower (by decide) (by decide) c.evidenceRefs,
      nullableId_untouched c.supersedes,fun _ h => absurd h not_mem_nil⟩

theorem ClaimTransition.untouched (hlower : KeepsSmall lower) (t : ClaimTransition o) :
    UntouchedFields lower t.hashed.toDict := by
  refine untouched_record (fun e he => ?_) ?_
  · have hname : e.1 ∈ ["schema_version","transition_id","claim_id","from_status","to_status","occurred_at","reason","superseded_by"] :=
      List.mem_map_of_mem he
    have hall : ∀ name ∈ ["schema_version","transition_id","claim_id","from_status","to_status","occurred_at","reason","superseded_by"],
      name ∈ payloadKeys := by decide
    exact payloadKeys_plain hlower e.1 (hall e.1 hname)
  · simp only [ClaimTransition.entries,List.forall_mem_cons,field,Option.some.injEq,forall_eq']
    exact ⟨inert_literal (by decide) (by decide) (by decide),t.transitionId.inert,t.claimId.inert,t.fromStatus.inert,
      t.toStatus.inert,isoformat_inert t.occurredAt,(o.claimHash t.reason).inert,nullableId_untouched t.supersededBy,
      fun _ h => absurd h not_mem_nil⟩

end
end Verdict.Claims

import Verdict.Proof.Verifier

/-! # What the verifier accepts

A JSON object is accepted exactly when it is equal to what is written of a receipt that is
well formed for the verifier's own notion of an identifier.
-/
namespace Verdict.Proof
open Json
open JsonCodec (missingKeys unknownKeys)
open Raising (bind_ok check_ok each each_all each_ok map_ok require require_ok)
open Distinct (item)
open Json (arr obj scalar)
open List (forall_mem_cons map_cons map_eq_nil_iff mem_cons_self not_mem_nil)

variable (o : Outside)

/-! ### Values -/

variable {v : Json} {name s : String}

theorem checkString_ok : checkString v name = .ok s ↔ v = .str s ∧ Path.strip s.toList ≠ [] := by
  rw [checkString.eq_def]
  split
  · next t =>
    split
    · next hblank => exact iff_of_false (fun h => nomatch h) fun ⟨hv,hs⟩ => by cases hv; exact hs hblank
    · next hblank =>
      constructor
      · intro h
        cases h
        exact ⟨rfl,hblank⟩
      · rintro ⟨hv,-⟩
        cases hv
        rfl
  · next hno => exact iff_of_false (fun h => nomatch h) fun h => hno s h.1

theorem checkIdentifier_ok : checkIdentifier v name = .ok () ↔ ∃ s, v = .str s ∧ Portable s := by
  rw [checkIdentifier,bind_ok]
  refine exists_congr fun s => ?_
  rw [checkString_ok,check_ok,require_ok,require_ok]
  exact ⟨fun ⟨⟨hv,_⟩,hs⟩ => ⟨hv,hs⟩,fun ⟨hv,hs⟩ => ⟨⟨hv,strip_of_matchesId hs.1⟩,hs⟩⟩

theorem checkSha_ok : checkSha v name = .ok () ↔ ∃ s, v = .str s ∧ matchesDigest s = true := by
  rw [checkSha,bind_ok]
  refine exists_congr fun s => ?_
  rw [checkString_ok,require_ok]
  exact ⟨fun ⟨⟨hv,_⟩,hs⟩ => ⟨hv,hs⟩,fun ⟨hv,hs⟩ => ⟨⟨hv,strip_of_matchesDigest hs⟩,hs⟩⟩

variable {o} in
theorem strip_of_timestamp (h : IsTimestamp o s) : Path.strip s.toList ≠ [] := by
  intro hblank
  have hzulu : 'Z' ∉ s.toList := fun hmem => Path.strip_ne_nil hmem (by decide) hblank
  have hsame : replace "Z" "+00:00" s = s := by
    rw [replace]
    exact (congrArg String.ofList (Substitute.sub_literal_of_not_mem (r := []) hzulu)).trans String.ofList_toList
  obtain ⟨d,hd,-⟩ := h
  rw [hsame,o.blank_refused s hblank] at hd
  cases hd

theorem checkTimestamp_ok : checkTimestamp o v name = .ok () ↔ ∃ s, v = .str s ∧ IsTimestamp o s := by
  rw [checkTimestamp,bind_ok]
  refine exists_congr fun s => ?_
  have hzone : checkZone o name (o.fromisoformat (replace "Z" "+00:00" s)) = .ok () ↔ IsTimestamp o s := by
    rw [IsTimestamp]
    cases o.fromisoformat (replace "Z" "+00:00" s) with
    | none =>
      refine iff_of_false ?_ ?_
      · rintro h
        cases h
      · rintro ⟨_,h,_⟩
        cases h
    | some d =>
      rw [checkZone,require_ok]
      constructor
      · exact fun h => ⟨d,rfl,h⟩
      · rintro ⟨_,he,h⟩
        cases he
        exact h
  rw [checkString_ok,hzone]
  constructor
  · rintro ⟨⟨hv,-⟩,hs⟩
    exact ⟨hv,hs⟩
  · rintro ⟨hv,hs⟩
    exact ⟨⟨hv,strip_of_timestamp hs⟩,hs⟩

variable {message : String}

theorem checkAmong_ok {values : List String} :
    checkAmong o values v message = .ok () ↔ ∃ s, v = .str s ∧ s ∈ values := by
  rw [checkAmong.eq_def]
  split
  · next t =>
    rw [require_ok,List.mem_map]
    exact ⟨fun ⟨s,hs,ht⟩ => ⟨s,congrArg scalar ht.symm,hs⟩,fun ⟨s,ht,hs⟩ => ⟨s,hs,(scalar.inj ht).symm⟩⟩
  · next hno => exact iff_of_false (fun h => nomatch h) fun ⟨s,hv,_⟩ => hno _ hv

variable {xs : List Json}

theorem checkArray_ok : checkArray v message = .ok xs ↔ v = .arr xs := by
  rw [checkArray.eq_def]
  split
  · exact ⟨fun h => congrArg arr (Except.ok.inj h),fun h => congrArg Except.ok (arr.inj h)⟩
  · next hno => exact iff_of_false (fun h => nomatch h) fun h => hno _ h

theorem checkNonEmpty_ok : checkNonEmpty v message = .ok xs ↔ v = .arr xs ∧ xs ≠ [] := by
  rw [checkNonEmpty,bind_ok]
  constructor
  · rintro ⟨ys,hys,h⟩
    obtain ⟨hne,h⟩ := check_ok.mp h
    cases h
    exact ⟨checkArray_ok.mp hys,require_ok.mp hne⟩
  · rintro ⟨hv,hne⟩
    exact ⟨xs,checkArray_ok.mpr hv,check_ok.mpr ⟨require_ok.mpr hne,rfl⟩⟩

variable {fs : Fields}

theorem requiredObject_ok {required optional : List String} :
    requiredObject v name required optional = .ok fs ↔ v = .obj fs ∧ Keys required optional fs := by
  have hmissing (gs : Fields) : missingKeys required gs = [] ↔ ∀ key ∈ required, gs.lookup key ≠ none := by
    rw [missingKeys,List.filter_eq_nil_iff]
    exact forall₂_congr fun key _ => by rw [Option.isNone_iff_eq_none]
  have hunknown (gs : Fields) : unknownKeys required optional gs = [] ↔ ∀ key ∈ gs.map Prod.fst, key ∈ required ∨ key ∈ optional := by
    rw [unknownKeys,List.filter_eq_nil_iff]
    refine forall₂_congr fun key _ => ?_
    rw [decide_eq_true_eq,not_and_or,not_not,not_not]
  rw [requiredObject.eq_def]
  split
  · next gs =>
    rw [Keys]
    split
    · next h => exact iff_of_false (fun he => nomatch he) fun ⟨hv,hk,_⟩ => by cases hv; exact h ((hmissing _).mpr hk)
    · next hm =>
      split
      · next h => exact iff_of_false (fun he => nomatch he) fun ⟨hv,_,hk⟩ => by cases hv; exact h ((hunknown _).mpr hk)
      · next hu =>
        rw [not_not] at hm hu
        constructor
        · intro h
          cases h
          exact ⟨rfl,(hmissing _).mp hm,(hunknown _).mp hu⟩
        · rintro ⟨hv,-⟩
          cases hv
          rfl
  · next hno => exact iff_of_false (fun he => nomatch he) fun ⟨hv,_⟩ => hno _ hv

theorem whenThere_ok {f : Json → Except String Unit} {P : String → Prop} {key : String}
    (h : ∀ v, f v = .ok () ↔ ∃ s, v = .str s ∧ P s) :
    whenThere f key fs = .ok () ↔ ∃ s : Option String, fs.lookup key = s.map .str ∧ ∀ t ∈ s, P t := by
  rw [whenThere]
  cases hl : fs.lookup key with
  | none => exact iff_of_true rfl ⟨none,rfl,fun _ ht => nomatch ht⟩
  | some v =>
    dsimp only
    rw [h v]
    constructor
    · rintro ⟨s,rfl,hs⟩
      exact ⟨some s,rfl,fun t ht => by cases ht; exact hs⟩
    · rintro ⟨s,hs,ht⟩
      cases s with
      | none => cases hs
      | some s =>
        cases hs
        exact ⟨s,rfl,ht s rfl⟩

/-! ### Members -/

variable {i : ℕ}

theorem checkSource_ok (hv : Distinct v) :
    checkSource o i v = .ok () ↔ ∃ r : Reference, Same v (r.toDict "source_id") ∧ r.Fits Portable := by
  refine Iff.trans ?_ (object_same (r := ["source_id","digest","status"]) (s := [])
    (Q := fun fs => (∃ s, get fs "source_id" = .str s ∧ Portable s) ∧ (∃ s, get fs "digest" = .str s ∧ matchesDigest s = true) ∧
      ∃ s, get fs "status" = .str s ∧ s ∈ ["verified"])
    (fun _ => rfl) (fun _ => rfl) (by decide) hv fun fs _ => ?_)
  · rw [checkSource,bind_ok]
    refine exists_congr fun fs => ?_
    rw [requiredObject_ok,check_ok,check_ok,checkIdentifier_ok,checkSha_ok,checkAmong_ok,and_assoc]
  · simp only [forall_mem_cons,not_mem_nil,false_imp_iff,implies_true,and_true,same_scalar]
    constructor
    · rintro ⟨⟨s,hs,hid⟩,⟨d,hd,hdigest⟩,⟨t,ht,hverified⟩⟩
      exact ⟨⟨s,d,t⟩,⟨hs,hd,ht⟩,⟨hid,hdigest,List.mem_singleton.mp hverified⟩⟩
    · rintro ⟨r,⟨hs,hd,ht⟩,h⟩
      exact ⟨⟨r.id,hs,h.id⟩,⟨r.digest,hd,h.digest⟩,⟨r.status,ht,List.mem_singleton.mpr h.status⟩⟩

theorem checkEvidence_ok (hv : Distinct v) :
    checkEvidence i v = .ok () ↔ ∃ r : Reference, Same v (r.toDict "evidence_id") ∧ r.Fits Portable := by
  refine Iff.trans ?_ (object_same (r := ["evidence_id","digest","status"]) (s := [])
    (Q := fun fs => (∃ s, get fs "evidence_id" = .str s ∧ Portable s) ∧ (∃ s, get fs "digest" = .str s ∧ matchesDigest s = true) ∧
      get fs "status" = .str "verified")
    (fun _ => rfl) (fun _ => rfl) (by decide) hv fun fs _ => ?_)
  · rw [checkEvidence,bind_ok]
    refine exists_congr fun fs => ?_
    rw [requiredObject_ok,check_ok,check_ok,checkIdentifier_ok,checkSha_ok,and_assoc]
    refine and_congr_right fun _ => and_congr_right fun _ => and_congr_right fun _ => and_congr_right fun _ => ?_
    rw [bind_ok]
    constructor
    · rintro ⟨s,hs,h⟩
      rw [check_ok,require_ok,require_ok] at h
      rw [(checkString_ok.mp hs).1,h.2]
    · intro h
      refine ⟨"verified",checkString_ok.mpr ⟨h,by decide⟩,?_⟩
      rw [check_ok,require_ok,require_ok]
      exact ⟨by decide,rfl⟩
  · simp only [forall_mem_cons,not_mem_nil,false_imp_iff,implies_true,and_true,same_scalar]
    constructor
    · rintro ⟨⟨s,hs,hid⟩,⟨d,hd,hdigest⟩,ht⟩
      exact ⟨⟨s,d,"verified"⟩,⟨hs,hd,ht⟩,⟨hid,hdigest,rfl⟩⟩
    · rintro ⟨r,⟨hs,hd,ht⟩,h⟩
      exact ⟨⟨r.id,hs,h.id⟩,⟨r.digest,hd,h.digest⟩,by rw [← h.status]; exact ht⟩

theorem optional_injective {s t : Option String} (h : s.map Json.str = t.map Json.str) : s = t :=
  Option.map_injective (fun _ _ he => Scalar.str.inj (scalar.inj he)) h

theorem same_texts {xs : List String} : Same v (texts xs) ↔ v = texts xs := by
  constructor
  · intro h
    obtain ⟨ys,rfl,hys⟩ := same_arr.mp h
    refine congrArg arr ?_
    clear h
    induction xs generalizing ys with
    | nil =>
      cases hys
      rfl
    | cons x xs ih =>
      cases hys with
      | cons hx hxs => rw [map_cons,same_scalar.mp hx,ih _ hxs]
  · rintro rfl
    rfl

theorem texts_iff {P : String → Prop} :
    (∀ x ∈ xs, ∃ s, x = .str s ∧ P s) ↔ ∃ ss, arr xs = texts ss ∧ ∀ s ∈ ss, P s := by
  have h : (∀ x ∈ xs, ∃ s, Same x (.str s) ∧ P s) ↔ _ := same_items
  simp only [same_scalar] at h
  rw [h]
  exact exists_congr fun ss => and_congr_left fun _ => same_texts

theorem checkDropReason_ok (hv : Distinct v) : checkDropReason i v = .ok () ↔
    ∃ d : DropReason, Same v d.toDict ∧ Portable d.candidateId ∧ Portable d.code ∧ ∀ e ∈ d.evidenceId, Portable e := by
  refine Iff.trans ?_ (object_same (r := ["candidate_id","code"]) (s := ["evidence_id"])
    (Q := fun fs => (∃ s, get fs "candidate_id" = .str s ∧ Portable s) ∧ (∃ s, get fs "code" = .str s ∧ Portable s) ∧
      ∃ s : Option String, fs.lookup "evidence_id" = s.map .str ∧ ∀ t ∈ s, Portable t)
    (fun _ => rfl) (fun _ => rfl) (by decide) hv fun fs _ => ?_)
  · rw [checkDropReason,bind_ok]
    refine exists_congr fun fs => ?_
    rw [requiredObject_ok,check_ok,check_ok,checkIdentifier_ok,checkIdentifier_ok,whenThere_ok fun _ => checkIdentifier_ok,and_assoc]
  · simp only [forall_mem_cons,not_mem_nil,false_imp_iff,implies_true,and_true,same_scalar,lookup_optional]
    constructor
    · rintro ⟨⟨s,hs,hid⟩,⟨c,hc,hcode⟩,⟨e,he,hevidence⟩⟩
      exact ⟨⟨s,c,e⟩,⟨⟨hs,hc⟩,he⟩,hid,hcode,hevidence⟩
    · rintro ⟨d,⟨⟨hs,hc⟩,he⟩,hid,hcode,hevidence⟩
      exact ⟨⟨d.candidateId,hs,hid⟩,⟨d.code,hc,hcode⟩,⟨d.evidenceId,he,hevidence⟩⟩

variable {ids : List String}

theorem checkReasonEvidence_ok {d : DropReason} (h : Same v d.toDict) :
    checkReasonEvidence o ids i v = .ok () ↔ ∀ e ∈ d.evidenceId, e ∈ ids := by
  obtain ⟨fs,rfl,-⟩ := h.fields
  have hnodup : ((members [("candidate_id",Json.str d.candidateId),("code",.str d.code)] [("evidence_id",d.evidenceId.map .str)]).map
      Prod.fst).Nodup := nodup_members (by simp)
  have hlookup : fs.lookup "evidence_id" = d.evidenceId.map .str :=
    lookup_optional.mp (((same_members (nodup_of_same h hnodup) (by simp)).mp h).2.2 _ mem_cons_self)
  rw [checkReasonEvidence,whenThere_ok fun _ => checkAmong_ok o]
  show (∃ s : Option String, fs.lookup "evidence_id" = s.map .str ∧ _) ↔ _
  rw [hlookup]
  constructor
  · rintro ⟨s,hs,hids⟩
    rw [optional_injective hs]
    exact hids
  · exact fun hids => ⟨d.evidenceId,rfl,hids⟩

theorem checkEvidenceRef_ok :
    checkEvidenceRef o ids name v = .ok () ↔ ∃ s, v = .str s ∧ Portable s ∧ s ∈ ids := by
  rw [checkEvidenceRef,check_ok,checkIdentifier_ok,checkAmong_ok]
  constructor
  · rintro ⟨⟨s,rfl,hs⟩,⟨t,ht,hids⟩⟩
    cases ht
    exact ⟨s,rfl,hs,hids⟩
  · rintro ⟨s,rfl,hs,hids⟩
    exact ⟨⟨s,rfl,hs⟩,⟨s,rfl,hids⟩⟩

structure ClaimFields (ids seen : List String) (claimId : String) (fs : Fields) : Prop where
  named : get fs "claim_id" = .str claimId ∧ Portable claimId ∧ claimId ∉ seen
  status : ∃ s, get fs "status" = .str s ∧ s ∈ claimStatuses
  claimHash : ∃ s, get fs "claim_hash" = .str s ∧ matchesDigest s = true
  references : ∃ refs evidenceRefs, (get fs "receipt_refs" = texts refs ∧ get fs "evidence_refs" = texts evidenceRefs) ∧
    ¬(refs = [] ∧ evidenceRefs = []) ∧ (∀ r ∈ refs, Portable r) ∧ ∀ r ∈ evidenceRefs, Portable r ∧ r ∈ ids
  supersedes : ∃ s : Option String, fs.lookup "supersedes" = s.map .str ∧ ∀ t ∈ s, Portable t ∧ t ∈ claimId :: seen

theorem identifiers_ok (name : ℕ → String) :
    each (fun i x => checkIdentifier x (name i)) i xs = .ok () ↔ ∃ ss, arr xs = texts ss ∧ ∀ s ∈ ss, Portable s := by
  rw [← texts_iff]
  refine each_ok (f := fun i x => checkIdentifier x (name i)) (P := fun x => ∃ s, x = .str s ∧ Portable s) fun _ _ _ => ?_
  exact checkIdentifier_ok

theorem evidenceRefs_ok :
    each (fun _ x => checkEvidenceRef o ids name x) i xs = .ok () ↔ ∃ ss, arr xs = texts ss ∧ ∀ s ∈ ss, Portable s ∧ s ∈ ids := by
  rw [← texts_iff]
  refine each_ok (f := fun _ x => checkEvidenceRef o ids name x) (P := fun x => ∃ s, x = .str s ∧ Portable s ∧ s ∈ ids) fun _ _ _ => ?_
  exact checkEvidenceRef_ok o

theorem references_iff {refs evidenceRefs : Json} {m m' : String} {β : Type} {b : β}
    {rest : Except String β} :
    (do
      let xs ← checkArray refs m
      let ys ← checkArray evidenceRefs m
      require (¬(xs = [] ∧ ys = [])) m'
      each (fun _ ref => checkIdentifier ref (name ++ ".receipt_refs")) 0 xs
      each (fun _ ref => checkEvidenceRef o ids name ref) 0 ys
      rest) = .ok b ↔
    (∃ ss ts, (refs = texts ss ∧ evidenceRefs = texts ts) ∧ ¬(ss = [] ∧ ts = []) ∧ (∀ r ∈ ss, Portable r) ∧
      ∀ r ∈ ts, Portable r ∧ r ∈ ids) ∧ rest = .ok b := by
  constructor
  · intro h
    obtain ⟨xs,hxs,h⟩ := bind_ok.mp h
    obtain ⟨ys,hys,h⟩ := bind_ok.mp h
    rw [check_ok,check_ok,check_ok] at h
    obtain ⟨hsome,hids,hevidence,hrest⟩ := h
    obtain ⟨ss,hss,hportable⟩ := (identifiers_ok fun _ => name ++ ".receipt_refs").mp hids
    obtain ⟨ts,hts,hknown⟩ := (evidenceRefs_ok o).mp hevidence
    rw [checkArray_ok] at hxs hys
    refine ⟨⟨ss,ts,⟨hxs.trans hss,hys.trans hts⟩,fun ⟨hs,ht⟩ => ?_,hportable,hknown⟩,hrest⟩
    cases hs
    cases ht
    exact require_ok.mp hsome ⟨arr.inj hss,arr.inj hts⟩
  · rintro ⟨⟨ss,ts,⟨rfl,rfl⟩,hsome,hportable,hknown⟩,hrest⟩
    refine bind_ok.mpr ⟨_,checkArray_ok.mpr rfl,bind_ok.mpr ⟨_,checkArray_ok.mpr rfl,?_⟩⟩
    rw [check_ok,check_ok,check_ok]
    refine ⟨require_ok.mpr fun ⟨hs,ht⟩ => hsome ?_,
      (identifiers_ok fun _ => name ++ ".receipt_refs").mpr ⟨ss,rfl,hportable⟩,(evidenceRefs_ok o).mpr ⟨ts,rfl,hknown⟩,hrest⟩
    exact ⟨map_eq_nil_iff.mp hs,map_eq_nil_iff.mp ht⟩

variable {seen : List String} {claimId : String}

theorem checkClaim_fields : checkClaim o ids seen i v = .ok claimId ↔ ∃ fs, v = .obj fs ∧ Keys
    ["claim_id","status","claim_hash","receipt_refs","evidence_refs"] ["supersedes"] fs ∧ ClaimFields ids
    seen claimId fs := by
  rw [checkClaim,bind_ok]
  refine exists_congr fun fs => ?_
  rw [requiredObject_ok,and_assoc]
  refine and_congr_right fun _ => and_congr_right fun _ => ?_
  rw [check_ok,bind_ok,checkIdentifier_ok]
  constructor
  · rintro ⟨⟨s,hs,hportable⟩,t,ht,h⟩
    rw [check_ok,check_ok,check_ok,require_ok,checkAmong_ok,checkSha_ok] at h
    obtain ⟨hnew,hstatus,hhash,h⟩ := h
    obtain ⟨hrefs,h⟩ := (references_iff o).mp h
    rw [check_ok,check_ok] at h
    obtain ⟨hportable',hknown,h⟩ := h
    cases h
    obtain ⟨u,hu,hu'⟩ := (whenThere_ok fun _ => checkIdentifier_ok).mp hportable'
    obtain ⟨w,hw,hw'⟩ := (whenThere_ok fun _ => checkAmong_ok o).mp hknown
    have hsame : u = w := optional_injective (hu.symm.trans hw)
    have hid : s = claimId := by
      rw [(checkString_ok.mp ht).1] at hs
      exact (Scalar.str.inj (scalar.inj hs)).symm
    subst hsame hid
    exact ⟨⟨hs,hportable,hnew⟩,hstatus,hhash,hrefs,⟨u,hu,fun x hx => ⟨hu' x hx,hw' x hx⟩⟩⟩
  · intro h
    obtain ⟨hs,hportable,hnew⟩ := h.named
    obtain ⟨u,hu,hu'⟩ := h.supersedes
    refine ⟨⟨claimId,hs,hportable⟩,claimId,checkString_ok.mpr ⟨hs,strip_of_matchesId hportable.1⟩,?_⟩
    rw [check_ok,check_ok,check_ok,require_ok,checkAmong_ok,checkSha_ok]
    refine ⟨hnew,h.status,h.claimHash,?_⟩
    refine (references_iff o).mpr ⟨h.references,?_⟩
    rw [check_ok,check_ok]
    exact ⟨(whenThere_ok fun _ => checkIdentifier_ok).mpr ⟨u,hu,fun x hx => (hu' x hx).1⟩,
      (whenThere_ok fun _ => checkAmong_ok o).mpr ⟨u,hu,fun x hx => (hu' x hx).2⟩,rfl⟩

theorem checkClaim_ok (hv : Distinct v) : checkClaim o ids seen i v = .ok claimId ↔ ∃ c : ClaimRecord, Same
    v c.toDict ∧ c.claimId = claimId ∧ claimId ∉ seen ∧ c.Fits Portable ids (claimId :: seen) := by
  rw [checkClaim_fields]
  refine object_same (r := ["claim_id","status","claim_hash","receipt_refs","evidence_refs"]) (s := ["supersedes"])
    (fun _ => rfl) (fun _ => rfl) (by decide) hv fun fs _ => ?_
  simp only [forall_mem_cons,not_mem_nil,false_imp_iff,implies_true,and_true,same_scalar,same_texts,lookup_optional]
  constructor
  · intro h
    obtain ⟨hs,hportable,hnew⟩ := h.named
    obtain ⟨status,hstatus,hknown⟩ := h.status
    obtain ⟨hash,hhash,hdigest⟩ := h.claimHash
    obtain ⟨refs,evidenceRefs,⟨hrefs,hevidence⟩,hsome,hplain,hids⟩ := h.references
    obtain ⟨u,hu,hu'⟩ := h.supersedes
    exact ⟨⟨claimId,status,hash,refs,evidenceRefs,u⟩,⟨⟨hs,hstatus,hhash,hrefs,hevidence⟩,hu⟩,rfl,hnew,
      ⟨hportable,hknown,hdigest,hsome,hplain,hids,hu'⟩⟩
  · rintro ⟨c,⟨⟨hs,hstatus,hhash,hrefs,hevidence⟩,hu⟩,rfl,hnew,h⟩
    exact ⟨⟨hs,h.claimId,hnew⟩,⟨_,hstatus,h.status⟩,⟨_,hhash,h.claimHash⟩,
      ⟨_,_,⟨hrefs,hevidence⟩,h.referenced,h.receiptRefs,h.evidenceRefs⟩,⟨_,hu,h.supersedes⟩⟩

theorem checkClaimItems_ok {vs : List Json} (hvs : ∀ v ∈ vs, Distinct v) : checkClaimItems o ids seen i vs =
    .ok () ↔ ∃ cs : List ClaimRecord, Same (.arr vs) (.arr (cs.map ClaimRecord.toDict)) ∧ ClaimsFit Portable
    ids seen cs := by
  induction vs generalizing seen i with
  | nil =>
    refine iff_of_true rfl ⟨[],rfl,trivial⟩
  | cons v vs ih =>
    obtain ⟨hv,hvs⟩ := forall_mem_cons.mp hvs
    rw [checkClaimItems,bind_ok]
    constructor
    · rintro ⟨claimId,hclaim,hrest⟩
      obtain ⟨c,hsame,rfl,hnew,hfits⟩ := (checkClaim_ok o hv).mp hclaim
      obtain ⟨cs,hall,hcs⟩ := (ih hvs).mp hrest
      obtain ⟨_,hys,hall⟩ := same_arr.mp hall
      cases hys
      exact ⟨c :: cs,same_arr.mpr ⟨_,rfl,.cons hsame hall⟩,⟨hnew,hfits⟩,hcs⟩
    · rintro ⟨cs,hall,hcs⟩
      obtain ⟨_,hys,hall⟩ := same_arr.mp hall
      cases hys
      cases cs with
      | nil => cases hall
      | cons c cs =>
        cases hall with
        | cons hsame hall =>
          obtain ⟨⟨hnew,hfits⟩,hcs⟩ := hcs
          exact ⟨c.claimId,(checkClaim_ok o hv).mpr ⟨c,hsame,rfl,hnew,hfits⟩,(ih hvs).mpr ⟨cs,same_arr.mpr ⟨_,rfl,hall⟩,hcs⟩⟩

/-! ### Times and integrity -/

structure Times where
  (createdAt decisionAt : String)
  verifiedAt : Option String

def Times.toDict (t : Times) : Json :=
  .obj (members [("created_at",.str t.createdAt),("decision_at",.str t.decisionAt)] [("verified_at",t.verifiedAt.map .str)])

structure Times.Fits (t : Times) : Prop where
  createdAt : IsTimestamp o t.createdAt
  decisionAt : IsTimestamp o t.decisionAt
  verifiedAt : ∀ s ∈ t.verifiedAt, IsTimestamp o s

theorem members_timestamps : each (fun _ e => checkTimestamp o e.2 ("timestamps." ++ e.1)) 0 fs = .ok () ↔
    ∀ e ∈ fs, ∃ s, e.2 = Json.str s ∧ IsTimestamp o s := by
  refine each_ok (f := fun _ (e : String × Json) => checkTimestamp o e.2 ("timestamps." ++ e.1)) (P := fun e => ∃ s, e.2 = Json.str s ∧ IsTimestamp o s)
    fun _ _ _ => ?_
  exact checkTimestamp_ok o

theorem checkTimestamps_ok (hv : Distinct v) :
    checkTimestamps o v = .ok () ↔ ∃ t : Times, Same v t.toDict ∧ t.Fits o := by
  have hread : checkTimestamps o v = .ok () ↔ ∃ fs, v = .obj fs ∧ Keys ["created_at","decision_at"] ["verified_at"] fs ∧
      ((∃ s, get fs "created_at" = .str s ∧ IsTimestamp o s) ∧ (∃ s, get fs "decision_at" = .str s ∧ IsTimestamp o s) ∧
        ∃ s : Option String, fs.lookup "verified_at" = s.map .str ∧ ∀ t ∈ s, IsTimestamp o t) := by
    rw [checkTimestamps,bind_ok]
    refine exists_congr fun fs => ?_
    rw [requiredObject_ok,members_timestamps,and_assoc]
    refine and_congr_right fun hfs => and_congr_right fun hkeys => ?_
    subst hfs
    constructor
    · intro h
      have hneed : ∀ key ∈ ["created_at","decision_at"], ∃ s, get fs key = .str s ∧ IsTimestamp o s := fun key hkey =>
        h _ (Dict.lookup_some_mem (lookup_of_get (hkeys.1 key hkey)))
      refine ⟨hneed _ mem_cons_self,hneed _ (List.mem_cons_of_mem _ mem_cons_self),?_⟩
      cases hl : fs.lookup "verified_at" with
      | none => exact ⟨none,rfl,fun _ ht => nomatch ht⟩
      | some w =>
        obtain ⟨s,hs,hread⟩ := h _ (Dict.lookup_some_mem hl)
        exact ⟨some s,congrArg some hs,fun t ht => by cases ht; exact hread⟩
    · rintro ⟨hcreated,hdecision,u,hu,hverified⟩ ⟨key,w⟩ he
      have hlookup : fs.lookup key = some w := Dict.lookup_of_mem hv.1 he
      have hknown := hkeys.2 key (List.mem_map_of_mem he)
      simp only [List.mem_cons,not_mem_nil,or_false] at hknown
      rcases hknown with (rfl | rfl) | rfl
      · rw [get_of_lookup hlookup] at hcreated
        exact hcreated
      · rw [get_of_lookup hlookup] at hdecision
        exact hdecision
      · rw [hlookup] at hu
        obtain ⟨s,rfl,hs⟩ := Option.map_eq_some_iff.mp hu.symm
        exact ⟨s,hs.symm,hverified s rfl⟩
  rw [hread]
  refine object_same (A := fun t : Times => [("created_at",.str t.createdAt),("decision_at",.str t.decisionAt)])
    (S := fun t : Times => [("verified_at",t.verifiedAt.map .str)]) (fun _ => rfl) (fun _ => rfl) (by decide) hv fun fs _ => ?_
  simp only [forall_mem_cons,not_mem_nil,false_imp_iff,implies_true,and_true,same_scalar,lookup_optional]
  constructor
  · rintro ⟨⟨c,hc,hcreated⟩,⟨d,hd,hdecision⟩,u,hu,hverified⟩
    exact ⟨⟨c,d,u⟩,⟨⟨hc,hd⟩,hu⟩,⟨hcreated,hdecision,hverified⟩⟩
  · rintro ⟨t,⟨⟨hc,hd⟩,hu⟩,h⟩
    exact ⟨⟨_,hc,h.createdAt⟩,⟨_,hd,h.decisionAt⟩,⟨_,hu,h.verifiedAt⟩⟩

def integrityDict (digest : String) : Json := .obj [("algorithm",.str "sha256"),("receipt_digest",.str digest)]

theorem checkIntegrity_ok (hfs : Distinct (get fs "integrity")) :
    checkIntegrity o fs = .ok () ↔ Same (get fs "integrity") (integrityDict (canonicalHash o (.obj (protectedOf fs))).text) := by
  have hsame := object_same (α := Unit) (P := fun _ => True) (r := ["algorithm","receipt_digest"]) (s := [])
    (A := fun _ => [("algorithm",.str "sha256"),("receipt_digest",.str (canonicalHash o (.obj (protectedOf fs))).text)])
    (S := fun _ => []) (Q := fun gs => get gs "algorithm" = .str "sha256" ∧
      get gs "receipt_digest" = .str (canonicalHash o (.obj (protectedOf fs))).text) (fun _ => rfl) (fun _ => rfl) (by decide) hfs
    (fun gs _ => by
      simp only [forall_mem_cons,not_mem_nil,false_imp_iff,implies_true,and_true,same_scalar,exists_const])
  refine Iff.trans ?_ (hsame.trans ⟨by rintro ⟨_,h,-⟩; exact h,fun h => ⟨(),h,trivial⟩⟩)
  rw [checkIntegrity,bind_ok]
  refine exists_congr fun gs => ?_
  rw [requiredObject_ok,check_ok,check_ok,require_ok,require_ok,checkSha_ok,and_assoc]
  refine and_congr_right fun _ => and_congr_right fun _ => and_congr_right fun _ => ?_
  exact and_iff_right_of_imp fun h => ⟨_,h,(canonicalHash o _).shaped⟩

/-! ### Evidence -/

theorem evidenceErrors_nil (hxs : ∀ x ∈ xs, Distinct x) :
    evidenceErrors i xs = [] ↔ ∀ x ∈ xs, ∃ r : Reference, Same x (r.toDict "evidence_id") ∧ r.Fits Portable := by
  induction xs generalizing i with
  | nil => exact iff_of_true rfl fun _ hx => absurd hx not_mem_nil
  | cons x xs ih =>
    obtain ⟨hx,hxs⟩ := forall_mem_cons.mp hxs
    rw [evidenceErrors,forall_mem_cons,← checkEvidence_ok (i := i) hx]
    cases hcheck : checkEvidence i x with
    | error e => exact iff_of_false (fun h => nomatch h) fun h => nomatch h.1
    | ok u => exact (ih hxs).trans (and_iff_right rfl).symm

theorem validateEvidence_ok (hv : Distinct v) : (∃ n, validateEvidence v = .ok (n,[])) ↔
    ∃ rs : List Reference, Same v (.arr (rs.map (Reference.toDict "evidence_id"))) ∧ rs ≠ [] ∧ ∀ r ∈ rs, r.Fits Portable := by
  constructor
  · rintro ⟨n,h⟩
    obtain ⟨xs,hxs,hpair⟩ := map_ok.mp h
    obtain ⟨rfl,hne⟩ := checkNonEmpty_ok.mp hxs
    obtain ⟨rs,hsame,hrs⟩ := same_items.mp ((evidenceErrors_nil fun x hx => hv.item hx).mp (Prod.mk.inj hpair).2)
    refine ⟨rs,hsame,?_,hrs⟩
    rintro rfl
    obtain ⟨_,hys,hall⟩ := same_arr.mp hsame
    cases hys
    cases hall
    exact hne rfl
  · rintro ⟨rs,hsame,hne,hrs⟩
    obtain ⟨xs,rfl,hall⟩ := same_arr.mp hsame
    have hxs : xs ≠ [] := by
      rintro rfl
      cases rs with
      | nil => exact hne rfl
      | cons r rs => cases hall
    have herrors := (evidenceErrors_nil (i := 0) fun x hx => hv.item hx).mpr (same_items.mpr ⟨rs,hsame,hrs⟩)
    exact ⟨_,map_ok.mpr ⟨xs,checkNonEmpty_ok.mpr ⟨rfl,hxs⟩,by rw [herrors]⟩⟩

theorem evidenceIdsOf_same {rs : List Reference} (h : Same v (.arr (rs.map (Reference.toDict "evidence_id")))) :
    evidenceIdsOf o v = rs.map Reference.id := by
  obtain ⟨xs,rfl,hall⟩ := same_arr.mp h
  clear h
  rw [evidenceIdsOf,items]
  induction rs generalizing xs with
  | nil =>
    cases hall
    rfl
  | cons r rs ih =>
    cases hall with
    | @cons x _ xs _ hx hxs =>
      obtain ⟨fs,rfl,hfields⟩ := hx.fields
      have hlookup : (fs.lookup "evidence_id").map canon = some (.str r.id) := by
        rw [← lookup_canonFields,hfields,lookup_canonFields]
        rfl
      obtain ⟨w,hw,hsame⟩ := Option.map_eq_some_iff.mp hlookup
      cases same_scalar.mp hsame
      rw [List.filterMap_cons,Json.fields,hw,map_cons,← ih xs hxs]
      simp only [Option.map_some,o.text_str]

theorem reasonsEvidence_ok {ds : List DropReason} (h : Same v (.arr (ds.map DropReason.toDict))) :
    each (checkReasonEvidence o ids) i v.items = .ok () ↔ ∀ d ∈ ds, ∀ e ∈ d.evidenceId, e ∈ ids := by
  obtain ⟨xs,rfl,hall⟩ := same_arr.mp h
  clear h
  rw [items]
  induction ds generalizing xs i with
  | nil =>
    cases hall
    exact iff_of_true rfl fun _ hd => absurd hd not_mem_nil
  | cons d ds ih =>
    cases hall with
    | cons hx hxs => rw [each,check_ok,checkReasonEvidence_ok o hx,ih _ hxs,forall_mem_cons]

/-! ### Routing -/

theorem same_arr_nil {ys : List Json} (h : Same (.arr xs) (.arr ys)) : xs = [] ↔ ys = [] := by
  obtain ⟨_,hxs,hall⟩ := same_arr.mp h
  cases hxs
  cases hall with
  | nil => exact iff_of_true rfl rfl
  | cons hx hxs => exact iff_of_false (List.cons_ne_nil _ _) (List.cons_ne_nil _ _)

def ReasonIds (d : DropReason) : Prop := Portable d.candidateId ∧ Portable d.code ∧ ∀ e ∈ d.evidenceId, Portable e

theorem checkDropReasons_ok (hxs : ∀ x ∈ xs, Distinct x) : each checkDropReason i xs = .ok () ↔
    ∃ ds : List DropReason, Same (.arr xs) (.arr (ds.map DropReason.toDict)) ∧ ∀ d ∈ ds, ReasonIds d := by
  rw [← same_items]
  exact each_ok (f := checkDropReason) (P := fun x => ∃ d : DropReason, Same x d.toDict ∧ ReasonIds d) fun _ x hx =>
    checkDropReason_ok (hxs x hx)

theorem checkSources_ok (hxs : ∀ x ∈ xs, Distinct x) : each (checkSource o) i xs = .ok () ↔
    ∃ rs : List Reference, Same (.arr xs) (.arr (rs.map (Reference.toDict "source_id"))) ∧ ∀ r ∈ rs, r.Fits Portable := by
  rw [← same_items]
  exact each_ok (f := checkSource o) (P := fun x => ∃ r : Reference, Same x (r.toDict "source_id") ∧ r.Fits Portable) fun _ x hx =>
    checkSource_ok o (hxs x hx)

theorem checkSelected_ok : checkSelected v = .ok () ↔ ∃ r, v = nullable r ∧ ∀ s ∈ r, Portable s := by
  rw [checkSelected]
  split
  · next hv => exact iff_of_true rfl ⟨none,hv,fun _ hs => nomatch hs⟩
  · next hv =>
    rw [checkIdentifier_ok]
    constructor
    · rintro ⟨s,hs,hportable⟩
      exact ⟨some s,hs,fun t ht => by cases ht; exact hportable⟩
    · rintro ⟨r,hr,hportable⟩
      cases r with
      | none => exact absurd hr hv
      | some s => exact ⟨s,hr,hportable s rfl⟩

structure RoutingFields (fs : Fields) (candidates : List String) (route : Option String) (reasons : List DropReason) : Prop where
  candidatesRead : get fs "eligible_candidates" = texts candidates
  routeRead : get fs "selected_route" = nullable route
  reasonsRead : Same (get fs "drop_reasons") (.arr (reasons.map DropReason.toDict))
  candidatesFit : candidates ≠ [] ∧ ∀ s ∈ candidates, Portable s
  routeFits : ∀ r ∈ route, Portable r ∧ r ∈ candidates
  denial : route = none → reasons ≠ []
  reasonsFit : ∀ d ∈ reasons, ReasonIds d

theorem nullable_eq_null {r : Option String} : nullable r = .null ↔ r = none := by
  cases r with
  | none => exact iff_of_true rfl rfl
  | some s => exact iff_of_false (fun h => nomatch h) fun h => nomatch h

theorem mem_texts {ss : List String} : Json.str s ∈ ss.map Json.str ↔ s ∈ ss :=
  List.mem_map_of_injective fun _ _ he => Scalar.str.inj (scalar.inj he)

theorem checkRouting_ok (hfs : Distinct (.obj fs)) :
    checkRouting fs = .ok () ↔ ∃ candidates route reasons, RoutingFields fs candidates route reasons := by
  rw [checkRouting,bind_ok]
  constructor
  · rintro ⟨cs,hcs,h⟩
    obtain ⟨hread,hne⟩ := checkNonEmpty_ok.mp hcs
    rw [check_ok,check_ok,bind_ok] at h
    obtain ⟨hids,hselected,rs,hrs,h⟩ := h
    rw [check_ok,check_ok,require_ok,require_ok] at h
    obtain ⟨hreasons,hdenial,hmember⟩ := h
    obtain ⟨candidates,hcandidates,hportable⟩ := (identifiers_ok (indexed "eligible_candidates")).mp hids
    obtain ⟨route,hroute,hroutePortable⟩ := checkSelected_ok.mp hselected
    rw [checkArray_ok] at hrs
    have hdistinct : ∀ x ∈ rs, Distinct x := fun x hx => item (by rw [← hrs]; exact hfs.get _) hx
    obtain ⟨reasons,hsame,hfit⟩ := (checkDropReasons_ok hdistinct).mp hreasons
    have hcs' : cs = candidates.map .str := arr.inj hcandidates
    subst hcs'
    refine ⟨candidates,route,reasons,⟨hread,hroute,by rw [hrs]; exact hsame,⟨fun h => hne (by rw [h]; rfl),hportable⟩,fun r hr => ?_,
      fun hnone hnil => ?_,hfit⟩⟩
    · cases hr
      rw [hroute] at hmember
      exact ⟨hroutePortable r rfl,mem_texts.mp (hmember.resolve_left fun h => nomatch h)⟩
    · subst hnone hnil
      exact hdenial ⟨hroute,(same_arr_nil hsame).mpr rfl⟩
  · rintro ⟨candidates,route,reasons,h⟩
    obtain ⟨rs,hrs,hall⟩ := same_arr.mp h.reasonsRead
    have hsame : Same (.arr rs) (.arr (reasons.map DropReason.toDict)) := by
      rw [← hrs]
      exact h.reasonsRead
    have hdistinct : ∀ x ∈ rs, Distinct x := fun x hx => item (by rw [← hrs]; exact hfs.get _) hx
    refine ⟨candidates.map .str,checkNonEmpty_ok.mpr ⟨h.candidatesRead,fun hnil => h.candidatesFit.1 (map_eq_nil_iff.mp hnil)⟩,?_⟩
    rw [check_ok,check_ok,bind_ok]
    refine ⟨(identifiers_ok (indexed "eligible_candidates")).mpr ⟨candidates,rfl,h.candidatesFit.2⟩,
      checkSelected_ok.mpr ⟨route,h.routeRead,fun s hs => (h.routeFits s hs).1⟩,rs,checkArray_ok.mpr hrs,?_⟩
    rw [check_ok,check_ok,require_ok,require_ok,h.routeRead]
    refine ⟨(checkDropReasons_ok hdistinct).mpr ⟨reasons,hsame,h.reasonsFit⟩,fun ⟨hnull,hnil⟩ => ?_,?_⟩
    · exact h.denial (nullable_eq_null.mp hnull) (map_eq_nil_iff.mp ((same_arr_nil hsame).mp hnil))
    · cases route with
      | none => exact .inl rfl
      | some r => exact .inr (mem_texts.mpr (h.routeFits r rfl).2)

theorem checkBody_ok (hfs : Distinct (.obj fs)) : checkBody o fs = .ok () ↔
    (∃ s, get fs "task_id" = .str s ∧ Portable s) ∧ (∃ s, get fs "request_id" = .str s ∧ Portable s) ∧
    (∃ s, get fs "policy_version" = .str s ∧ Portable s) ∧ (∃ s, get fs "input_hash" = .str s ∧ matchesDigest s = true) ∧
    (∃ s, get fs "context_hash" = .str s ∧ matchesDigest s = true) ∧
    (∃ candidates route reasons, RoutingFields fs candidates route reasons) ∧
    ∃ rs : List Reference, Same (get fs "source_references") (.arr (rs.map (Reference.toDict "source_id"))) ∧ rs ≠ [] ∧
      ∀ r ∈ rs, r.Fits Portable := by
  have hsources : (∃ xs, checkNonEmpty (get fs "source_references") "source_references must be a non-empty array" = .ok xs ∧
      each (checkSource o) 0 xs = .ok ()) ↔ ∃ rs : List Reference,
        Same (get fs "source_references") (.arr (rs.map (Reference.toDict "source_id"))) ∧ rs ≠ [] ∧ ∀ r ∈ rs, r.Fits Portable := by
    constructor
    · rintro ⟨xs,hxs,hall⟩
      obtain ⟨hread,hne⟩ := checkNonEmpty_ok.mp hxs
      have hdistinct : ∀ x ∈ xs, Distinct x := fun x hx => item (by rw [← hread]; exact hfs.get _) hx
      obtain ⟨rs,hsame,hrs⟩ := (checkSources_ok o hdistinct).mp hall
      exact ⟨rs,by rw [hread]; exact hsame,fun hnil => hne ((same_arr_nil hsame).mpr (by rw [hnil]; rfl)),hrs⟩
    · rintro ⟨rs,hsame,hne,hrs⟩
      obtain ⟨xs,hxs,-⟩ := same_arr.mp hsame
      have hdistinct : ∀ x ∈ xs, Distinct x := fun x hx => item (by rw [← hxs]; exact hfs.get _) hx
      rw [hxs] at hsame
      refine ⟨xs,checkNonEmpty_ok.mpr ⟨hxs,fun hnil => hne ?_⟩,(checkSources_ok o hdistinct).mpr ⟨rs,hsame,hrs⟩⟩
      exact map_eq_nil_iff.mp ((same_arr_nil hsame).mp hnil)
  rw [checkBody,check_ok,check_ok,check_ok,check_ok,check_ok,check_ok,bind_ok,checkIdentifier_ok,checkIdentifier_ok,
    checkIdentifier_ok,checkSha_ok,checkSha_ok,checkRouting_ok hfs,hsources]

theorem protectedOf_same {gs : Fields} (hkeys : gs.map Prod.fst = protectedFields) (h : ∀ e ∈ gs, Same (get fs e.1) e.2) :
    Same (.obj (protectedOf fs)) (.obj gs) := by
  refine congrArg obj (canonFields_congr ?_)
  rw [protectedOf,← hkeys,List.map_map,SameFields,List.forall₂_map_left_iff]
  exact List.forall₂_same.mpr fun e he => ⟨rfl,h e he⟩

/-! ### Receipts -/

def Content.members (c : Content String) : Fields := c.protectedMembers ++ [("integrity",integrityDict (c.digest o).text)]

/-- All checks of a payload but the one that it is an object with the right keys. -/
def PayloadChecks (fs : Fields) : Prop := get fs "schema_version" = .str SCHEMA_VERSION ∧
  (∃ s, get fs "receipt_id" = .str s ∧ Portable s) ∧ checkBody o fs = .ok () ∧
  (∃ n, validateEvidence (get fs "evidence") = .ok (n,[])) ∧ checkTail o fs = .ok ()

theorem validateReceipt_valid :
    (validateReceipt o v).valid = true ↔ ∃ fs, v = .obj fs ∧ Keys receiptFields [] fs ∧ PayloadChecks o fs := by
  have hhead {fs : Fields} {s : String} : checkHead v = .ok (fs,s) ↔ v = .obj fs ∧ Keys receiptFields [] fs ∧
      get fs "schema_version" = .str SCHEMA_VERSION ∧ get fs "receipt_id" = .str s ∧ Portable s := by
    rw [checkHead,bind_ok]
    constructor
    · rintro ⟨gs,hgs,h⟩
      rw [check_ok,check_ok,bind_ok] at h
      obtain ⟨hschema,hid,t,ht,h⟩ := h
      cases h
      obtain ⟨u,hu,hportable⟩ := checkIdentifier_ok.mp hid
      have hread := (checkString_ok.mp ht).1
      cases hu.symm.trans hread
      obtain ⟨hv,hkeys⟩ := requiredObject_ok.mp hgs
      exact ⟨hv,hkeys,require_ok.mp hschema,hread,hportable⟩
    · rintro ⟨hv,hkeys,hschema,hread,hportable⟩
      refine ⟨fs,requiredObject_ok.mpr ⟨hv,hkeys⟩,?_⟩
      rw [check_ok,check_ok,bind_ok]
      exact ⟨require_ok.mpr hschema,checkIdentifier_ok.mpr ⟨s,hread,hportable⟩,s,
        checkString_ok.mpr ⟨hread,strip_of_matchesId hportable.1⟩,rfl⟩
  constructor
  · intro h
    rw [validateReceipt] at h
    cases hh : checkHead v with
    | error e =>
      rw [hh] at h
      cases h
    | ok pair =>
      obtain ⟨fs,s⟩ := pair
      obtain ⟨hv,hkeys,hschema,hread,hportable⟩ := hhead.mp hh
      rw [hh] at h
      dsimp only at h
      cases hbody : checkBody o fs with
      | error e =>
        rw [hbody] at h
        cases h
      | ok u =>
        rw [hbody] at h
        dsimp only at h
        cases hevidence : validateEvidence (get fs "evidence") with
        | error e =>
          rw [hevidence] at h
          cases h
        | ok pair =>
          obtain ⟨n,errors⟩ := pair
          rw [hevidence] at h
          have hnil : errors ++ errorsOf (checkTail o fs) = [] := List.isEmpty_iff.mp h
          obtain ⟨rfl,htail⟩ := List.append_eq_nil_iff.mp hnil
          refine ⟨fs,hv,hkeys,hschema,⟨s,hread,hportable⟩,hbody,⟨n,hevidence⟩,?_⟩
          cases hresult : checkTail o fs with
          | error e =>
            rw [hresult] at htail
            cases htail
          | ok u => rfl
  · rintro ⟨fs,hv,hkeys,hschema,⟨s,hread,hportable⟩,hbody,⟨n,hevidence⟩,htail⟩
    rw [validateReceipt,hhead.mpr ⟨hv,hkeys,hschema,hread,hportable⟩]
    dsimp only
    rw [hbody,hevidence,htail]
    rfl

theorem checkTail_ok (hfs : Distinct (.obj fs)) {evidence : List Reference} {reasons : List DropReason}
    (hevidence : Same (get fs "evidence") (.arr (evidence.map (Reference.toDict "evidence_id"))))
    (hreasons : Same (get fs "drop_reasons") (.arr (reasons.map DropReason.toDict))) : checkTail o fs = .ok () ↔
    (∀ d ∈ reasons, ∀ e ∈ d.evidenceId, e ∈ evidence.map Reference.id) ∧ (∃ t : Times, Same (get fs "timestamps") t.toDict ∧ t.Fits o) ∧
    (∃ cs : List ClaimRecord, Same (get fs "claims") (.arr (cs.map ClaimRecord.toDict)) ∧
      ClaimsFit Portable (evidence.map Reference.id) [] cs) ∧
    Same (get fs "integrity") (integrityDict (canonicalHash o (.obj (protectedOf fs))).text) := by
  have hclaims {β : Type} {b : β} {rest : Except String β} :
      (∃ xs, checkArray (get fs "claims") "claims must be an array" = .ok xs ∧
        (checkClaimItems o (evidence.map Reference.id) [] 0 xs = .ok () ∧ rest = .ok b)) ↔
      (∃ cs : List ClaimRecord, Same (get fs "claims") (.arr (cs.map ClaimRecord.toDict)) ∧
        ClaimsFit Portable (evidence.map Reference.id) [] cs) ∧ rest = .ok b := by
    constructor
    · rintro ⟨xs,hxs,hall,hrest⟩
      rw [checkArray_ok] at hxs
      have hdistinct : ∀ x ∈ xs, Distinct x := fun x hx => item (by rw [← hxs]; exact hfs.get _) hx
      obtain ⟨cs,hsame,hcs⟩ := (checkClaimItems_ok o hdistinct).mp hall
      exact ⟨⟨cs,by rw [hxs]; exact hsame,hcs⟩,hrest⟩
    · rintro ⟨⟨cs,hsame,hcs⟩,hrest⟩
      obtain ⟨xs,hxs,-⟩ := same_arr.mp hsame
      have hdistinct : ∀ x ∈ xs, Distinct x := fun x hx => item (by rw [← hxs]; exact hfs.get _) hx
      rw [hxs] at hsame
      exact ⟨xs,checkArray_ok.mpr hxs,(checkClaimItems_ok o hdistinct).mpr ⟨cs,hsame,hcs⟩,hrest⟩
  rw [checkTail,evidenceIdsOf_same o hevidence,check_ok,check_ok,bind_ok,reasonsEvidence_ok o hreasons,checkTimestamps_ok o (hfs.get _)]
  simp only [check_ok]
  rw [hclaims,checkIntegrity_ok o (hfs.get _)]

theorem payload_iff (hfs : Distinct (.obj fs)) :
    PayloadChecks o fs ↔ ∃ c : Content String, (∀ e ∈ c.members o, Same (get fs e.1) e.2) ∧ WellFormed o Portable c := by
  have hread (c : Content String) : (∀ e ∈ c.members o, Same (get fs e.1) e.2) ↔
      (∀ e ∈ c.protectedMembers, Same (get fs e.1) e.2) ∧ Same (get fs "integrity") (integrityDict (c.digest o).text) := by
    rw [Content.members,List.forall_mem_append]
    simp only [forall_mem_cons,not_mem_nil,false_imp_iff,implies_true,and_true]
  have hprotected (c : Content String) (h : ∀ e ∈ c.protectedMembers, Same (get fs e.1) e.2) :
      canonicalHash o (.obj (protectedOf fs)) = c.digest o :=
    congrArg o.digest (protectedOf_same rfl h)
  constructor
  · rintro ⟨hschema,⟨rid,hrid,hreceipt⟩,hbody,hevidence,htail⟩
    obtain ⟨⟨task,htask,htask'⟩,⟨request,hrequest,hrequest'⟩,⟨policy,hpolicy,hpolicy'⟩,⟨input,hinput,hinput'⟩,
      ⟨context,hcontext,hcontext'⟩,⟨candidates,route,reasons,hrouting⟩,sources,hsources,hsome,hsourcesFit⟩ := (checkBody_ok o hfs).mp hbody
    obtain ⟨evidence,hevidence,hne,hevidenceFit⟩ := (validateEvidence_ok (hfs.get _)).mp hevidence
    obtain ⟨hknown,⟨times,htimes,htimesFit⟩,⟨claims,hclaims,hclaimsFit⟩,hintegrity⟩ :=
      (checkTail_ok o hfs hevidence hrouting.reasonsRead).mp htail
    let c : Content String := ⟨task,request,policy,input,context,candidates,route,reasons,sources,evidence,times.createdAt,
      times.decisionAt,rid,claims,times.verifiedAt,SCHEMA_VERSION⟩
    have hmembers : ∀ e ∈ c.protectedMembers, Same (get fs e.1) e.2 := by
      simp only [c,Content.protectedMembers,forall_mem_cons,not_mem_nil,false_imp_iff,implies_true,and_true,same_scalar,
        same_texts]
      exact ⟨hschema,hrid,htask,hrequest,hpolicy,hinput,hcontext,hrouting.candidatesRead,by rw [hrouting.routeRead]; rfl,
        hrouting.reasonsRead,hsources,hevidence,htimes,hclaims⟩
    refine ⟨c,(hread c).mpr ⟨hmembers,by rw [← hprotected c hmembers]; exact hintegrity⟩,?_⟩
    exact {
      schemaVersion := rfl, receiptId := hreceipt, taskId := htask', requestId := hrequest', policyVersion := hpolicy'
      inputHash := hinput', contextHash := hcontext', candidates := hrouting.candidatesFit, route := hrouting.routeFits
      denial := hrouting.denial
      dropReasons := fun d hd => ⟨(hrouting.reasonsFit d hd).1,(hrouting.reasonsFit d hd).2.1,
        fun e he => ⟨(hrouting.reasonsFit d hd).2.2 e he,hknown d hd e he⟩⟩
      sources := ⟨hsome,hsourcesFit⟩, evidence := ⟨hne,hevidenceFit⟩, claims := hclaimsFit
      createdAt := htimesFit.createdAt, decisionAt := htimesFit.decisionAt, verifiedAt := htimesFit.verifiedAt}
  · rintro ⟨c,hvalues,h⟩
    obtain ⟨hmembers,hintegrity⟩ := (hread c).mp hvalues
    have hdigest := hprotected c hmembers
    simp only [Content.protectedMembers,forall_mem_cons,not_mem_nil,false_imp_iff,implies_true,and_true,same_scalar,
      same_texts] at hmembers
    obtain ⟨hschema,hrid,htask,hrequest,hpolicy,hinput,hcontext,hcandidates,hroute,hreasons,hsources,hevidence,htimes,hclaims⟩ := hmembers
    have hroute' : get fs "selected_route" = nullable c.selectedRoute := by
      cases hr : c.selectedRoute with
      | none =>
        rw [hr] at hroute
        exact same_scalar.mp hroute
      | some r =>
        rw [hr] at hroute
        exact same_scalar.mp hroute
    refine ⟨by rw [hschema,h.schemaVersion],⟨_,hrid,h.receiptId⟩,?_,(validateEvidence_ok (hfs.get _)).mpr ⟨_,hevidence,h.evidence⟩,?_⟩
    · refine (checkBody_ok o hfs).mpr ⟨⟨_,htask,h.taskId⟩,⟨_,hrequest,h.requestId⟩,⟨_,hpolicy,h.policyVersion⟩,⟨_,hinput,h.inputHash⟩,
        ⟨_,hcontext,h.contextHash⟩,⟨_,_,_,⟨hcandidates,hroute',hreasons,h.candidates,h.route,h.denial,fun d hd => ?_⟩⟩,
        _,hsources,h.sources⟩
      exact ⟨(h.dropReasons d hd).candidateId,(h.dropReasons d hd).code,fun e he => ((h.dropReasons d hd).evidenceId e he).1⟩
    · refine (checkTail_ok o hfs hevidence hreasons).mpr ⟨fun d hd e he => ((h.dropReasons d hd).evidenceId e he).2,
        ⟨⟨c.createdAt,c.decisionAt,c.verifiedAt⟩,htimes,⟨h.createdAt,h.decisionAt,h.verifiedAt⟩⟩,⟨_,hclaims,h.claims⟩,?_⟩
      rw [hdigest]
      exact hintegrity

theorem validateReceipt_iff (hv : Distinct v) :
    (validateReceipt o v).valid = true ↔ ∃ c : Content String, Same v (c.toDict o) ∧ WellFormed o Portable c := by
  rw [validateReceipt_valid]
  exact object_same (A := Content.members o) (S := fun _ => []) (r := receiptFields) (s := [])
    (fun _ => rfl) (fun _ => rfl) (by decide) hv fun fs hfs => (payload_iff o hfs).trans (exists_congr fun c =>
      and_congr_left fun _ => (and_iff_left fun _ he => absurd he not_mem_nil).symm)

end Verdict.Proof

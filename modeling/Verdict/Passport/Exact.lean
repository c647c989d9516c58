import Mathlib.Data.List.Dedup
import Verdict.Passport.Format

/-! # What the passport parser accepts

A passport with proper statuses is read back as it was written, and the key of a route tells
routes apart. A document is refused or read as it stands exactly when no unchecked exception comes
before the first refusal and, where nothing is refused, every status is a text and every chain a list.
-/
namespace Verdict.Passport
open Json
open Policy (RouteIdentity CapabilityStatus EvidenceAuthority isCapabilityName)
open Proof (matchesDigest)
open Raising (bind_ok map_ok)
open JsonCodec (record sortKeys sortKeys_perm unknownKeys)
open List (forall_mem_append forall_mem_cons map_cons map_id mem_append mem_cons mem_map
  not_mem_nil)
open Prod (ext fst)
open Json (str)

/-! ### Checks -/

theorem run_ok {cs : List Check} : run cs = .ok () ↔ ∀ c ∈ cs, c.holds = true := by
  induction cs with
  | nil => exact iff_of_true rfl fun _ h => absurd h not_mem_nil
  | cons c cs ih =>
    rw [run,forall_mem_cons]
    cases c.holds with
    | false => exact iff_of_false (fun h => nomatch h) fun h => nomatch h.1
    | true => exact ih.trans (and_iff_right rfl).symm

def Guarded (cs : List Check) : Prop :=
  ∀ before c after, cs = before ++ c :: after → c.otherwise.isRefusal = false → c.holds = true ∨ ∃ d ∈ before, d.holds = false

theorem guarded_iff {cs : List Check} : (∀ e, run cs = .error e → e.isRefusal = true) ↔ Guarded cs := by
  induction cs with
  | nil => exact iff_of_true (fun e h => nomatch h) fun before c after h => by simp at h
  | cons c cs ih =>
    rw [run]
    cases hc : c.holds with
    | false =>
      rw [if_neg Bool.noConfusion]
      constructor
      · intro h before d after hcs hd
        cases before with
        | nil =>
          obtain ⟨rfl,-⟩ := List.cons.inj hcs
          exact absurd (h _ rfl) (by rw [hd]; exact Bool.noConfusion)
        | cons b before =>
          obtain ⟨rfl,-⟩ := List.cons.inj hcs
          exact .inr ⟨c,List.mem_cons_self,hc⟩
      · intro h e he
        obtain rfl := Except.error.inj he
        by_contra hrefuse
        rcases h [] c cs rfl (Bool.eq_false_iff.mpr hrefuse) with h | ⟨d,hd,-⟩
        · exact Bool.false_ne_true (hc.symm.trans h)
        · exact absurd hd not_mem_nil
    | true =>
      rw [if_pos rfl,ih]
      constructor
      · intro h before d after hcs hd
        cases before with
        | nil =>
          obtain ⟨rfl,-⟩ := List.cons.inj hcs
          exact .inl hc
        | cons b before =>
          obtain ⟨rfl,hrest⟩ := List.cons.inj hcs
          exact (h before d after hrest hd).imp_right fun ⟨x,hx,hfails⟩ => ⟨x,List.mem_cons_of_mem _ hx,hfails⟩
      · intro h before d after hcs hd
        refine (h (c :: before) d after (by rw [hcs,List.cons_append]) hd).imp_right fun ⟨x,hx,hfails⟩ => ?_
        rcases mem_cons.mp hx with rfl | hx
        · exact absurd (hc.symm.trans hfails) Bool.true_eq_false.mp
        · exact ⟨x,hx,hfails⟩

section
variable (o : Clock) (v : Json)

/-- A failure of the check is no refusal. -/
def Check.escapes (c : Check) : Bool := !c.otherwise.isRefusal

def inUtc (j : Json) : Check := ⟨(instant? o j).isSome,.overflowError⟩

def evidenceEscapes : List Check :=
  [inUtc o (get v.fields "observed_at"),inUtc o (get v.fields "expires_at"),iterates (chain v.fields "limitations"),
   ⟨fitsFloat (get v.fields "confidence"),.overflowError⟩]

theorem evidence_escapes : (evidenceChecks o v).filter Check.escapes = evidenceEscapes o v := rfl

theorem route_escapes : (routeChecks v).filter Check.escapes =
    [iterates (chain v.fields "transformation_chain"),iterates (chain v.fields "fallback_chain")] := rfl

theorem map_escapes (name : String) : (evidenceMap o v name).filter Check.escapes = v.fields.flatMap (evidenceEscapes o ·.2) := by
  rw [evidenceMap,List.filter_cons_of_neg Bool.false_ne_true,List.filter_flatMap]
  exact List.flatMap_congr fun e _ => evidence_escapes o e.2

/-- The parts of a document that can raise another exception: timestamps, chains and confidences. -/
theorem passport_escapes : (passportChecks o v).filter Check.escapes =
    (get v.fields "claimed").fields.flatMap (evidenceEscapes o ·.2) ++ (get v.fields "observed").fields.flatMap (evidenceEscapes o ·.2) ++
    [iterates (chain (get v.fields "route_identity").fields "transformation_chain"),
     iterates (chain (get v.fields "route_identity").fields "fallback_chain"),
     inUtc o (get v.fields "qualified_at"),inUtc o (get v.fields "expires_at"),iterates (get v.fields "limitations")] := by
  simp only [passportChecks,List.filter_append,map_escapes,route_escapes,List.append_assoc]
  rfl

end

theorem fromDict_ok {o : Clock} {v : Json} {x : CapabilityPassport} :
    fromDict o v = .ok x ↔ (∀ c ∈ passportChecks o v, c.holds = true) ∧ passportOf o v = x := by
  rw [← run_ok]
  exact map_ok.trans ⟨fun ⟨_,h,hx⟩ => ⟨h,hx⟩,fun ⟨h,hx⟩ => ⟨(),h,hx⟩⟩

/-! ### Documents that say the same -/

inductive Kind
  | exact
  | time
  | number
  | nested

section
variable (o : Clock)

def Kind.Alike : Kind → Json → Json → Prop
  | .exact,a,b => a = b
  | .time,a,b => instant? o a = instant? o b
  | .number,a,b => a.norm = b.norm
  | .nested,_,_ => True

def Alike (members : List (String × Kind × Json)) (v w : Json) : Prop :=
  v.isObj = true ∧ w.isObj = true ∧ (∀ key ∈ v.fields.map fst ++ w.fields.map fst, key ∈ members.map fst) ∧
  ∀ m ∈ members, m.2.1.Alike o (getOr v.fields m.1 m.2.2) (getOr w.fields m.1 m.2.2)

def evidenceMembers : List (String × Kind × Json) :=
  [("status",.exact,.null),("source",.exact,.null),("observed_at",.time,.null),("expires_at",.time,.null),
   ("confidence",.number,.null),("evidence_digest",.exact,.null),("limitations",.exact,.arr []),
   ("authority",.exact,.str "observed"),("method",.exact,.str "unspecified"),("adapter_version",.exact,.str "unknown"),
   ("scope",.exact,.str "default"),("sample_count",.exact,.null)]

def routeMembers : List (String × Kind × Json) :=
  routeRequired.map (fun name => (name,.exact,.null)) ++
  [("model_revision",.exact,.null),("account_class",.exact,.null),("endpoint_class",.exact,.null),
   ("transformation_chain",.exact,.arr []),("fallback_chain",.exact,.arr [])]

def passportMembers : List (String × Kind × Json) :=
  [("schema_version",.exact,.null),("route_identity",.nested,.null),("qualified_at",.time,.null),("expires_at",.time,.null),
   ("claimed",.nested,.null),("observed",.nested,.null),("limitations",.exact,.null)]

def MapAlike (v w : Json) : Prop :=
  v.isObj = true ∧ w.isObj = true ∧
  List.Forall₂ (fun e f => e.1 = f.1 ∧ Alike o evidenceMembers e.2 f.2) (sortKeys v.fields) w.fields

/-- Equal up to optional members that are left out and the spelling of timestamps and numbers. -/
def PassportAlike (v w : Json) : Prop :=
  Alike o passportMembers v w ∧ Alike o routeMembers (get v.fields "route_identity") (get w.fields "route_identity") ∧
  MapAlike o (get v.fields "claimed") (get w.fields "claimed") ∧ MapAlike o (get v.fields "observed") (get w.fields "observed")

end

def EvidenceFormed (v : Json) : Prop := isText (get v.fields "status") = true ∧ isArr (chain v.fields "limitations") = true

def Formed (v : Json) : Prop :=
  (∀ e ∈ (get v.fields "claimed").fields ++ (get v.fields "observed").fields, EvidenceFormed e.2) ∧
  (∀ key ∈ ["transformation_chain","fallback_chain"], isArr (chain (get v.fields "route_identity").fields key) = true) ∧
  isArr (get v.fields "limitations") = true

variable {o : Clock} {v j : Json}

/-! ### Members that were checked -/

theorem str_textOf (h : isText j = true) : .str (textOf j) = j := by
  cases j with
  | scalar s => cases s <;> first | rfl | cases h
  | arr xs => cases h
  | obj fs => cases h

theorem str_of_nonEmpty (h : nonEmpty j = true) : .str (textOf j) = j := str_textOf (Bool.and_eq_true_iff.mp h).1

theorem items_textOf {xs : List Json} (h : xs.all nonEmpty = true) : (xs.map textOf).map str = xs := by
  rw [List.map_map]
  exact List.map_congr_left (fun x hx => str_of_nonEmpty (List.all_eq_true.mp h x hx)) |>.trans (map_id _)

theorem texts_eq_iff (h : (tuple j).all nonEmpty = true) : j = .arr ((texts j).map .str) ↔ isArr j = true := by
  cases j with
  | scalar s => exact iff_of_false (fun h => nomatch h) Bool.noConfusion
  | arr xs => exact iff_of_true (congrArg Json.arr (items_textOf h).symm) rfl
  | obj fs => exact iff_of_false (fun h => nomatch h) Bool.noConfusion

theorem optionalText_eq (h : (decide (j = .null) || nonEmpty j) = true) : ((optionalText j).map str).getD .null = j := by
  rcases Bool.or_eq_true_iff.mp h with h | h
  · rw [of_decide_eq_true h]
    rfl
  · rw [optionalText,if_pos (Bool.and_eq_true_iff.mp h).1]
    exact str_of_nonEmpty h

theorem known_keys {required optional : List String} {p : Fields} (h : (unknown required optional p).isEmpty = true) :
    ∀ key ∈ p.map fst, key ∈ required ++ optional := by
  intro key hkey
  by_contra hnot
  have hmem : key ∈ unknownKeys required optional p :=
    List.mem_filter.mpr ⟨hkey,decide_eq_true (not_or.mp (mt mem_append.mpr hnot))⟩
  have hsorted : key ∈ unknown required optional p := (List.mem_insertionSort _).mpr (List.mem_dedup.mpr hmem)
  rw [List.isEmpty_iff.mp h] at hsorted
  exact absurd hsorted not_mem_nil

theorem instant?_eq (h : (instant? o j).isSome = true) : instant? o j = some (instant o j) := by
  obtain ⟨t,ht⟩ := Option.isSome_iff_exists.mp h
  rw [instant,ht]
  rfl

theorem instant?_format (h : (instant? o j).isSome = true) : instant? o (.str (o.format (instant o j))) = some (instant o j) := by
  obtain ⟨d,-,hd⟩ := Option.bind_eq_some_iff.mp (instant?_eq h)
  obtain ⟨d',hread,-,hutc⟩ := o.read_format d _ hd
  exact Option.bind_eq_some_iff.mpr ⟨d',hread,hutc⟩

theorem norm_toFloat (j : Json) : (toFloat j).norm = j.norm := by
  cases j with
  | scalar s => cases s <;> rfl
  | arr xs => rfl
  | obj fs => rfl

theorem countOf_eq (h : isCount j = true) : ((countOf j).map Json.int).getD .null = j := by
  cases j with
  | scalar s => cases s <;> first | rfl | cases h
  | arr xs => cases h
  | obj fs => cases h

theorem authority_eq {a : EvidenceAuthority} (h : readAuthority j = some a) : j = .str a.value := by
  have ha := List.find?_some h
  exact of_decide_eq_true ha

theorem readStatus_cases (h : (!isText j || statuses.any fun s => decide (j = .str s.value)) = true) :
    if isText j = true then ∃ s, readStatus j = .known s ∧ j = .str s.value else ∃ k, readStatus j = .other k := by
  unfold readStatus
  cases hfind : statuses.find? fun s => decide (j = .str s.value) with
  | some s =>
    have hs := List.find?_some hfind
    have hj := of_decide_eq_true hs
    rw [if_pos (by rw [hj]; rfl)]
    exact ⟨s,rfl,hj⟩
  | none =>
    have hnone : (statuses.any fun s => decide (j = .str s.value)) = false := by
      rw [List.any_eq_false]
      exact List.find?_eq_none.mp hfind
    rw [hnone,Bool.or_false,Bool.not_eq_true'] at h
    rw [if_neg (by rw [h]; exact Bool.noConfusion)]
    exact ⟨j,rfl⟩

/-! ### Evidence -/

def Mapping (v : Json) (required optional : List String) : Prop :=
  v.isObj = true ∧ (missing required v.fields).isEmpty = true ∧ (unknown required optional v.fields).isEmpty = true

def Timestamp (o : Clock) (j : Json) : Prop :=
  isText j = true ∧ (readTime o j).isSome = true ∧ (readTime o j).any o.isAware = true ∧ (instant? o j).isSome = true

theorem strictMapping_holds {required optional : List String} {name : String} :
    (∀ c ∈ strictMapping v required optional name, c.holds = true) ↔ Mapping v required optional := by
  simp only [strictMapping,forall_mem_cons,not_mem_nil,false_implies,implies_true,and_true]
  exact Iff.rfl

theorem parseDatetime_holds {name : String} : (∀ c ∈ parseDatetime o j name, c.holds = true) ↔ Timestamp o j := by
  simp only [parseDatetime,forall_mem_cons,not_mem_nil,false_implies,implies_true,and_true]
  exact Iff.rfl

theorem timestamp_format {t : ℤ} (h : ∃ d, o.utc d = some t) : Timestamp o (.str (o.format t)) ∧ instant o (.str (o.format t)) = t := by
  obtain ⟨d,hd⟩ := h
  obtain ⟨d',hread,haware,hutc⟩ := o.read_format d t hd
  have htime : readTime o (.str (o.format t)) = some d' := hread
  have hinstant : instant? o (.str (o.format t)) = some t := by rw [instant?,htime,Option.bind_some,hutc]
  refine ⟨⟨rfl,?_,?_,?_⟩,?_⟩
  · rw [htime]
    rfl
  · rw [htime]
    exact haware
  · rw [hinstant]
    rfl
  · rw [instant,hinstant]
    rfl

structure EvidenceChecked (o : Clock) (v : Json) : Prop where
  mapping : Mapping v evidenceRequired evidenceOptional
  observedAt : Timestamp o (get v.fields "observed_at")
  expiresAt : Timestamp o (get v.fields "expires_at")
  iterates : (iterates (chain v.fields "limitations")).holds = true
  status : (!isText (get v.fields "status") || statuses.any fun s => decide (get v.fields "status" = .str s.value)) = true
  source : nonEmpty (get v.fields "source") = true
  authority : (readAuthority (getOr v.fields "authority" (.str "observed"))).isSome = true
  method : nonEmpty (getOr v.fields "method" (.str "unspecified")) = true
  adapterVersion : nonEmpty (getOr v.fields "adapter_version" (.str "unknown")) = true
  scope : nonEmpty (getOr v.fields "scope" (.str "default")) = true
  sampleCount : isCount (get v.fields "sample_count") = true
  order : instant o (get v.fields "observed_at") < instant o (get v.fields "expires_at")
  number : isNumber (get v.fields "confidence") = true
  fits : fitsFloat (get v.fields "confidence") = true
  share : isShare (get v.fields "confidence") = true
  digest : isText (get v.fields "evidence_digest") = true ∧ matchesDigest (textOf (get v.fields "evidence_digest")) = true
  limitations : (tuple (chain v.fields "limitations")).all nonEmpty = true

theorem evidenceChecks_holds : (∀ c ∈ evidenceChecks o v, c.holds = true) ↔ EvidenceChecked o v := by
  simp only [evidenceChecks,forall_mem_append,strictMapping_holds,parseDatetime_holds,forall_mem_cons,
    not_mem_nil,false_implies,implies_true,and_true]
  constructor
  · rintro ⟨⟨⟨h₁,h₂⟩,h₃⟩,h₄,h₅,h₆,h₇,h₈,h₉,h₁₀,h₁₁,h₁₂,h₁₃,h₁₄,h₁₅,h₁₆,h₁₇⟩
    exact ⟨h₁,h₂,h₃,h₄,h₅,h₆,h₇,h₈,h₉,h₁₀,h₁₁,of_decide_eq_true h₁₂,h₁₃,h₁₄,h₁₅,Bool.and_eq_true_iff.mp h₁₆,h₁₇⟩
  · intro h
    exact ⟨⟨⟨h.mapping,h.observedAt⟩,h.expiresAt⟩,h.iterates,h.status,h.source,h.authority,h.method,h.adapterVersion,h.scope,
      h.sampleCount,decide_eq_true h.order,h.number,h.fits,h.share,Bool.and_eq_true_iff.mpr h.digest,h.limitations⟩

section Evidence
variable {e : CapabilityEvidence} {s : CapabilityStatus}

theorem keys_fields : ∀ key ∈ (e.fields o s).map fst, key ∈ evidenceMembers.map fst := by
  intro key hkey
  cases hcount : e.sampleCount with
  | none =>
    rw [CapabilityEvidence.fields,hcount] at hkey
    exact List.mem_of_mem_dropLast (l := evidenceMembers.map fst) hkey
  | some n =>
    rw [CapabilityEvidence.fields,hcount] at hkey
    exact hkey

theorem sampleCount_fields : get (e.fields o s) "sample_count" = (e.sampleCount.map Json.int).getD .null := by
  cases hcount : e.sampleCount with
  | none =>
    rw [CapabilityEvidence.fields,hcount]
    rfl
  | some n =>
    rw [CapabilityEvidence.fields,hcount]
    rfl

theorem alike_time (h : Timestamp o j) : instant? o j = instant? o (.str (o.format (instant o j))) :=
  (instant?_eq h.2.2.2).trans (instant?_format h.2.2.2).symm

theorem evidence_alike (h : EvidenceChecked o v) (hstatus : get v.fields "status" = .str s.value) :
    Alike o evidenceMembers v (.obj ((evidenceOf o v).fields o s)) ↔ isArr (chain v.fields "limitations") = true := by
  constructor
  · rintro ⟨-,-,-,hall⟩
    exact (texts_eq_iff h.limitations).mp (hall ("limitations",.exact,.arr []) (by simp [evidenceMembers]))
  · intro harr
    refine ⟨h.mapping.1,rfl,?_,?_⟩
    · intro key hkey
      rcases mem_append.mp hkey with hkey | hkey
      · exact known_keys h.mapping.2.2 key hkey
      · exact keys_fields key hkey
    · obtain ⟨a,ha⟩ := Option.isSome_iff_exists.mp h.authority
      have hauthority : (evidenceOf o v).authority = a := by rw [evidenceOf,ha]; rfl
      have hcount := countOf_eq h.sampleCount
      simp only [evidenceMembers,forall_mem_cons,not_mem_nil,false_implies,implies_true,and_true]
      refine ⟨hstatus,?_,?_,?_,?_,?_,?_,?_,?_,?_,?_,?_⟩
      · exact (str_of_nonEmpty h.source).symm
      · exact alike_time h.observedAt
      · exact alike_time h.expiresAt
      · exact (norm_toFloat _).symm
      · exact (str_textOf h.digest.1).symm
      · exact (texts_eq_iff h.limitations).mpr harr
      · exact (authority_eq ha).trans (congrArg (fun b => str (EvidenceAuthority.value b)) hauthority.symm)
      · exact (str_of_nonEmpty h.method).symm
      · exact (str_of_nonEmpty h.adapterVersion).symm
      · exact (str_of_nonEmpty h.scope).symm
      · exact hcount.symm.trans (sampleCount_fields (e := evidenceOf o v)).symm

theorem readStatus_value : readStatus (.str s.value) = .known s := by
  cases s with
  | supported => rfl
  | unsupported => rfl
  | unknown => rfl

theorem evidence_written (h : EvidenceChecked o v) :
    (∃ w, (evidenceOf o v).toDict o = .ok w ∧ Alike o evidenceMembers v w) ↔ EvidenceFormed v := by
  have hread := readStatus_cases h.status
  rw [CapabilityEvidence.toDict,EvidenceFormed]
  split at hread
  · next htext =>
    obtain ⟨s,hs,hvalue⟩ := hread
    have hknown : (evidenceOf o v).status = .known s := hs
    rw [hknown]
    constructor
    · rintro ⟨w,hw,halike⟩
      obtain rfl := Except.ok.inj hw
      exact ⟨htext,(evidence_alike h hvalue).mp halike⟩
    · rintro ⟨-,harr⟩
      exact ⟨_,rfl,(evidence_alike h hvalue).mpr harr⟩
  · next htext =>
    obtain ⟨k,hk⟩ := hread
    have hother : (evidenceOf o v).status = .other k := hk
    rw [hother]
    exact iff_of_false (fun ⟨_,hw,_⟩ => nomatch hw) fun h => htext h.1

structure CapabilityEvidence.Valid (o : Clock) (e : CapabilityEvidence) : Prop where
  source : nonEmpty (.str e.source) = true
  observedAt : ∃ d, o.utc d = some e.observedAt
  expiresAt : ∃ d, o.utc d = some e.expiresAt
  order : e.observedAt < e.expiresAt
  confidence : isShare e.confidence = true ∧ toFloat e.confidence = e.confidence
  digest : matchesDigest e.evidenceDigest = true
  limitations : ∀ s ∈ e.limitations, nonEmpty (.str s) = true
  method : nonEmpty (.str e.method) = true
  adapterVersion : nonEmpty (.str e.adapterVersion) = true
  scope : nonEmpty (.str e.scope) = true
  sampleCount : ∀ n ∈ e.sampleCount, 1 ≤ n

theorem one_lt_floatBound : 1 < floatBound := by decide +kernel

theorem isShare_facts (h : isShare j = true) : isNumber j = true ∧ fitsFloat j = true := by
  cases j with
  | scalar s =>
    cases s with
    | int n =>
      have hn := of_decide_eq_true h
      have hle : n.natAbs ≤ 1 := by omega
      have hfits : decide (n.natAbs < floatBound) = true := decide_eq_true (hle.trans_lt one_lt_floatBound)
      exact ⟨rfl,hfits⟩
    | float q => exact ⟨rfl,rfl⟩
    | negZero => exact ⟨rfl,rfl⟩
    | _ => cases h
  | arr xs => cases h
  | obj fs => cases h

theorem mapping_fields : Mapping (.obj (e.fields o s)) evidenceRequired evidenceOptional := by
  refine ⟨rfl,rfl,?_⟩
  cases hcount : e.sampleCount with
  | none =>
    rw [CapabilityEvidence.fields,hcount]
    rfl
  | some n =>
    rw [CapabilityEvidence.fields,hcount]
    rfl

theorem all_texts {xs : List String} (h : ∀ s ∈ xs, nonEmpty (.str s) = true) : (tuple (.arr (xs.map .str))).all nonEmpty = true := by
  rw [List.all_eq_true]
  intro x hx
  obtain ⟨s,hs,rfl⟩ := mem_map.mp hx
  exact h s hs

theorem texts_map (xs : List String) : texts (.arr (xs.map .str)) = xs :=
  (List.map_map ..).trans (map_id xs)

theorem evidence_roundTrip (h : e.Valid o) (hs : e.status = .known s) :
    EvidenceChecked o (.obj (e.fields o s)) ∧ evidenceOf o (.obj (e.fields o s)) = e := by
  have hobserved := timestamp_format h.observedAt
  have hexpires := timestamp_format h.expiresAt
  have hauthority : readAuthority (.str e.authority.value) = some e.authority := by
    cases e.authority with
    | claimed => rfl
    | observed => rfl
    | verified => rfl
    | inferred => rfl
  constructor
  · have hcount : isCount (get (e.fields o s) "sample_count") = true := by
      rw [sampleCount_fields]
      cases hn : e.sampleCount with
      | none => rfl
      | some n => exact decide_eq_true (h.sampleCount n hn)
    exact
      { mapping := mapping_fields
        observedAt := hobserved.1
        expiresAt := hexpires.1
        iterates := rfl
        status := by cases s <;> rfl
        source := h.source
        authority := Option.isSome_iff_exists.mpr ⟨_,hauthority⟩
        method := h.method
        adapterVersion := h.adapterVersion
        scope := h.scope
        sampleCount := hcount
        order := (hobserved.2.trans_lt h.order).trans_eq hexpires.2.symm
        number := (isShare_facts h.confidence.1).1
        fits := (isShare_facts h.confidence.1).2
        share := h.confidence.1
        digest := ⟨rfl,h.digest⟩
        limitations := all_texts h.limitations }
  · have hcount : countOf (get (e.fields o s) "sample_count") = e.sampleCount := by
      rw [sampleCount_fields]
      cases e.sampleCount with
      | none => rfl
      | some n => rfl
    have hstatus : readStatus (.str s.value) = e.status := readStatus_value.trans hs.symm
    have hconfidence := h.confidence.2
    have htexts := texts_map e.limitations
    obtain ⟨status,source,observedAt,expiresAt,confidence,evidenceDigest,limitations,authority,method,adapterVersion,scope,count⟩ := e
    exact (CapabilityEvidence.mk.injEq ..).mpr
      ⟨hstatus,rfl,hobserved.2,hexpires.2,hconfidence,rfl,htexts,congrArg (Option.getD · _) hauthority,rfl,rfl,rfl,hcount⟩

end Evidence

/-! ### Maps of evidence -/

section
variable {es : List (String × CapabilityEvidence)} {fs : Fields}

def MapChecked (o : Clock) (v : Json) : Prop := v.isObj = true ∧ ∀ e ∈ v.fields, isCapabilityName e.1 = true ∧ EvidenceChecked o e.2

theorem evidenceMap_holds {name : String} : (∀ c ∈ evidenceMap o v name, c.holds = true) ↔ MapChecked o v := by
  rw [evidenceMap,forall_mem_cons]
  refine and_congr Iff.rfl ?_
  constructor
  · intro hall e he
    obtain ⟨hname,hrest⟩ := forall_mem_cons.mp fun c hc => hall c (List.mem_flatMap.mpr ⟨e,he,hc⟩)
    exact ⟨hname,evidenceChecks_holds.mp hrest⟩
  · intro hall c hc
    obtain ⟨e,he,hc⟩ := List.mem_flatMap.mp hc
    rcases mem_cons.mp hc with rfl | hc
    · exact (hall e he).1
    · exact evidenceChecks_holds.mpr (hall e he).2 c hc

def written (o : Clock) (e : CapabilityEvidence) : Json := match e.status with
  | .known s => .obj (e.fields o s)
  | .other _ => .null

theorem toDict_ok {e : CapabilityEvidence} {w : Json} : e.toDict o = .ok w ↔ (∃ s, e.status = .known s) ∧ written o e = w := by
  rw [CapabilityEvidence.toDict,written]
  cases e.status with
  | known s => exact ⟨fun h => ⟨⟨s,rfl⟩,Except.ok.inj h⟩,fun ⟨_,h⟩ => congrArg Except.ok h⟩
  | other j => exact iff_of_false (fun h => nomatch h) fun ⟨⟨_,h⟩,_⟩ => nomatch h

theorem mapToDict_ok :
    mapToDict o es = .ok fs ↔ (∀ e ∈ es, ∃ s, e.2.status = .known s) ∧ (sortKeys es).map (fun e => (e.1,written o e.2)) = fs := by
  have hmem : ∀ e, e ∈ sortKeys es ↔ e ∈ es := fun e => (sortKeys_perm es).mem_iff
  have hwritten : (∀ e ∈ es, ∃ s, e.2.status = .known s) → mapToDict o es = .ok ((sortKeys es).map fun e => (e.1,written o e.2)) :=
    fun h => Raising.mapM_map_ok fun e he => map_ok.mpr ⟨_,toDict_ok.mpr ⟨h e ((hmem e).mp he),rfl⟩,rfl⟩
  constructor
  · intro h
    have hknown : ∀ e ∈ es, ∃ s, e.2.status = .known s := by
      intro e he
      obtain ⟨f,-,hf⟩ := Raising.mem_mapM h ((hmem e).mpr he)
      obtain ⟨w,hw,-⟩ := map_ok.mp hf
      exact (toDict_ok.mp hw).1
    exact ⟨hknown,Except.ok.inj ((hwritten hknown).symm.trans h)⟩
  · rintro ⟨hknown,rfl⟩
    exact hwritten hknown

theorem map_written (h : MapChecked o v) :
    (∃ fs, mapToDict o (evidencesOf o v) = .ok fs ∧ MapAlike o v (.obj fs)) ↔ ∀ e ∈ v.fields, EvidenceFormed e.2 := by
  have hsort : (sortKeys (evidencesOf o v)).map (fun e => (e.1,written o e.2)) =
      (sortKeys v.fields).map fun e => (e.1,written o (evidenceOf o e.2)) := by
    rw [evidencesOf,JsonCodec.sortKeys_map,List.map_map]
    rfl
  have hmem : ∀ e, e ∈ sortKeys v.fields ↔ e ∈ v.fields := fun e => (sortKeys_perm _).mem_iff
  have halike : MapAlike o v (.obj ((sortKeys v.fields).map fun e => (e.1,written o (evidenceOf o e.2)))) ↔
      ∀ e ∈ v.fields, Alike o evidenceMembers e.2 (written o (evidenceOf o e.2)) := by
    refine (and_iff_right h.1).trans ((and_iff_right rfl).trans ?_)
    rw [fields,List.forall₂_map_right_iff,List.forall₂_same]
    exact ⟨fun hall e he => (hall e ((hmem e).mpr he)).2,fun hall e he => ⟨rfl,hall e ((hmem e).mp he)⟩⟩
  have hknown : (∀ e ∈ evidencesOf o v, ∃ s, e.2.status = .known s) ↔ ∀ e ∈ v.fields, ∃ s, (evidenceOf o e.2).status = .known s :=
    List.forall_mem_map
  constructor
  · rintro ⟨fs,hfs,hmap⟩ e he
    obtain ⟨hstatus,rfl⟩ := mapToDict_ok.mp hfs
    rw [hsort] at hmap
    exact (evidence_written (h.2 e he).2).mp ⟨_,toDict_ok.mpr ⟨hknown.mp hstatus e he,rfl⟩,halike.mp hmap e he⟩
  · intro hformed
    have heach : ∀ e ∈ v.fields, (∃ s, (evidenceOf o e.2).status = .known s) ∧ Alike o evidenceMembers e.2 (written o (evidenceOf o e.2)) := by
      intro e he
      obtain ⟨w,hw,hsame⟩ := (evidence_written (h.2 e he).2).mpr (hformed e he)
      obtain ⟨hstatus,rfl⟩ := toDict_ok.mp hw
      exact ⟨hstatus,hsame⟩
    refine ⟨_,mapToDict_ok.mpr ⟨hknown.mpr fun e he => (heach e he).1,rfl⟩,?_⟩
    rw [hsort]
    exact halike.mpr fun e he => (heach e he).2

theorem map_roundTrip (hes : ∀ e ∈ es, isCapabilityName e.1 = true ∧ e.2.Valid o) (h : mapToDict o es = .ok fs) :
    MapChecked o (.obj fs) ∧ evidencesOf o (.obj fs) = sortKeys es := by
  obtain ⟨hknown,rfl⟩ := mapToDict_ok.mp h
  have hmem : ∀ e, e ∈ sortKeys es ↔ e ∈ es := fun e => (sortKeys_perm es).mem_iff
  have hback : ∀ e ∈ sortKeys es, EvidenceChecked o (written o e.2) ∧ evidenceOf o (written o e.2) = e.2 := by
    intro e he
    obtain ⟨s,hs⟩ := hknown e ((hmem e).mp he)
    have hobj : written o e.2 = .obj (e.2.fields o s) := by rw [written,hs]
    rw [hobj]
    exact evidence_roundTrip (hes e ((hmem e).mp he)).2 hs
  refine ⟨⟨rfl,fun f hf => ?_⟩,?_⟩
  · obtain ⟨e,he,rfl⟩ := mem_map.mp hf
    exact ⟨(hes e ((hmem e).mp he)).1,(hback e he).1⟩
  · rw [evidencesOf,fields,List.map_map]
    refine (List.map_congr_left fun e he => ?_).trans (map_id _)
    exact ext rfl (hback e he).2

theorem mapToDict_sortKeys : mapToDict o (sortKeys es) = mapToDict o es := by
  rw [mapToDict,JsonCodec.sortKeys_of_sorted (JsonCodec.pairwise_sortKeys es)]
  rfl

end

/-! ### Routes -/

section
variable {r s : RouteIdentity}

structure RouteChecked (v : Json) : Prop where
  mapping : Mapping v routeRequired routeOptional
  iterates : (iterates (chain v.fields "transformation_chain")).holds = true ∧ (iterates (chain v.fields "fallback_chain")).holds = true
  required : ∀ name ∈ routeRequired, nonEmpty (get v.fields name) = true
  optional : ∀ name ∈ optionalNames, (decide (get v.fields name = .null) || nonEmpty (get v.fields name)) = true
  transformations : (tuple (chain v.fields "transformation_chain")).all nonEmpty = true
  fallbacks : (tuple (chain v.fields "fallback_chain")).all nonEmpty = true

theorem routeChecks_holds : (∀ c ∈ routeChecks v, c.holds = true) ↔ RouteChecked v := by
  simp only [routeChecks,forall_mem_append,strictMapping_holds,forall_mem_cons,List.forall_mem_map,not_mem_nil,
    false_implies,implies_true,and_true]
  constructor
  · rintro ⟨⟨⟨⟨h₁,h₂⟩,h₃⟩,h₄⟩,h₅,h₆⟩
    exact ⟨h₁,h₂,h₃,h₄,h₅,h₆⟩
  · intro h
    exact ⟨⟨⟨⟨h.mapping,h.iterates⟩,h.required⟩,h.optional⟩,h.transformations,h.fallbacks⟩

def required (r : RouteIdentity) : Fields :=
  [("gateway",.str r.gateway),("provider",.str r.provider),("connection",.str r.connection),("endpoint",.str r.endpoint),
   ("protocol",.str r.protocol),("model_id",.str r.modelId)]

variable (xs : List String)

def listed : Option Json := if xs = [] then none else some (.arr (xs.map .str))

def optional (r : RouteIdentity) : List (String × Option Json) :=
  [("model_revision",r.modelRevision.map .str),("account_class",r.accountClass.map .str),("endpoint_class",r.endpointClass.map .str),
   ("transformation_chain",listed r.transformationChain),("fallback_chain",listed r.fallbackChain)]

theorem record_cons (k : String) (a : Option Json) (rest : List (String × Option Json)) :
    record ((k,a) :: rest) = (a.map fun j => (k,j)).toList ++ record rest := by
  cases a with
  | none => rfl
  | some j => rfl

theorem listed_toList (k : String) (xs : List String) :
    (if xs = [] then [] else [(k,Json.arr (xs.map .str))]) = ((listed xs).map fun j => (k,j)).toList := by
  rw [listed]
  split
  · rfl
  · rfl

theorem toDict_members : r.toDict = members (required r) (optional r) := by
  rw [members,optional,record_cons,record_cons,record_cons,record_cons,record_cons,RouteIdentity.toDict,listed_toList,listed_toList]
  have hnil : record [] = [] := rfl
  simp only [Option.map_map,List.append_assoc,hnil,List.append_nil]
  rfl

theorem lookup_optional {e : String × Option Json} (he : e ∈ optional r) : r.toDict.lookup e.1 = e.2 := by
  have hnot : e.1 ∉ (required r).map fst := by
    have hkeys : e.1 ∈ (optional r).map fst := List.mem_map_of_mem he
    exact fun hmem => (by decide : ∀ key ∈ routeOptional, key ∉ routeRequired) _ hkeys hmem
  have hnodup : ((optional r).map fst).Nodup := (by decide : routeOptional.Nodup)
  rw [toDict_members,members,lookup_append,Dict.lookup_eq_none_of_not_mem hnot,Option.none_or,JsonCodec.lookup_record hnodup he]

theorem get_optional {key : String} {a : Option String} (he : (key,a.map str) ∈ optional r) : optionalText (get r.toDict key) = a := by
  rw [Json.get,lookup_optional he]
  cases a with
  | none => rfl
  | some t => rfl

theorem chain_optional {key : String} {xs : List String} (he : (key,listed xs) ∈ optional r) :
    chain r.toDict key = .arr (xs.map .str) := by
  rw [chain,getOr,lookup_optional he,listed]
  split
  · next h =>
    rw [h]
    rfl
  · rfl

theorem routeOf_toDict : routeOf (.obj r.toDict) = r := by
  have hrevision : optionalText (get r.toDict "model_revision") = r.modelRevision := get_optional (by simp [optional])
  have haccount : optionalText (get r.toDict "account_class") = r.accountClass := get_optional (by simp [optional])
  have hendpoint : optionalText (get r.toDict "endpoint_class") = r.endpointClass := get_optional (by simp [optional])
  have htransformations : texts (chain r.toDict "transformation_chain") = r.transformationChain := by
    have hchain : chain r.toDict "transformation_chain" = .arr (r.transformationChain.map .str) := chain_optional (by simp [optional])
    exact (congrArg texts hchain).trans (texts_map _)
  have hfallbacks : texts (chain r.toDict "fallback_chain") = r.fallbackChain := by
    have hchain : chain r.toDict "fallback_chain" = .arr (r.fallbackChain.map .str) := chain_optional (by simp [optional])
    exact (congrArg texts hchain).trans (texts_map _)
  rw [routeOf,fields,hrevision,haccount,hendpoint,htransformations,hfallbacks]
  rfl

structure ValidRoute (r : RouteIdentity) : Prop where
  required : ∀ e ∈ required r, nonEmpty e.2 = true
  optional : ∀ a ∈ [r.modelRevision,r.accountClass,r.endpointClass], ∀ s ∈ a, nonEmpty (.str s) = true
  chains : ∀ xs ∈ [r.transformationChain,r.fallbackChain], ∀ s ∈ xs, nonEmpty (.str s) = true

theorem keys_toDict : ∀ key ∈ r.toDict.map fst, key ∈ routeRequired ++ routeOptional := by
  intro key hkey
  rw [toDict_members] at hkey
  exact mem_append.mpr (mem_members hkey)

theorem unknown_isEmpty {required optional : List String} {p : Fields} (h : ∀ key ∈ p.map fst, key ∈ required ++ optional) :
    (unknown required optional p).isEmpty = true := by
  have hnil : unknownKeys required optional p = [] := by
    refine List.filter_eq_nil_iff.mpr fun key hkey hnot => ?_
    obtain ⟨hrequired,hoptional⟩ := of_decide_eq_true hnot
    exact (mem_append.mp (h key hkey)).elim hrequired hoptional
  rw [unknown,hnil]
  rfl

theorem route_checked (h : ValidRoute r) : RouteChecked (.obj r.toDict) := by
  have hchain : ∀ key xs, (key,listed xs) ∈ optional r → xs ∈ [r.transformationChain,r.fallbackChain] →
      (iterates (chain r.toDict key)).holds = true ∧ (tuple (chain r.toDict key)).all nonEmpty = true := by
    intro key xs hkey hxs
    rw [chain_optional hkey]
    exact ⟨rfl,all_texts (h.chains xs hxs)⟩
  have htransformations := hchain "transformation_chain" r.transformationChain (by simp [optional]) (by simp)
  have hfallbacks := hchain "fallback_chain" r.fallbackChain (by simp [optional]) (by simp)
  have hoptional : ∀ key a, (key,a.map str) ∈ optional r → a ∈ [r.modelRevision,r.accountClass,r.endpointClass] →
      (decide (get r.toDict key = .null) || nonEmpty (get r.toDict key)) = true := by
    intro key a hkey ha
    rw [Json.get,lookup_optional hkey]
    cases a with
    | none => rfl
    | some t => exact Bool.or_eq_true_iff.mpr (.inr (h.optional _ ha t rfl))
  refine ⟨⟨rfl,rfl,unknown_isEmpty keys_toDict⟩,⟨htransformations.1,hfallbacks.1⟩,?_,?_,htransformations.2,hfallbacks.2⟩
  · have hrequired := h.required
    simp only [required,forall_mem_cons,not_mem_nil,false_implies,implies_true,and_true] at hrequired
    simp only [routeRequired,forall_mem_cons,not_mem_nil,false_implies,implies_true,and_true]
    exact hrequired
  · simp only [optionalNames,forall_mem_cons,not_mem_nil,false_implies,implies_true,and_true]
    exact ⟨hoptional _ r.modelRevision (by simp [optional]) (by simp),hoptional _ r.accountClass (by simp [optional]) (by simp),
      hoptional _ r.endpointClass (by simp [optional]) (by simp)⟩

theorem route_alike (h : RouteChecked v) : Alike o routeMembers v (.obj (routeOf v).toDict) ↔
    ∀ key ∈ ["transformation_chain","fallback_chain"], isArr (chain v.fields key) = true := by
  have htransformations : chain (routeOf v).toDict "transformation_chain" = .arr ((texts (chain v.fields "transformation_chain")).map .str) :=
    chain_optional (by simp [optional,routeOf])
  have hfallbacks : chain (routeOf v).toDict "fallback_chain" = .arr ((texts (chain v.fields "fallback_chain")).map .str) :=
    chain_optional (by simp [optional,routeOf])
  have hgives : chain v.fields "transformation_chain" = chain (routeOf v).toDict "transformation_chain" ∧
      chain v.fields "fallback_chain" = chain (routeOf v).toDict "fallback_chain" ↔
      ∀ key ∈ ["transformation_chain","fallback_chain"], isArr (chain v.fields key) = true := by
    rw [htransformations,hfallbacks,texts_eq_iff h.transformations,texts_eq_iff h.fallbacks]
    simp
  have hoptional : ∀ name ∈ optionalNames, (name,(optionalText (get v.fields name)).map str) ∈ optional (routeOf v) →
      get v.fields name = get (routeOf v).toDict name := by
    intro name hname hmem
    rw [Json.get,Json.get,lookup_optional hmem]
    exact (optionalText_eq (h.optional name hname)).symm
  rw [← hgives]
  constructor
  · rintro ⟨-,-,-,hall⟩
    exact ⟨hall ("transformation_chain",.exact,.arr []) (by simp [routeMembers]),
      hall ("fallback_chain",.exact,.arr []) (by simp [routeMembers])⟩
  · intro hchains
    refine ⟨h.mapping.1,rfl,?_,?_⟩
    · intro key hkey
      rcases mem_append.mp hkey with hkey | hkey
      · exact known_keys h.mapping.2.2 key hkey
      · exact keys_toDict key hkey
    · have hrequired := h.required
      simp only [routeRequired,forall_mem_cons,not_mem_nil,false_implies,implies_true,and_true] at hrequired
      simp only [routeMembers,routeRequired,map_cons,List.map_nil,List.cons_append,List.nil_append,forall_mem_cons,
        not_mem_nil,false_implies,implies_true,and_true]
      obtain ⟨h₁,h₂,h₃,h₄,h₅,h₆⟩ := hrequired
      exact ⟨(str_of_nonEmpty h₁).symm,(str_of_nonEmpty h₂).symm,(str_of_nonEmpty h₃).symm,(str_of_nonEmpty h₄).symm,
        (str_of_nonEmpty h₅).symm,(str_of_nonEmpty h₆).symm,
        hoptional "model_revision" (by simp [optionalNames]) (by simp [optional,routeOf]),
        hoptional "account_class" (by simp [optionalNames]) (by simp [optional,routeOf]),
        hoptional "endpoint_class" (by simp [optionalNames]) (by simp [optional,routeOf]),hchains.1,hchains.2⟩

theorem canonList_texts : canonList (xs.map .str) = xs.map .str := by
  induction xs with
  | nil => rfl
  | cons x xs ih =>
    rw [map_cons,canonList,ih]
    rfl

theorem canon_listed : (listed xs).map canon = listed xs := by
  rw [listed]
  split
  · rfl
  · rw [Option.map_some,canon,canonList_texts]

theorem canon_optional : ∀ e ∈ optional r, e.2.map canon = e.2 := by
  have htext : ∀ a : Option String, (a.map str).map canon = a.map str := fun a => by rw [Option.map_map]; rfl
  simp only [optional,forall_mem_cons,not_mem_nil,false_implies,implies_true,and_true]
  exact ⟨htext _,htext _,htext _,canon_listed _,canon_listed _⟩

theorem canon_member : ∀ e ∈ r.toDict, canon e.2 = e.2 := by
  intro e he
  rw [toDict_members] at he
  rcases mem_append.mp he with he | he
  · simp only [required,mem_cons,not_mem_nil,or_false] at he
    rcases he with rfl | rfl | rfl | rfl | rfl | rfl <;> rfl
  · obtain ⟨f,hf,hsome⟩ := List.mem_filterMap.mp he
    obtain ⟨j,hj,rfl⟩ := Option.map_eq_some_iff.mp hsome
    have hcanon := canon_optional f hf
    rw [hj] at hcanon
    exact Option.some.inj hcanon

theorem lookup_canonical (key : String) : (canonFields r.toDict).lookup key = r.toDict.lookup key := by
  rw [lookup_canonFields]
  cases h : r.toDict.lookup key with
  | none => rfl
  | some j => rw [Option.map_some,canon_member _ (Dict.lookup_some_mem h)]

theorem routeOf_lookup {p q : Fields} (h : ∀ key, p.lookup key = q.lookup key) : routeOf (.obj p) = routeOf (.obj q) := by
  simp only [routeOf,fields,chain,getOr,Json.get,h]

theorem routeKey_inj {κ : Type} {digest : Json → κ} (hdigest : Function.Injective digest) :
    routeKey digest r = routeKey digest s ↔ r = s := by
  refine ⟨fun h => ?_,congrArg _⟩
  have hcanon : canonFields r.toDict = canonFields s.toDict := Json.obj.inj (hdigest h)
  have hlookup : ∀ key, r.toDict.lookup key = s.toDict.lookup key := fun key => by
    rw [← lookup_canonical,hcanon,lookup_canonical]
  exact routeOf_toDict.symm.trans ((routeOf_lookup hlookup).trans routeOf_toDict)

end

/-! ### Passports -/

section
variable {x : CapabilityPassport}

structure PassportChecked (o : Clock) (v : Json) : Prop where
  mapping : Mapping v passportRequired []
  claimed : MapChecked o (get v.fields "claimed")
  observed : MapChecked o (get v.fields "observed")
  route : RouteChecked (get v.fields "route_identity")
  qualifiedAt : Timestamp o (get v.fields "qualified_at")
  expiresAt : Timestamp o (get v.fields "expires_at")
  iterates : (iterates (get v.fields "limitations")).holds = true
  version : get v.fields "schema_version" = .str SCHEMA_VERSION
  order : instant o (get v.fields "qualified_at") < instant o (get v.fields "expires_at")
  limitations : (tuple (get v.fields "limitations")).all nonEmpty = true

theorem passportChecks_holds : (∀ c ∈ passportChecks o v, c.holds = true) ↔ PassportChecked o v := by
  simp only [passportChecks,forall_mem_append,strictMapping_holds,evidenceMap_holds,routeChecks_holds,parseDatetime_holds,
    forall_mem_cons,not_mem_nil,false_implies,implies_true,and_true]
  constructor
  · rintro ⟨⟨⟨⟨⟨⟨h₁,h₂⟩,h₃⟩,h₄⟩,h₅⟩,h₆⟩,h₇,h₈,h₉,h₁₀⟩
    exact ⟨h₁,h₂,h₃,h₄,h₅,h₆,h₇,of_decide_eq_true h₈,of_decide_eq_true h₉,h₁₀⟩
  · intro h
    exact ⟨⟨⟨⟨⟨⟨h.mapping,h.claimed⟩,h.observed⟩,h.route⟩,h.qualifiedAt⟩,h.expiresAt⟩,h.iterates,decide_eq_true h.version,
      decide_eq_true h.order,h.limitations⟩

theorem passport_alike (h : PassportChecked o v) (claimed observed : Fields) :
    Alike o passportMembers v (.obj ((passportOf o v).fields o claimed observed)) ↔ isArr (get v.fields "limitations") = true := by
  constructor
  · rintro ⟨-,-,-,hall⟩
    exact (texts_eq_iff h.limitations).mp (hall ("limitations",.exact,.null) (by simp [passportMembers]))
  · intro harr
    refine ⟨h.mapping.1,rfl,?_,?_⟩
    · intro key hkey
      rcases mem_append.mp hkey with hkey | hkey
      · exact known_keys h.mapping.2.2 key hkey
      · exact hkey
    · simp only [passportMembers,forall_mem_cons,not_mem_nil,false_implies,implies_true,and_true]
      exact ⟨h.version,trivial,alike_time h.qualifiedAt,alike_time h.expiresAt,trivial,trivial,(texts_eq_iff h.limitations).mpr harr⟩

theorem passport_toDict_ok {w : Json} : x.toDict o = .ok w ↔
    ∃ claimed observed, mapToDict o x.claimed = .ok claimed ∧ mapToDict o x.observed = .ok observed ∧ .obj (x.fields o claimed observed) = w := by
  rw [CapabilityPassport.toDict,bind_ok]
  constructor
  · rintro ⟨claimed,hclaimed,h⟩
    obtain ⟨observed,hobserved,h⟩ := bind_ok.mp h
    exact ⟨claimed,observed,hclaimed,hobserved,Except.ok.inj h⟩
  · rintro ⟨claimed,observed,hclaimed,hobserved,rfl⟩
    exact ⟨claimed,hclaimed,bind_ok.mpr ⟨observed,hobserved,rfl⟩⟩

theorem passport_written (h : PassportChecked o v) :
    (∃ w, (passportOf o v).toDict o = .ok w ∧ PassportAlike o v w) ↔ Formed v := by
  have hclaimed := map_written h.claimed
  have hobserved := map_written h.observed
  rw [Formed,forall_mem_append]
  constructor
  · rintro ⟨w,hw,halike,hroute,hmaps⟩
    obtain ⟨claimed,observed,hc,ho,rfl⟩ := passport_toDict_ok.mp hw
    exact ⟨⟨hclaimed.mp ⟨claimed,hc,hmaps.1⟩,hobserved.mp ⟨observed,ho,hmaps.2⟩⟩,(route_alike h.route).mp hroute,
      (passport_alike h claimed observed).mp halike⟩
  · rintro ⟨⟨hfc,hfo⟩,hchains,harr⟩
    obtain ⟨claimed,hc,hmapc⟩ := hclaimed.mpr hfc
    obtain ⟨observed,ho,hmapo⟩ := hobserved.mpr hfo
    exact ⟨_,passport_toDict_ok.mpr ⟨claimed,observed,hc,ho,rfl⟩,(passport_alike h claimed observed).mpr harr,
      (route_alike h.route).mpr hchains,hmapc,hmapo⟩

structure CapabilityPassport.Valid (o : Clock) (x : CapabilityPassport) : Prop where
  route : ValidRoute x.routeIdentity
  qualifiedAt : ∃ d, o.utc d = some x.qualifiedAt
  expiresAt : ∃ d, o.utc d = some x.expiresAt
  order : x.qualifiedAt < x.expiresAt
  evidence : ∀ e ∈ x.claimed ++ x.observed, isCapabilityName e.1 = true ∧ e.2.Valid o
  limitations : ∀ s ∈ x.limitations, nonEmpty (.str s) = true

def CapabilityPassport.sorted (x : CapabilityPassport) : CapabilityPassport :=
  {x with claimed := sortKeys x.claimed,observed := sortKeys x.observed}

theorem passport_roundTrip (h : x.Valid o) :
    (∃ w, x.toDict o = .ok w ∧ fromDict o w = .ok x.sorted ∧ x.sorted.toDict o = .ok w) ↔ ∀ e ∈ x.claimed ++
    x.observed, ∃ s, e.2.status = .known s := by
  rw [forall_mem_append]
  obtain ⟨hvc,hvo⟩ := forall_mem_append.mp h.evidence
  constructor
  · rintro ⟨w,hw,-,-⟩
    obtain ⟨claimed,observed,hc,ho,-⟩ := passport_toDict_ok.mp hw
    exact ⟨(mapToDict_ok.mp hc).1,(mapToDict_ok.mp ho).1⟩
  · rintro ⟨hkc,hko⟩
    have hc := mapToDict_ok (o := o).mpr ⟨hkc,rfl⟩
    have ho := mapToDict_ok (o := o).mpr ⟨hko,rfl⟩
    obtain ⟨hclaimed,hreadc⟩ := map_roundTrip hvc hc
    obtain ⟨hobserved,hreado⟩ := map_roundTrip hvo ho
    have hqualified := timestamp_format h.qualifiedAt
    have hexpires := timestamp_format h.expiresAt
    refine ⟨_,passport_toDict_ok.mpr ⟨_,_,hc,ho,rfl⟩,fromDict_ok.mpr ⟨?_,?_⟩,passport_toDict_ok.mpr ⟨_,_,?_,?_,rfl⟩⟩
    · exact passportChecks_holds.mpr
        { mapping := ⟨rfl,rfl,rfl⟩
          claimed := hclaimed
          observed := hobserved
          route := route_checked h.route
          qualifiedAt := hqualified.1
          expiresAt := hexpires.1
          iterates := rfl
          version := rfl
          order := (hqualified.2.trans_lt h.order).trans_eq hexpires.2.symm
          limitations := all_texts h.limitations }
    · have hlimitations := texts_map x.limitations
      exact (CapabilityPassport.mk.injEq ..).mpr ⟨routeOf_toDict,hqualified.2,hexpires.2,hreadc,hreado,hlimitations⟩
    · exact mapToDict_sortKeys.trans hc
    · exact mapToDict_sortKeys.trans ho

/-- Passports are read as they are written, the parser refuses what it does not read as it stands,
and routes are known by their keys: exactly as far as statuses are texts, chains lists and
failures refusals. -/
theorem passport_parser_exact (o : Clock) {κ : Type} (digest : Json → κ) (hdigest : Function.Injective digest) :
    (∀ x : CapabilityPassport, x.Valid o →
      ((∃ w, x.toDict o = .ok w ∧ fromDict o w = .ok x.sorted ∧ x.sorted.toDict o = .ok w) ↔
        ∀ e ∈ x.claimed ++ x.observed, ∃ s, e.2.status = .known s)) ∧
    (∀ v, (match fromDict o v with
        | .error e => e.isRefusal = true
        | .ok x => ∃ w, x.toDict o = .ok w ∧ PassportAlike o v w) ↔
      Guarded (passportChecks o v) ∧ ((∀ c ∈ passportChecks o v, c.holds = true) → Formed v)) ∧
    ∀ r s, routeKey digest r = routeKey digest s ↔ r = s := by
  refine ⟨fun x => passport_roundTrip,fun v => ?_,fun r s => routeKey_inj hdigest⟩
  rw [← guarded_iff]
  cases hrun : run (passportChecks o v) with
  | error e =>
    have hnot : ¬ ∀ c ∈ passportChecks o v, c.holds = true := fun hall => nomatch hrun.symm.trans (run_ok.mpr hall)
    rw [fromDict,hrun]
    exact ⟨fun h => ⟨fun _ he => Except.error.inj he ▸ h,fun hall => absurd hall hnot⟩,fun h => h.1 e rfl⟩
  | ok u =>
    have hall := run_ok.mp hrun
    rw [fromDict,hrun]
    exact (passport_written (passportChecks_holds.mp hall)).trans
      ⟨fun h => ⟨fun _ he => (nomatch he),fun _ => h⟩,fun h => h.2 hall⟩

def twoDays : Clock where
  Datetime := Bool
  read s := if s = "2026-01-01T00:00:00Z" then some false else if s = "2026-01-02T00:00:00Z" then some true else none
  isAware _ := true
  utc later := some (if later then 1767312000000000 else 1767225600000000)
  format t := if t = 1767225600000000 then "2026-01-01T00:00:00Z" else "2026-01-02T00:00:00Z"
  read_format d t h := ⟨d,by cases d <;> cases Option.some.inj h <;> rfl,rfl,h⟩

def sampleIdentity : Fields :=
  [("gateway",.str "gateway"),("provider",.str "provider"),("connection",.str "connection"),("endpoint",.str "endpoint"),
   ("protocol",.str "openai"),("model_id",.str "model")]

def sampleEvidence : Fields :=
  [("tool_use",.obj [("status",.str "supported"),("source",.str "probe"),("observed_at",.str "2026-01-01T00:00:00Z"),
    ("expires_at",.str "2026-01-02T00:00:00Z"),("confidence",.float (mkRat 1 2)),("evidence_digest",.str ("sha256:" ++ String.ofList (List.replicate 64 'a'))),
    ("sample_count",.int 3),("limitations",.arr [.str "text only"])])]

def sampleDocument (evidence : Fields) (limitations : Json) : Json :=
  .obj [("schema_version",.str "1"),("route_identity",.obj sampleIdentity),("qualified_at",.str "2026-01-01T00:00:00Z"),
    ("expires_at",.str "2026-01-02T00:00:00Z"),("claimed",.obj evidence),("observed",.obj evidence),("limitations",limitations)]

theorem evidence_read_exactly : ∃ x w, fromDict twoDays (sampleDocument sampleEvidence (.arr [.str "ab"])) = .ok x ∧
    x.toDict twoDays = .ok w ∧ PassportAlike twoDays (sampleDocument sampleEvidence (.arr [.str "ab"])) w := by
  have hall : ∀ c ∈ passportChecks twoDays (sampleDocument sampleEvidence (.arr [.str "ab"])), c.holds = true := by decide +kernel
  have hread := fromDict_ok.mpr ⟨hall,rfl⟩
  have hformed : Formed (sampleDocument sampleEvidence (.arr [.str "ab"])) := by
    refine ⟨fun e he => ?_,fun key hkey => by simp at hkey; rcases hkey with rfl | rfl <;> rfl,rfl⟩
    have he : e ∈ sampleEvidence ++ sampleEvidence := he
    rw [List.eq_of_mem_singleton ((mem_append.mp he).elim id id)]
    exact ⟨rfl,rfl⟩
  have hexact := ((passport_parser_exact twoDays (id : Json → Json) Function.injective_id).2.1 _).mpr
    ⟨guarded_iff.mp fun e he => (nomatch he.symm.trans (run_ok.mpr hall)),fun _ => hformed⟩
  rw [hread] at hexact
  obtain ⟨w,hw,halike⟩ := hexact
  exact ⟨_,w,hread,hw,halike⟩

theorem text_taken_apart :
    (∃ x, fromDict twoDays (sampleDocument [] (.str "ab")) = .ok x ∧ x.limitations = ["a","b"] ∧
      ¬ ∃ w, x.toDict twoDays = .ok w ∧ PassportAlike twoDays (sampleDocument [] (.str "ab")) w) ∧
    fromDict twoDays (sampleDocument [] .null) = .error .typeError := by
  have hall : ∀ c ∈ passportChecks twoDays (sampleDocument [] (.str "ab")), c.holds = true := by decide +kernel
  have hescapes : run (passportChecks twoDays (sampleDocument [] .null)) = .error .typeError := by decide +kernel
  refine ⟨⟨_,fromDict_ok.mpr ⟨hall,rfl⟩,rfl,fun h => ?_⟩,by rw [fromDict,hescapes]; rfl⟩
  exact Bool.false_ne_true ((passport_written (passportChecks_holds.mp hall)).mp h).2.2

end

end Verdict.Passport

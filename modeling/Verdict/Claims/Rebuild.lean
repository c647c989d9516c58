import Verdict.Basics.Raising
import Verdict.Claims.Ledger
import Verdict.ReceiptStore.Lifecycle

/-! # Rebuilding a claims ledger

The rows that a ledger has written say which claims were added and which transitions were
made, in order. Loading them replays the transitions over the claims as they were added, and
so does the live ledger, as long as no claim was written whose predecessor did not move.
-/
namespace Verdict.Claims
open Proof
open Raising
open ReceiptStore (Env Row PutArgs EventArgs StoreError Sound Grows putReceipt appendEvent queryReceipts scopeRows validScope
  KeepsSmall UntouchedFields redactSensitiveDict_untouched)
open List (append_assoc append_nil map_append map_cons map_map map_nil mem_cons mem_cons_self
  mem_map)
open Json (canon canonFields)

section
variable {env : Env} {scope : String} {rows : List Row}

def typedRows (rows : List Row) (scope receiptType : String) : List Row :=
  (scopeRows rows scope).filter fun r => r.receiptType = receiptType

/-- Every tombstone is for a row of the store, and none for one of the scope. -/
structure Unburied (scope : String) (rows : List Row) : Prop where
  anchored : ∀ t ∈ rows, ∀ id ∈ t.links.tombstoneFor, ∃ x ∈ rows, x.receiptId = id
  spared : ∀ t ∈ rows, ∀ r ∈ rows, r.scope = scope → t.links.tombstoneFor ≠ some r.receiptId

theorem Unburied.append {r : Row} (h : Unburied scope rows) (hplain : r.links.tombstoneFor = none)
    (hfresh : ∀ x ∈ rows, x.receiptId ≠ r.receiptId) : Unburied scope (rows ++ [r]) := by
  have hold : ∀ t ∈ rows ++ [r], ∀ id, t.links.tombstoneFor = some id → t ∈ rows := by
    intro t ht id hid
    refine (List.mem_append.mp ht).resolve_right fun hlast => ?_
    rw [List.mem_singleton.mp hlast,hplain] at hid
    cases hid
  refine ⟨fun t ht id hid => ?_,fun t ht x hx hscope hid => ?_⟩
  · obtain ⟨x,hx,hsame⟩ := h.anchored t (hold t ht id hid) id hid
    exact ⟨x,List.mem_append_left _ hx,hsame⟩
  · have ht' := hold t ht _ hid
    rcases List.mem_append.mp hx with hx | hlast
    · exact h.spared t ht' x hx hscope hid
    · obtain ⟨y,hy,hsame⟩ := h.anchored t ht' _ hid
      exact hfresh y hy (hsame.trans (congrArg Row.receiptId (List.mem_singleton.mp hlast)))

theorem queryReceipts_open (hsound : Sound env rows) (hscope : validScope scope = true)
    (hopen : Unburied scope rows) (receiptType : String) :
    queryReceipts env rows (some receiptType) (some scope) 100000 false none =
      .ok (((typedRows rows scope receiptType).insertionSort fun a b => b.sequence ≤ a.sequence).take 100000) := by
  have hvalid : ReceiptStore.verifyIntegrity env rows (some scope) = .ok [] := hsound.valid hscope
  have hburied : ∀ r ∈ rows, r.scope = scope → ReceiptStore.buried rows r = false := by
    intro r hr hin
    refine List.any_eq_false.mpr fun t ht => ?_
    simpa using hopen.spared t ht r hr hin
  have hfilter : rows.filter (fun r => (some receiptType).all (r.receiptType = ·) && (some scope).all (r.scope = ·)
      && Option.all (r.links.parentReceiptId = some ·) none && (false || !ReceiptStore.buried rows r)) =
      typedRows rows scope receiptType := by
    rw [typedRows,scopeRows,List.filter_filter]
    refine List.filter_congr fun r hr => ?_
    by_cases hin : r.scope = scope
    · simp [hburied r hr hin]
    · simp [hin]
  rw [queryReceipts,if_neg (by decide),ReceiptStore.assertIntegrity,hvalid,hfilter]
  rfl

theorem scopeRecords_eq (hsound : Sound env rows) (hscope : validScope scope = true)
    (hopen : Unburied scope rows) {receiptType : String}
    (hcount : (typedRows rows scope receiptType).length ≤ 100000) :
    scopeRecords env scope rows receiptType = .ok (typedRows rows scope receiptType) := by
  have hstrict : (typedRows rows scope receiptType).Pairwise fun a b => a.sequence < b.sequence :=
    (hsound.numbered.strict scope).sublist List.filter_sublist
  have hsorted : ((typedRows rows scope receiptType).insertionSort fun a b => b.sequence ≤ a.sequence).Perm
      (typedRows rows scope receiptType) := List.perm_insertionSort _ _
  have htake : ((typedRows rows scope receiptType).insertionSort fun a b => b.sequence ≤ a.sequence).take 100000 =
      (typedRows rows scope receiptType).insertionSort fun a b => b.sequence ≤ a.sequence :=
    List.take_of_length_le (hsorted.length_eq.trans_le hcount)
  rw [scopeRecords,queryReceipts_open hsound hscope hopen,htake]
  refine congrArg Except.ok ?_
  have hback : (((typedRows rows scope receiptType).insertionSort fun a b => b.sequence ≤ a.sequence).insertionSort
      fun a b => a.sequence ≤ b.sequence).Perm (typedRows rows scope receiptType) := (List.perm_insertionSort _ _).trans hsorted
  refine List.Perm.eq_of_pairwise (fun a b ha hb hab hba => ?_) (List.pairwise_insertionSort _ _)
    (hstrict.imp fun hlt => le_of_lt hlt) hback
  obtain ⟨i,hi,rfl⟩ := List.mem_iff_getElem.mp (hback.subset ha)
  obtain ⟨j,hj,rfl⟩ := List.mem_iff_getElem.mp hb
  rcases lt_trichotomy i j with hij | rfl | hij
  · exact absurd (List.pairwise_iff_getElem.mp hstrict i j hi hj hij) (not_lt.mpr hba)
  · rfl
  · exact absurd (List.pairwise_iff_getElem.mp hstrict j i hj hi hij) (not_lt.mpr hab)

end

/-! ### Replaying -/

section
variable {o : Outside}

def setStatus (i : Identifier) (status : ClaimStatus) (cs : List (Claim o)) : List (Claim o) :=
  cs.map fun c => if c.claimId = i then c.withStatus status else c

def replay (cs : List (Claim o)) (ts : List (ClaimTransition o)) : List (Claim o) :=
  ts.foldl (fun cs t => setStatus t.claimId t.toStatus cs) cs

def ids (cs : List (Claim o)) : List Identifier := cs.map Claim.claimId

variable {i : Identifier}

theorem Identifier.eq_of_text {j : Identifier} (h : i.text = j.text) : i = j := by
  cases i
  cases j
  cases h
  rfl

theorem ids_setStatus (i : Identifier) (status : ClaimStatus) (cs : List (Claim o)) : ids (setStatus i status cs) = ids cs := by
  rw [ids,setStatus,map_map,ids]
  refine List.map_congr_left fun c _ => ?_
  show (if c.claimId = i then c.withStatus status else c).claimId = c.claimId
  split <;> rfl

theorem ids_replay (cs : List (Claim o)) (ts : List (ClaimTransition o)) : ids (replay cs ts) = ids cs := by
  induction ts generalizing cs with
  | nil => rfl
  | cons t ts ih => exact (ih (setStatus t.claimId t.toStatus cs)).trans (ids_setStatus t.claimId t.toStatus cs)

theorem ids_persisted (cs : List (Claim o)) : ids (cs.map Claim.persisted) = ids cs := by
  rw [ids,map_map]
  rfl

theorem setStatus_persisted (i : Identifier) (status : ClaimStatus) (cs : List (Claim o)) :
    (setStatus i status cs).map Claim.persisted = setStatus i status (cs.map Claim.persisted) := by
  rw [setStatus,setStatus,map_map,map_map]
  refine List.map_congr_left fun c _ => ?_
  show (if c.claimId = i then c.withStatus status else c).persisted = if c.claimId = i then c.persisted.withStatus status else c.persisted
  split <;> rfl

theorem replay_append (cs : List (Claim o)) (ts : List (ClaimTransition o)) (t : ClaimTransition o) :
    replay cs (ts ++ [t]) = setStatus t.claimId t.toStatus (replay cs ts) := by
  rw [replay,List.foldl_append]
  rfl

variable {cs : List (Claim o)} {ts : List (ClaimTransition o)} {c : Claim o}

theorem replay_add (h : ∀ t ∈ ts, t.claimId ≠ c.claimId) : replay (cs ++ [c]) ts = replay cs ts ++ [c] := by
  induction ts generalizing cs with
  | nil => rfl
  | cons t ts ih =>
    have hsame : setStatus t.claimId t.toStatus (cs ++ [c]) = setStatus t.claimId t.toStatus cs ++ [c] := by
      rw [setStatus,map_append,List.map_singleton,if_neg fun he => h t mem_cons_self he.symm]
      rfl
    show replay (setStatus t.claimId t.toStatus (cs ++ [c])) ts = _
    rw [hsame,ih fun u hu => h u (List.mem_cons_of_mem t hu)]
    rfl

theorem setClaim_new (h : c.claimId ∉ ids cs) : setClaim c cs = cs ++ [c] := by
  induction cs with
  | nil => rfl
  | cons d rest ih =>
    rw [ids,map_cons,mem_cons,not_or] at h
    rw [setClaim,if_neg fun he => h.1 he.symm,ih h.2]
    rfl

theorem setStatus_absent (h : i ∉ ids cs) (status : ClaimStatus) : setStatus i status cs = cs := by
  refine (List.map_congr_left fun c hc => ?_).trans (List.map_id cs)
  exact if_neg fun he : c.claimId = i => h (he ▸ List.mem_map_of_mem hc)

theorem setClaim_status (hnodup : (ids cs).Nodup) (hc : c ∈ cs) (status : ClaimStatus) :
    setClaim (c.withStatus status) cs = setStatus c.claimId status cs := by
  induction cs with
  | nil => exact absurd hc List.not_mem_nil
  | cons d rest ih =>
    obtain ⟨hnot,hrest⟩ := List.nodup_cons.mp hnodup
    rw [setClaim,setStatus,map_cons]
    by_cases hd : d.claimId = c.claimId
    · have hsame : c = d := by
        rcases mem_cons.mp hc with h | h
        · exact h
        · exact absurd (hd ▸ List.mem_map_of_mem h) hnot
      subst hsame
      rw [if_pos (show c.claimId = (c.withStatus status).claimId from rfl),if_pos rfl]
      exact congrArg (c.withStatus status :: ·) (setStatus_absent hnot status).symm
    · have hmem : c ∈ rest := (mem_cons.mp hc).resolve_left fun h => hd (h ▸ rfl)
      rw [if_neg hd,if_neg (show ¬d.claimId = (c.withStatus status).claimId from hd),ih hrest hmem]
      rfl

variable {l : ClaimsLedger o}

theorem find_spec {s : String} (h : l.find s = some c) : c ∈ l.claims ∧ c.claimId.text = s := by
  have hsame := List.find?_some h
  exact ⟨List.mem_of_find?_eq_some h,of_decide_eq_true hsame⟩

theorem find_none (h : l.find i.text = none) : i ∉ ids l.claims := by
  intro hmem
  obtain ⟨c,hc,rfl⟩ := mem_map.mp hmem
  exact List.find?_eq_none.mp h c hc (decide_eq_true rfl)

theorem find_known (h : i ∈ ids l.claims) : ∃ c, l.find i.text = some c ∧ c.claimId = i := by
  cases hfind : l.find i.text with
  | none => exact absurd h (find_none hfind)
  | some c => exact ⟨c,rfl,Identifier.eq_of_text (find_spec hfind).2⟩

/-! ### Loading -/

def claimRecord (c : Claim o) : String × Json :=
  ("claim-" ++ c.claimId.text,canon (.obj [("kind",.str "claim"),("claim",.obj c.toDict)]))

def transitionRecord (t : ClaimTransition o) : Option String × Json :=
  (some "claim_status_transition",canon (.obj [("kind",.str "claim_transition"),("transition",.obj t.hashed.toDict)]))

def receiptOf (c : Claim o) : String × String := (c.claimId.text,"claim-" ++ c.claimId.text)

variable {r : Row}

theorem loadClaim_record (h : (r.receiptId,r.payload) = claimRecord c) (l : ClaimsLedger o) :
    loadClaim l r = .ok {l with
      claims := setClaim c.persisted l.claims
      receiptIds := Dict.put c.claimId.text ("claim-" ++ c.claimId.text) l.receiptIds} := by
  obtain ⟨hid,hpayload⟩ := Prod.mk.inj h
  have hkind : (canonFields [("kind",.str "claim"),("claim",.obj c.toDict)]).lookup "kind" = some (.str "claim") := by
    rw [Json.lookup_canonFields]
    rfl
  have hclaim : (canonFields [("kind",.str "claim"),("claim",.obj c.toDict)]).lookup "claim" = some (canon (.obj c.toDict)) := by
    rw [Json.lookup_canonFields]
    rfl
  rw [loadClaim,hpayload,canon]
  simp only [hkind,ne_eq,not_true_eq_false,if_false,hclaim,Claim.fromDict_toDict,hid]
  rfl

variable {rs : List Row}

theorem loadClaims (h : rs.map (fun r => (r.receiptId,r.payload)) = cs.map claimRecord)
    (hnodup : (ids l.claims ++ ids cs).Nodup) (hreceipts : l.receiptIds = l.claims.map receiptOf) :
    rs.foldlM loadClaim l = .ok {l with
      claims := l.claims ++ cs.map Claim.persisted, receiptIds := l.receiptIds ++ cs.map receiptOf} := by
  induction cs generalizing rs l with
  | nil =>
    rw [map_nil,List.map_eq_nil_iff] at h
    rw [h,map_nil,map_nil,append_nil,append_nil]
    rfl
  | cons c cs ih =>
    obtain ⟨r,rest,rfl,hr,hrest⟩ := List.map_eq_cons_iff.mp h
    obtain ⟨hl,hcs,hapart⟩ := List.nodup_append.mp hnodup
    have hnew : c.claimId ∉ ids l.claims := fun hmem => hapart _ hmem _ mem_cons_self rfl
    have hkey : c.claimId.text ∉ l.receiptIds.map Prod.fst := by
      intro hmem
      rw [hreceipts,map_map] at hmem
      obtain ⟨d,hd,hsame⟩ := mem_map.mp hmem
      have heq : d.claimId = c.claimId := Identifier.eq_of_text hsame
      exact hnew (heq ▸ List.mem_map_of_mem hd)
    rw [List.foldlM_cons,loadClaim_record hr,setClaim_new (c := c.persisted) hnew,Dict.put_eq_append hkey]
    show rest.foldlM loadClaim _ = _
    rw [ih hrest]
    · simp only [append_assoc,List.singleton_append,map_cons]
      rfl
    · have hshift : ids (l.claims ++ [c.persisted]) ++ ids cs = ids l.claims ++ ids (c :: cs) := by
        rw [ids,map_append,append_assoc]
        rfl
      rw [hshift]
      exact hnodup
    · rw [hreceipts,map_append]
      rfl

theorem loadTransition_record {t : ClaimTransition o} (h : (r.links.eventType,r.payload) = transitionRecord t)
    (hnodup : (ids l.claims).Nodup) (hknown : t.claimId ∈ ids l.claims) :
    loadTransition l r = .ok {l with
      claims := setStatus t.claimId t.toStatus l.claims, transitions := l.transitions ++ [t.hashed]} := by
  obtain ⟨htype,hpayload⟩ := Prod.mk.inj h
  obtain ⟨current,hfind,hid⟩ := find_known hknown
  have htransition : (canonFields [("kind",.str "claim_transition"),("transition",.obj t.hashed.toDict)]).lookup "transition" =
      some (.obj (canonFields t.hashed.toDict)) := by
    rw [Json.lookup_canonFields]
    rfl
  have hset := setClaim_status hnodup (find_spec hfind).1 t.toStatus
  rw [hid] at hset
  rw [loadTransition,htype,hpayload,canon]
  simp only [ne_eq,not_true_eq_false,if_false,htransition,ClaimTransition.read_toDict,bind,Except.bind]
  rw [show t.hashed.claimId = t.claimId from rfl,hfind]
  simp only [pure,Except.pure]
  rw [show t.hashed.toStatus = t.toStatus from rfl,hset]

theorem loadTransitions (h : rs.map (fun r => (r.links.eventType,r.payload)) = ts.map transitionRecord)
    (hnodup : (ids l.claims).Nodup) (hknown : ∀ t ∈ ts, t.claimId ∈ ids l.claims) :
    rs.foldlM loadTransition l = .ok {l with
      claims := replay l.claims ts, transitions := l.transitions ++ ts.map ClaimTransition.hashed} := by
  induction ts generalizing rs l with
  | nil =>
    rw [map_nil,List.map_eq_nil_iff] at h
    rw [h,map_nil,append_nil]
    rfl
  | cons t ts ih =>
    obtain ⟨r,rest,rfl,hr,hrest⟩ := List.map_eq_cons_iff.mp h
    rw [List.foldlM_cons,loadTransition_record hr hnodup (hknown t mem_cons_self)]
    show rest.foldlM loadTransition _ = _
    rw [ih hrest]
    · simp only [append_assoc,List.singleton_append,map_cons]
      rfl
    · rw [ids_setStatus]
      exact hnodup
    · intro u hu
      rw [ids_setStatus]
      exact hknown u (List.mem_cons_of_mem t hu)

end
end Verdict.Claims

import Verdict.Claims.Rebuild

/-! # The live ledger and its receipts

What the rows of a scope and the ledger that wrote them have in common, and that every call
keeps it, apart from an `add` that writes a claim and then fails to move its predecessor.
-/
namespace Verdict.Claims
open Proof
open ReceiptStore (Env Row PutArgs EventArgs StoreError Sound putReceipt appendEvent scopeRows validScope KeepsSmall
  redactSensitiveDict_untouched)
open List (length_map map_append mem_append mem_singleton)
open Raising (bind_ok)
open ReceiptStore (clashes_eq_false fetchOne firstTerminal insert insert_spec links_stored_optText)

section Agreement
variable {o : Outside} {env : Env} {scope : String}

/-- The rows of the scope are those of the claims `base` and of the transitions of the ledger, which is their replay. -/
structure Kept (env : Env) (scope : String) (l : ClaimsLedger o) (rows : List Row) (base : List (Claim o)) : Prop where
  sound : Sound env rows
  unburied : Unburied scope rows
  running : ∀ r ∈ rows, r.scope = scope → r.links.terminalOutcome = none
  claims : (typedRows rows scope "context").map (fun r => (r.receiptId,r.payload)) = base.map claimRecord
  transitions : (typedRows rows scope "execution").map (fun r => (r.links.eventType,r.payload)) = l.transitions.map transitionRecord
  distinct : (ids base).Nodup
  known : ∀ t ∈ l.transitions, t.claimId ∈ ids base
  replayed : l.claims.map Claim.persisted = replay (base.map Claim.persisted) l.transitions
  receipts : l.receiptIds = base.map receiptOf

def ClaimsLedger.persisted (l : ClaimsLedger o) : ClaimsLedger o where
  claims := l.claims.map Claim.persisted
  transitions := l.transitions.map ClaimTransition.hashed
  receiptIds := l.receiptIds

variable {l : ClaimsLedger o} {rows : List Row} {base : List (Claim o)}

theorem Kept.ids_claims (h : Kept env scope l rows base) : ids l.claims = ids base := by
  rw [← ids_persisted,h.replayed,ids_replay,ids_persisted]

theorem Kept.rebuild (h : Kept env scope l rows base)
    (hscope : validScope scope = true) (hclaims : l.claims.length ≤ 100000) (htransitions : l.transitions.length ≤ 100000) :
    fromReceiptStore env scope rows = .ok l.persisted := by
  have hlength : (typedRows rows scope "context").length ≤ 100000 := by
    have hbase : base.length = l.claims.length := by
      have hsame := congrArg List.length h.ids_claims
      simpa [ids] using hsame.symm
    rw [← length_map (f := fun r : Row => (r.receiptId,r.payload)),h.claims,length_map,hbase]
    exact hclaims
  have hevents : (typedRows rows scope "execution").length ≤ 100000 := by
    rw [← length_map (f := fun r : Row => (r.links.eventType,r.payload)),h.transitions,length_map]
    exact htransitions
  have hfirst : (typedRows rows scope "context").foldlM loadClaim ({} : ClaimsLedger o) =
      .ok {claims := base.map Claim.persisted, transitions := [], receiptIds := base.map receiptOf} :=
    loadClaims h.claims (by simpa [ids] using h.distinct) rfl
  have hsecond : (typedRows rows scope "execution").foldlM loadTransition
        ({claims := base.map Claim.persisted, transitions := [], receiptIds := base.map receiptOf} : ClaimsLedger o) =
      .ok {claims := replay (base.map Claim.persisted) l.transitions, transitions := l.transitions.map ClaimTransition.hashed
           receiptIds := base.map receiptOf} := by
    refine loadTransitions h.transitions ?_ fun t ht => ?_
    · rw [ids_persisted]
      exact h.distinct
    · rw [ids_persisted]
      exact h.known t ht
  rw [fromReceiptStore,scopeRecords_eq h.sound hscope h.unburied hlength,scopeRecords_eq h.sound hscope h.unburied hevents]
  simp only [bind,Except.bind,hfirst,hsecond]
  rw [ClaimsLedger.persisted,h.replayed,h.receipts]

/-! ### Writing -/

theorem typedRows_append (rows : List Row) (r : Row) (scope receiptType : String) :
    typedRows (rows ++ [r]) scope receiptType =
      typedRows rows scope receiptType ++ (if r.scope = scope ∧ r.receiptType = receiptType then [r] else []) := by
  rw [typedRows,ReceiptStore.scopeRows_append,List.filter_append,typedRows]
  congr 1
  by_cases hscope : r.scope = scope
  · by_cases htype : r.receiptType = receiptType
    · rw [if_pos hscope,if_pos ⟨hscope,htype⟩]
      exact List.filter_eq_self.mpr fun a ha => decide_eq_true (mem_singleton.mp ha ▸ htype)
    · rw [if_pos hscope,if_neg fun h => htype h.2]
      exact List.filter_eq_nil_iff.mpr fun a ha => (by rw [mem_singleton.mp ha]; simpa using htype)
  · rw [if_neg hscope,if_neg fun h => hscope h.1,List.filter_nil]

structure Appended (env : Env) (scope receiptType : String) (rows rows' : List Row) (r : Row) : Prop where
  last : rows' = rows ++ [r]
  sound : Sound env rows → Sound env rows'
  inScope : r.scope = scope
  typed : r.receiptType = receiptType
  fresh : ∀ x ∈ rows, x.receiptId ≠ r.receiptId
  plain : r.links.tombstoneFor = none
  running : r.links.terminalOutcome = none

theorem claimReceipt_ne (c : Claim o) : "claim-" ++ c.claimId.text ≠ "" := by
  intro h
  have hlength := congrArg String.length h
  rw [String.length_append] at hlength
  have hsix : "claim-".length = 6 := by decide
  simp [hsix] at hlength

variable (hlower : KeepsSmall env.lower)
include hlower

theorem claimPut_draft (c : Claim o) (w : Writing) :
    ((claimPut scope c w).draft env).payload = [("kind",.str "claim"),("claim",.obj c.toDict)] := by
  refine redactSensitiveDict_untouched [] ⟨payloadKeys_plain hlower _ (by decide),?_,payloadKeys_plain hlower _ (by decide),?_,trivial⟩
  · exact inert_literal (by decide +kernel) (by decide) (by decide)
  · exact c.untouched hlower

theorem transitionEvent_draft (parent : String) (t : ClaimTransition o) (w : Writing) :
    ((transitionEvent scope parent t w).draft env).payload =
    [("kind",.str "claim_transition"),("transition",.obj t.hashed.toDict)] := by
  refine redactSensitiveDict_untouched [] ⟨payloadKeys_plain hlower _ (by decide),?_,payloadKeys_plain hlower _ (by decide),?_,trivial⟩
  · exact inert_literal (by decide +kernel) (by decide) (by decide)
  · exact t.untouched hlower

variable {rows' : List Row} {w : Writing} {r : Row}

theorem claimPut_ok {c : Claim o} (h : putReceipt env w.refused rows (claimPut scope c w) = .ok (r,rows')) :
    Appended env scope "context" rows rows' r ∧ (r.receiptId,r.payload) = claimRecord c ∧ r.links.eventId =
    none ∧ w.refused = false ∧ ∀ x ∈ rows, x.receiptId ≠ "claim-" ++ c.claimId.text := by
  have hinsert : validScope scope = true ∧ w.refused = false ∧
      insert env rows ((claimPut scope c w).draft env) = .ok (r,rows') := by
    simp only [putReceipt] at h
    split at h
    · cases h
    · rename_i hscope
      split at h
      · cases h
      · split at h
        · cases h
        · rename_i haccepted
          have hkey : (claimPut scope c w).idempotencyKey = none := rfl
          rw [hkey] at h
          simp only [Option.bind_none] at h
          split at h
          · cases h
          · exact ⟨not_not.mp hscope,Bool.not_eq_true _ ▸ haccepted,h⟩
  obtain ⟨hscope,haccepted,hinsert⟩ := hinsert
  have hplain : ((claimPut scope c w).draft env).Plain := PutArgs.draft_plain hscope
  obtain ⟨links,timestamp,hlinks,-,hr,hfree,hrows⟩ := insert_spec hinsert
  have hstored : links = (claimPut scope c w).links :=
    Option.some.inj (hlinks.symm.trans (links_stored_optText env (claimPut scope c w).links))
  subst hstored
  have hid : r.receiptId = "claim-" ++ c.claimId.text := by
    rw [hr]
    show ((claimPut scope c w).draft env).receiptId = _
    simp only [PutArgs.draft,claimPut,Option.getD_some]
    exact if_neg (claimReceipt_ne c)
  have hpayload : r.payload = Json.canon (.obj [("kind",.str "claim"),("claim",.obj c.toDict)]) := by
    rw [hr,← claimPut_draft hlower c w]
    rfl
  have happended : Appended env scope "context" rows rows' r := by
    refine ⟨hrows,fun hsound => hsound.insert hplain hinsert,?_,?_,fun x hx => (clashes_eq_false.mp hfree x hx).1,?_,?_⟩ <;>
      rw [hr] <;> rfl
  have hquiet : r.links.eventId = none := by
    rw [hr]
    rfl
  have hrecord : (r.receiptId,r.payload) = claimRecord c := by
    rw [hid,hpayload]
    rfl
  exact ⟨happended,hrecord,hquiet,haccepted,fun x hx hsame => (clashes_eq_false.mp hfree x hx).1 (hsame.trans hid.symm)⟩

variable {t : ClaimTransition o}

theorem transitionEvent_ok {parent : String}
    (h : appendEvent env w.refused rows (transitionEvent scope parent t w) = .ok (r,rows'))
    (hfresh : ∀ r ∈ rows, r.links.eventId ≠ some t.transitionId.text)
    (hrunning : ∀ r ∈ rows, r.scope = scope → r.links.terminalOutcome = none) :
    Appended env scope "execution" rows rows' r ∧ (r.links.eventType,r.payload) = transitionRecord t := by
  have hevent : fetchOne rows (fun r => r.scope = (transitionEvent scope parent t w).scope &&
      r.links.eventId = some (transitionEvent scope parent t w).eventId) = none := by
    refine List.find?_eq_none.mpr fun r hr hmatch => ?_
    simp only [Bool.and_eq_true,decide_eq_true_eq] at hmatch
    exact hfresh r hr hmatch.2
  have hterminal : firstTerminal rows scope parent = none := by
    cases hfirst : firstTerminal rows scope parent with
    | none => rfl
    | some r =>
      obtain ⟨hr,hsame,-,hsome⟩ := ReceiptStore.firstTerminal_some hfirst
      rw [hrunning r hr hsame] at hsome
      cases hsome
  have hinsert : validScope scope = true ∧ insert env rows ((transitionEvent scope parent t w).draft env) = .ok (r,rows') := by
    simp only [appendEvent] at h
    split at h
    · cases h
    · rename_i hscope
      split at h
      · cases h
      · split at h
        · cases h
        · split at h
          · cases h
          · rw [hevent] at h
            simp only at h
            rw [show firstTerminal rows (transitionEvent scope parent t w).scope
              (transitionEvent scope parent t w).parentReceiptId = none from hterminal] at h
            exact ⟨not_not.mp hscope,h⟩
  obtain ⟨hscope,hinsert⟩ := hinsert
  have hplain : ((transitionEvent scope parent t w).draft env).Plain := EventArgs.draft_plain hscope
  obtain ⟨links,timestamp,hlinks,-,hr,hfree,hrows⟩ := insert_spec hinsert
  have hstored : links = (transitionEvent scope parent t w).links :=
    Option.some.inj (hlinks.symm.trans (links_stored_optText env (transitionEvent scope parent t w).links))
  subst hstored
  have hpayload : r.payload = Json.canon (.obj [("kind",.str "claim_transition"),("transition",.obj t.hashed.toDict)]) := by
    rw [hr,← transitionEvent_draft hlower parent t w]
    rfl
  have htype : r.links.eventType = some "claim_status_transition" := by
    rw [hr]
    rfl
  refine ⟨⟨hrows,fun hsound => hsound.insert hplain hinsert,?_,?_,fun x hx => (clashes_eq_false.mp hfree x hx).1,?_,?_⟩,
    by rw [htype,hpayload]; rfl⟩ <;> rw [hr] <;> rfl

/-! ### One call -/

theorem Kept.hold {l : ClaimsLedger o} {rows rows' : List Row} {base : List (Claim o)} (h : Kept env scope l rows base)
    {c : Claim o} {w : Writing} {r : Row} (hnew : l.find c.claimId.text = none)
    (hput : putReceipt env w.refused rows (claimPut scope c w) = .ok (r,rows')) : Kept env scope (l.hold c) rows' (base ++ [c]) := by
  obtain ⟨happended,hrecord,-⟩ := claimPut_ok hlower hput
  have hfresh : c.claimId ∉ ids l.claims := find_none hnew
  have hbase : c.claimId ∉ ids base := h.ids_claims ▸ hfresh
  have hkey : c.claimId.text ∉ l.receiptIds.map Prod.fst := by
    intro hmem
    rw [h.receipts,List.map_map] at hmem
    obtain ⟨d,hd,hsame⟩ := List.mem_map.mp hmem
    have heq : d.claimId = c.claimId := Identifier.eq_of_text hsame
    exact hbase (heq ▸ List.mem_map_of_mem hd)
  have hids : ids (base ++ [c]) = ids base ++ [c.claimId] := map_append
  have hcontext : (if r.scope = scope ∧ r.receiptType = "context" then [r] else []) = [r] := if_pos ⟨happended.inScope,happended.typed⟩
  have hexecution : (if r.scope = scope ∧ r.receiptType = "execution" then [r] else []) = [] :=
    if_neg fun hboth => absurd (happended.typed.symm.trans hboth.2) (by decide)
  refine ⟨happended.sound h.sound,?_,?_,?_,?_,?_,?_,?_,?_⟩
  · rw [happended.last]
    exact h.unburied.append happended.plain happended.fresh
  · rw [happended.last]
    exact fun x hx hscope => (mem_append.mp hx).elim (fun hold => h.running x hold hscope)
      fun hlast => mem_singleton.mp hlast ▸ happended.running
  · rw [happended.last,typedRows_append,hcontext,map_append,h.claims,map_append,List.map_singleton,hrecord]
    rfl
  · rw [happended.last,typedRows_append,hexecution,List.append_nil,h.transitions]
    rfl
  · rw [hids]
    exact List.nodup_append.mpr ⟨h.distinct,List.nodup_singleton _,fun i hi j hj => (by
      rw [mem_singleton.mp hj]
      exact ne_of_mem_of_not_mem hi hbase)⟩
  · intro t ht
    rw [hids]
    exact List.mem_append_left _ (h.known t ht)
  · have hapart : ∀ t ∈ l.transitions, t.claimId ≠ c.claimId := fun t ht => ne_of_mem_of_not_mem (h.known t ht) hbase
    show (setClaim c l.claims).map Claim.persisted = replay ((base ++ [c]).map Claim.persisted) l.transitions
    rw [setClaim_new hfresh,map_append,h.replayed,map_append]
    exact (replay_add (c := c.persisted) hapart).symm
  · show Dict.put c.claimId.text ("claim-" ++ c.claimId.text) l.receiptIds = _
    rw [Dict.put_eq_append hkey,h.receipts,map_append]
    rfl

omit hlower in
theorem identifier_text {fieldName s : String} {i : Identifier} (h : identifier fieldName s = .ok i) : i.text = s := by
  rw [identifier] at h
  split at h
  · rename_i found hfound
    cases h
    exact Identifier.text_of hfound
  · split at h <;> cases h

variable {current : Claim o}

omit hlower in
theorem get_ok {claimId : String} (h : l.get claimId = .ok current) : l.find claimId = some current := by
  rw [ClaimsLedger.get] at h
  split at h
  · cases h
  · split at h
    · rename_i claim hfind
      cases h
      exact hfind
    · cases h

omit hlower in
theorem allowedStatus_ok {toStatus : String} {status : ClaimStatus}
    (h : allowedStatus current toStatus = .ok status) :
    ClaimStatus.of toStatus = some status ∧ status ∈ current.status.transitions := by
  rw [allowedStatus] at h
  split at h
  · cases h
  · rename_i found hfound
    split at h
    · rename_i hmem
      cases h
      exact ⟨hfound,hmem⟩
    · cases h

variable {a : TransitionArgs o}

omit hlower in
theorem newTransition_ok {toStatus : ClaimStatus} (h : newTransition current toStatus a = .ok t) : t.claimId
    = current.claimId ∧ t.toStatus = toStatus ∧ t.transitionId.text = "transition-" ++ a.hex := by
  rw [newTransition] at h
  obtain ⟨occurredAt,-,h⟩ := bind_ok.mp h
  obtain ⟨transitionId,hid,h⟩ := bind_ok.mp h
  obtain ⟨reason,-,h⟩ := bind_ok.mp h
  obtain ⟨supersededBy,-,h⟩ := bind_ok.mp h
  cases h
  exact ⟨rfl,rfl,identifier_text hid⟩

omit hlower in
theorem prepareTransition_ok (h : prepareTransition l a = .ok (current,t)) : l.find a.claimId = some current
    ∧ t.claimId = current.claimId ∧ ClaimStatus.of a.toStatus = some t.toStatus ∧ t.toStatus ∈
    current.status.transitions ∧ t.transitionId.text = "transition-" ++ a.hex := by
  rw [prepareTransition] at h
  obtain ⟨found,hfound,h⟩ := bind_ok.mp h
  obtain ⟨toStatus,hstatus,h⟩ := bind_ok.mp h
  obtain ⟨made,hmade,h⟩ := bind_ok.mp h
  cases h
  obtain ⟨hof,hmem⟩ := allowedStatus_ok hstatus
  obtain ⟨hclaim,hto,hid⟩ := newTransition_ok hmade
  exact ⟨get_ok hfound,hclaim,hto ▸ hof,hto ▸ hmem,hid⟩

theorem Kept.move {l' : ClaimsLedger o} (h : Kept env scope l rows base)
    (hfresh : ∀ r ∈ rows, r.links.eventId ≠ some ("transition-" ++ a.hex))
    (hmove : transition env scope l rows a = .ok (l',rows')) : Kept env scope l' rows' base := by
  rw [transition] at hmove
  obtain ⟨⟨current,t⟩,hprepare,hmove⟩ := bind_ok.mp hmove
  obtain ⟨written,hwrite,hmove⟩ := bind_ok.mp hmove
  cases hmove
  obtain ⟨hfind,hclaim,-,-,hid⟩ := prepareTransition_ok hprepare
  rw [persistTransition] at hwrite
  split at hwrite
  · cases hwrite
  · split at hwrite
    · cases hwrite
    · rename_i parent _ _ r rows' hevent
      cases hwrite
      obtain ⟨happended,hrecord⟩ := transitionEvent_ok hlower hevent (by rw [hid]; exact hfresh) h.running
      have hcontext : (if r.scope = scope ∧ r.receiptType = "context" then [r] else []) = [] :=
        if_neg fun hboth => absurd (happended.typed.symm.trans hboth.2) (by decide)
      have hexecution : (if r.scope = scope ∧ r.receiptType = "execution" then [r] else []) = [r] :=
        if_pos ⟨happended.inScope,happended.typed⟩
      have hcurrent : current ∈ l.claims := (find_spec hfind).1
      have hset : setClaim (current.withStatus t.toStatus) l.claims = setStatus t.claimId t.toStatus l.claims := by
        rw [hclaim]
        exact setClaim_status (h.ids_claims ▸ h.distinct) hcurrent t.toStatus
      refine ⟨happended.sound h.sound,?_,?_,?_,?_,h.distinct,?_,?_,h.receipts⟩
      · rw [happended.last]
        exact h.unburied.append happended.plain happended.fresh
      · rw [happended.last]
        exact fun x hx hscope => (mem_append.mp hx).elim (fun hold => h.running x hold hscope)
          fun hlast => mem_singleton.mp hlast ▸ happended.running
      · rw [happended.last,typedRows_append,hcontext,List.append_nil,h.claims]
      · rw [happended.last,typedRows_append,hexecution,map_append,h.transitions,map_append,List.map_singleton,hrecord]
        rfl
      · intro u hu
        rcases mem_append.mp hu with hold | hlast
        · exact h.known u hold
        · rw [mem_singleton.mp hlast,hclaim,← h.ids_claims]
          exact List.mem_map_of_mem hcurrent
      · show (setClaim (current.withStatus t.toStatus) l.claims).map Claim.persisted = replay (base.map Claim.persisted) (l.transitions ++ [t])
        rw [hset,setStatus_persisted,h.replayed,replay_append]

end Agreement
end Verdict.Claims

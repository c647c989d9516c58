import Verdict.Claims.Agreement

/-! # Runs of a claims ledger

Any calls of `add` and `transition`, successful or raising. After a run in which no `add`
leaves a receipt behind that its ledger has dropped, the rebuilt ledger is the live one.
-/
namespace Verdict.Claims
open Proof
open ReceiptStore (Env Row PutArgs EventArgs StoreError Sound putReceipt appendEvent scopeRows validScope KeepsSmall)
open Identifier (eq_of_text of_text)
open List (map_append map_id map_map mem_append mem_map mem_map_of_mem mem_singleton not_mem_nil)
open ReceiptStore (fetchOne findReceipt firstTerminal insert plainEnv)
open Raising (bind_ok)

/-- A ledger and its store, the claims that `transition` calls moved to superseded, and those that were added so. -/
structure World (o : Outside) where
  ledger : ClaimsLedger o := {}
  rows : List Row := []
  moved : List String := []
  born : List String := []

inductive Op (o : Outside)
  | add (a : AddArgs o)
  | transition (a : TransitionArgs o)

section Runs
variable {o : Outside} (env : Env) (scope : String)

def Op.run (w : World o) : Op o → World o
  | .add a =>
    let (result,ledger,rows) := Claims.add env scope w.ledger w.rows a
    let enters := result.isOk && (w.ledger.find a.claim.claimId.text).isNone && decide (a.claim.status = .superseded)
    {w with ledger := ledger, rows := rows, born := if enters then w.born ++ [a.claim.claimId.text] else w.born}
  | .transition a => match Claims.transition env scope w.ledger w.rows a with
    | .error _ => w
    | .ok (ledger,rows) =>
      {w with ledger := ledger, rows := rows, moved := if a.toStatus = "superseded" then w.moved ++ [a.claimId] else w.moved}

def next (w : World o) (op : Op o) : Option (World o) := some (op.run env scope w)

structure Unused (rows : List Row) (hex : String) (w : Writing) : Prop where
  event : ∀ r ∈ rows, r.links.eventId ≠ some ("transition-" ++ hex)
  receipt : ∀ r ∈ rows, r.receiptId ≠ "evt-" ++ w.uuid
  identifier : (Identifier.of ("transition-" ++ hex)).isSome = true

instance (rows : List Row) (hex : String) (w : Writing) : Decidable (Unused rows hex w) :=
  decidable_of_iff ((∀ r ∈ rows, r.links.eventId ≠ some ("transition-" ++ hex)) ∧ (∀ r ∈ rows, r.receiptId ≠ "evt-" ++ w.uuid) ∧
    (Identifier.of ("transition-" ++ hex)).isSome = true)
    ⟨fun ⟨hevent,hreceipt,hid⟩ => ⟨hevent,hreceipt,hid⟩,fun h => ⟨h.event,h.receipt,h.identifier⟩⟩

def Fresh (w : World o) : Op o → Prop
  | .add a => Unused w.rows a.hex a.second
  | .transition a => Unused w.rows a.hex a.writing

instance (w : World o) (op : Op o) : Decidable (Fresh w op) := match op with
  | .add a => inferInstanceAs (Decidable (Unused w.rows a.hex a.second))
  | .transition a => inferInstanceAs (Decidable (Unused w.rows a.hex a.writing))

/-- The `add` of a new claim writes its receipt, and then cannot move the predecessor. -/
def Strands (w : World o) : Op o → Prop
  | .add a => w.ledger.find a.claim.claimId.text = none ∧ a.first.refused = false ∧
      (∀ r ∈ w.rows, r.receiptId ≠ "claim-" ++ a.claim.claimId.text) ∧
      ∃ p q, a.claim.supersedes = some p ∧ w.ledger.find p.text = some q ∧ q.status ≠ .superseded ∧
        (q.status = .disputed ∨ a.second.refused = true)
  | .transition _ => False

structure Vacant (rows : List Row) : Prop where
  sound : Sound env rows
  anchored : ∀ t ∈ rows, ∀ id ∈ t.links.tombstoneFor, ∃ x ∈ rows, x.receiptId = id
  empty : ∀ r ∈ rows, r.scope ≠ scope

/-! ### The predecessor moves -/

variable {env scope}
variable {rows : List Row}

theorem Vacant.kept (h : Vacant env scope rows) : Kept env scope ({} : ClaimsLedger o) rows [] := by
  have hnone : ∀ receiptType, typedRows rows scope receiptType = [] := by
    intro receiptType
    rw [typedRows,scopeRows,List.filter_filter]
    refine List.filter_eq_nil_iff.mpr fun r hr => ?_
    simp [h.empty r hr]
  refine ⟨h.sound,⟨h.anchored,fun _ _ r hr hscope => absurd hscope (h.empty r hr)⟩,fun r hr hscope => absurd hscope (h.empty r hr),?_,?_,List.nodup_nil,?_,rfl,rfl⟩
  · rw [hnone]
    rfl
  · rw [hnone]
    rfl
  · exact fun _ ht => absurd ht not_mem_nil

variable {l : ClaimsLedger o} {a : AddArgs o} {p : Identifier} {q : Claim o}

theorem prepare_supersede (hfind : l.find p.text = some q)
    (hopen : q.status ≠ .superseded ∧ q.status ≠ .disputed) (hid : (Identifier.of ("transition-" ++ a.hex)).isSome = true) :
    ∃ t, prepareTransition l (a.supersede p) = .ok (q,t) := by
  have hget : l.get p.text = .ok q := by
    rw [ClaimsLedger.get,identifier,of_text]
    simp only [hfind]
  have hstatus : allowedStatus q "superseded" = .ok .superseded := by
    rw [allowedStatus,show ClaimStatus.of "superseded" = some .superseded from rfl]
    refine if_pos ?_
    cases hq : q.status with
    | superseded => exact absurd hq hopen.1
    | disputed => exact absurd hq hopen.2
    | _ => decide
  obtain ⟨i,hi⟩ := Option.isSome_iff_exists.mp hid
  have htransition : identifier "transition_id" ("transition-" ++ a.hex) = .ok i := by rw [identifier,hi]
  obtain ⟨t,htime⟩ : ∃ t, timestamp "occurred_at" (a.supersede p).moment = .ok t := by
    rw [TransitionArgs.moment,AddArgs.supersede]
    simp only
    split
    · exact ⟨_,rfl⟩
    · rw [timestamp,o.fromisoformat_isoformat]
      exact ⟨_,rfl⟩
  have hreason : explanation "superseded_by_new_claim" = .ok ⟨"superseded_by_new_claim",by decide⟩ := dif_pos (by decide)
  have hby : optIdentifier "superseded_by" (some a.claim.claimId.text) = .ok (some a.claim.claimId) := by
    rw [optIdentifier,identifier,of_text]
    rfl
  refine ⟨⟨i,q.claimId,q.status,.superseded,t,"superseded_by_new_claim",some a.claim.claimId,by decide⟩,?_⟩
  rw [prepareTransition,show (a.supersede p).claimId = p.text from rfl,hget]
  simp only [bind,Except.bind]
  rw [show (a.supersede p).toStatus = "superseded" from rfl,hstatus]
  simp only
  rw [newTransition,htime]
  simp only [bind,Except.bind]
  rw [show (a.supersede p).hex = a.hex from rfl,htransition]
  simp only
  rw [show (a.supersede p).reason = "superseded_by_new_claim" from rfl,hreason]
  simp only
  rw [show (a.supersede p).supersededBy = some a.claim.claimId.text from rfl,hby]
  rfl

variable {s : String}

theorem append_ne_of_head {t u v : String} {c d : Char} (hs : s.toList.head? = some c) (ht : t.toList.head? = some d) (hcd : c ≠ d) :
    s ++ u ≠ t ++ v := by
  intro h
  have hhead := congrArg (fun x => x.toList.head?) h
  simp only [String.toList_append,List.head?_append,hs,ht,Option.some_or,Option.some.injEq] at hhead
  exact hcd hhead

variable {base : List (Claim o)}

theorem Kept.receipt (h : Kept env scope l rows base) (hq : q ∈ l.claims) : l.receiptIds.lookup
    q.claimId.text = some ("claim-" ++ q.claimId.text) ∧ ∃ r, findReceipt rows ("claim-" ++ q.claimId.text)
    scope = some r := by
  have hmem : q.claimId ∈ ids base := h.ids_claims ▸ mem_map_of_mem hq
  obtain ⟨c,hc,hid⟩ := mem_map.mp hmem
  constructor
  · have hnodup : ((base.map receiptOf).map Prod.fst).Nodup := by
      rw [map_map]
      refine List.Nodup.map_on (fun x hx y hy hxy => ?_) (List.Nodup.of_map _ h.distinct)
      exact List.inj_on_of_nodup_map h.distinct hx hy (eq_of_text hxy)
    rw [h.receipts]
    refine Dict.lookup_of_mem hnodup ?_
    rw [← hid]
    exact mem_map_of_mem (f := receiptOf) hc
  · cases hfind : findReceipt rows ("claim-" ++ q.claimId.text) scope with
    | some r => exact ⟨r,rfl⟩
    | none =>
      have hrecord : claimRecord c ∈ (typedRows rows scope "context").map fun r => (r.receiptId,r.payload) := by
        rw [h.claims]
        exact mem_map_of_mem hc
      obtain ⟨r,hr,hsame⟩ := mem_map.mp hrecord
      obtain ⟨hrows,hscope⟩ := List.mem_filter.mp (List.mem_filter.mp hr).1
      refine absurd ⟨?_,of_decide_eq_true hscope⟩ (ReceiptStore.findReceipt_none.mp hfind r hrows)
      rw [← hid]
      exact congrArg Prod.fst hsame

theorem appendEvent_inserts {a : EventArgs} {parent : Row} (hscope : validScope a.scope = true)
    (hnonempty : ¬(a.eventId = "" ∨ a.eventType = "")) (hparent : findReceipt rows a.parentReceiptId a.scope = some parent)
    (hevent : fetchOne rows (fun r => r.scope = a.scope && r.links.eventId = some a.eventId) = none)
    (hopen : a.terminalOutcome = none) (hterminal : firstTerminal rows a.scope a.parentReceiptId = none) :
    appendEvent env false rows a = insert env rows (a.draft env) := by
  rw [appendEvent,if_neg (not_not.mpr hscope),if_neg hnonempty,if_neg Bool.false_ne_true]
  simp only [hparent,hevent,hopen,hterminal]

theorem Kept.persist (h : Kept env scope l rows base)
    (hscope : validScope scope = true) (hq : q ∈ l.claims) {t : ClaimTransition o} (ht : t.claimId = q.claimId)
    {hex : String} (hid : t.transitionId.text = "transition-" ++ hex) {w : Writing} (hunused : Unused rows hex w)
    (hrefused : w.refused = false) : ∃ rows', persistTransition env scope l rows t w = .ok rows' := by
  obtain ⟨hlookup,parent,hparent⟩ := h.receipt hq
  have hevent : fetchOne rows (fun r => r.scope = scope && r.links.eventId = some t.transitionId.text) = none := by
    refine List.find?_eq_none.mpr fun r hr hmatch => ?_
    simp only [Bool.and_eq_true,decide_eq_true_eq] at hmatch
    exact hunused.event r hr (hid ▸ hmatch.2)
  have hterminal : firstTerminal rows scope ("claim-" ++ q.claimId.text) = none := by
    cases hfirst : firstTerminal rows scope ("claim-" ++ q.claimId.text) with
    | none => rfl
    | some r =>
      obtain ⟨hr,hsame,-,hsome⟩ := ReceiptStore.firstTerminal_some hfirst
      rw [h.running r hr hsame] at hsome
      cases hsome
  have hnonempty : ¬(t.transitionId.text = "" ∨ "claim_status_transition" = "") := by
    rintro (hempty | hempty)
    · have hbounded := t.transitionId.bounded
      rw [hempty] at hbounded
      cases hbounded
    · exact absurd hempty (by decide)
  have hinsert := (@ReceiptStore.insert_event env rows
    (transitionEvent scope ("claim-" ++ q.claimId.text) t w)).resolve_right fun hclash => by
      obtain ⟨⟨r,hr,hsame⟩,-⟩ := hclash
      exact hunused.receipt r hr hsame
  have happend : appendEvent env false rows (transitionEvent scope ("claim-" ++ q.claimId.text) t w) =
      insert env rows ((transitionEvent scope ("claim-" ++ q.claimId.text) t w).draft env) :=
    appendEvent_inserts hscope hnonempty hparent hevent rfl hterminal
  rw [persistTransition,ht,hlookup]
  simp only [hrefused,happend,hinsert]
  exact ⟨_,rfl⟩

/-! ### What an `add` does -/

def entered (cs : List (Claim o)) (c : Claim o) : List (Claim o) :=
  cs.map (fun d => if some d.claimId = c.supersedes then d.withStatus .superseded else d) ++ [c]

variable {c : Claim o}

theorem refusal_none (h : refusal l c = none) (hp : c.supersedes = some p) :
    ∃ q, l.find p.text = some q ∧ q.status ≠ .superseded := by
  rw [refusal,hp,Option.bind_some] at h
  cases hfind : l.find p.text with
  | none =>
    rw [hfind] at h
    cases h
  | some q =>
    rw [hfind] at h
    simp only [ite_eq_right_iff] at h
    exact ⟨q,rfl,fun hq => (by cases h hq)⟩

theorem find_hold (hnew : l.find c.claimId.text = none)
    (h : l.find s = some q) : (l.hold c).find s = some q := by
  show (setClaim c l.claims).find? _ = some q
  rw [setClaim_new (find_none hnew)]
  exact List.find?_append.trans (by rw [show l.claims.find? (fun c => c.claimId.text = s) = some q from h]; rfl)

variable {cs : List (Claim o)}

theorem entered_alone (h : c.supersedes = none) : entered cs c = cs ++ [c] := by
  have hsame : cs.map (fun d => if some d.claimId = c.supersedes then d.withStatus .superseded else d) = cs.map id :=
    List.map_congr_left fun d _ => if_neg (h ▸ Option.some_ne_none d.claimId)
  rw [entered,hsame,map_id]

theorem entered_after (h : c.supersedes = some p) (hne : c.claimId ≠ p) :
    entered cs c = setStatus p .superseded (cs ++ [c]) := by
  rw [entered,setStatus,map_append,List.map_singleton,if_neg hne,h]
  simp only [Option.some.injEq]

variable (env scope) in
theorem add_claims (l : ClaimsLedger o) (rows : List Row) (a : AddArgs o) (hnodup : (ids l.claims).Nodup) :
    ((Claims.add env scope l rows a).2.1 = l ∧
      ((Claims.add env scope l rows a).1.isOk = false ∨ l.find a.claim.claimId.text ≠ none)) ∨
    (l.find a.claim.claimId.text = none ∧ (Claims.add env scope l rows a).1.isOk = true ∧
      (∀ p, a.claim.supersedes = some p → p ∈ ids l.claims) ∧
      (Claims.add env scope l rows a).2.1.claims = entered l.claims a.claim) := by
  rw [Claims.add]
  split
  · rename_i existing hfind
    have hknown : l.find a.claim.claimId.text ≠ none := by
      rw [hfind]
      exact Option.some_ne_none existing
    split
    · exact .inl ⟨rfl,.inr hknown⟩
    · exact .inl ⟨rfl,.inr hknown⟩
  · rename_i hnew
    split
    · exact .inl ⟨rfl,.inl rfl⟩
    · rename_i hrefusal
      split
      · exact .inl ⟨rfl,.inl rfl⟩
      · split
        · rename_i hsupersedes
          refine .inr ⟨hnew,rfl,fun p hp => absurd (hsupersedes.symm.trans hp) (Option.some_ne_none p).symm,?_⟩
          show setClaim a.claim l.claims = _
          rw [setClaim_new (find_none hnew),entered_alone hsupersedes]
        · rename_i p hsupersedes
          split
          · exact .inl ⟨rfl,.inl rfl⟩
          · rename_i l' rows'' hmove
            obtain ⟨q,hfind,-⟩ := refusal_none hrefusal hsupersedes
            obtain ⟨hq,htext⟩ := find_spec hfind
            have hp : q.claimId = p := eq_of_text htext
            have hmem : p ∈ ids l.claims := hp ▸ mem_map_of_mem hq
            refine .inr ⟨hnew,rfl,fun p' hp' => Option.some.inj (hsupersedes.symm.trans hp') ▸ hmem,?_⟩
            rw [Claims.transition] at hmove
            obtain ⟨⟨current,t⟩,hprepare,hmove⟩ := bind_ok.mp hmove
            obtain ⟨written,-,hmove⟩ := bind_ok.mp hmove
            cases hmove
            obtain ⟨hcurrent,-,hstatus,-,-⟩ := prepareTransition_ok hprepare
            have hto : t.toStatus = .superseded :=
              (Option.some.inj ((show ClaimStatus.of "superseded" = some .superseded from rfl).symm.trans hstatus)).symm
            have hsame : current = q := Option.some.inj (hcurrent.symm.trans (find_hold hnew hfind))
            have hne : a.claim.claimId ≠ p := fun he => find_none hnew (he ▸ hmem)
            have hids : (ids (l.hold a.claim).claims).Nodup := by
              show (ids (setClaim a.claim l.claims)).Nodup
              rw [setClaim_new (find_none hnew),ids,map_append]
              exact List.nodup_append.mpr ⟨hnodup,List.nodup_singleton _,fun i hi j hj => (by
                rw [mem_singleton.mp hj]
                exact ne_of_mem_of_not_mem hi (find_none hnew))⟩
            show setClaim (current.withStatus t.toStatus) (l.hold a.claim).claims = _
            rw [hto,setClaim_status hids (find_spec hcurrent).1,hsame,hp,entered_after hsupersedes hne]
            exact congrArg (setStatus p .superseded) (setClaim_new (find_none hnew))

/-! ### Superseded claims -/

/-- Each superseded claim has another claim that supersedes it, or was moved there or added so. -/
structure Accounted (w : World o) : Prop where
  distinct : (ids w.ledger.claims).Nodup
  known : ∀ c ∈ w.ledger.claims, ∀ p, c.supersedes = some p → p ∈ ids w.ledger.claims ∧ p ≠ c.claimId
  noted : ∀ s, s ∈ w.moved ∨ s ∈ w.born → ∃ c ∈ w.ledger.claims, c.claimId.text = s
  superseded : ∀ c ∈ w.ledger.claims, c.status = .superseded ↔
    (∃ d ∈ w.ledger.claims, d.supersedes = some c.claimId) ∨ c.claimId.text ∈ w.moved ∨ c.claimId.text ∈ w.born

variable {w : World o}

theorem Accounted.unnoted (h : Accounted w) {i : Identifier} (hnew : i ∉ ids w.ledger.claims) :
    i.text ∉ w.moved ∧ i.text ∉ w.born := by
  have hnone : ∀ c ∈ w.ledger.claims, c.claimId.text ≠ i.text :=
    fun c hc hsame => hnew (eq_of_text hsame ▸ mem_map_of_mem hc)
  constructor
  · intro hmem
    obtain ⟨c,hc,hsame⟩ := h.noted _ (.inl hmem)
    exact hnone c hc hsame
  · intro hmem
    obtain ⟨c,hc,hsame⟩ := h.noted _ (.inr hmem)
    exact hnone c hc hsame

theorem ids_entered (cs : List (Claim o)) (c : Claim o) : ids (entered cs c) = ids cs ++ [c.claimId] := by
  rw [ids,entered,map_append,map_map]
  refine congrArg (· ++ [c.claimId]) (List.map_congr_left fun d _ => ?_)
  show (if some d.claimId = c.supersedes then d.withStatus .superseded else d).claimId = d.claimId
  split <;> rfl

theorem mem_entered {d : Claim o} : d ∈ entered cs c ↔
    d = c ∨ ∃ e ∈ cs, d = if some e.claimId = c.supersedes then e.withStatus .superseded else e := by
  rw [entered,mem_append,mem_singleton,or_comm,mem_map]
  exact or_congr_right (exists_congr fun e => and_congr_right fun _ => eq_comm)

theorem Accounted.enter (h : Accounted w) (hnew : c.claimId ∉ ids w.ledger.claims)
    (hp : ∀ p, c.supersedes = some p → p ∈ ids w.ledger.claims) (hl : l.claims = entered w.ledger.claims c)
    (rows : List Row) : Accounted {w with
      ledger := l, rows := rows
      born := if c.status = .superseded then w.born ++ [c.claimId.text] else w.born} := by
  have hkept : ∀ (s : Option Identifier) (e : Claim o),
      (if some e.claimId = s then e.withStatus .superseded else e).claimId = e.claimId ∧
        (if some e.claimId = s then e.withStatus .superseded else e).supersedes = e.supersedes := by
    intro s e
    split <;> exact ⟨rfl,rfl⟩
  have hborn : ∀ s, s ∈ (if c.status = .superseded then w.born ++ [c.claimId.text] else w.born) ↔
      s ∈ w.born ∨ (c.status = .superseded ∧ s = c.claimId.text) := by
    intro s
    split
    · rename_i hs
      rw [mem_append,mem_singleton,and_iff_right hs]
    · rename_i hs
      exact ⟨.inl,fun hor => hor.resolve_right fun hboth => hs hboth.1⟩
  have hsupersedes : ∀ i, (∃ d ∈ l.claims, d.supersedes = some i) ↔
      (∃ d ∈ w.ledger.claims, d.supersedes = some i) ∨ c.supersedes = some i := by
    intro i
    constructor
    · rintro ⟨d,hd,hi⟩
      rw [hl] at hd
      rcases mem_entered.mp hd with rfl | ⟨e,he,rfl⟩
      · exact .inr hi
      · exact .inl ⟨e,he,(hkept _ e).2.symm.trans hi⟩
    · rintro (⟨e,he,hi⟩ | hi)
      · exact ⟨_,hl ▸ mem_entered.mpr (.inr ⟨e,he,rfl⟩),(hkept _ e).2.trans hi⟩
      · exact ⟨c,hl ▸ mem_entered.mpr (.inl rfl),hi⟩
  have hids : ids l.claims = ids w.ledger.claims ++ [c.claimId] := by rw [hl,ids_entered]
  refine ⟨?_,fun d hd p hsome => ?_,fun s hs => ?_,fun d hd => ?_⟩
  · rw [hids]
    exact List.nodup_append.mpr ⟨h.distinct,List.nodup_singleton _,fun i hi j hj => (by
      rw [mem_singleton.mp hj]
      exact ne_of_mem_of_not_mem hi hnew)⟩
  · rw [hids]
    rw [hl] at hd
    rcases mem_entered.mp hd with rfl | ⟨e,he,rfl⟩
    · exact ⟨List.mem_append_left _ (hp p hsome),ne_of_mem_of_not_mem (hp p hsome) hnew⟩
    · obtain ⟨hmem,hne⟩ := h.known e he p ((hkept _ e).2.symm.trans hsome)
      exact ⟨List.mem_append_left _ hmem,by rw [(hkept _ e).1]; exact hne⟩
  · have hold : (s ∈ w.moved ∨ s ∈ w.born) ∨ s = c.claimId.text := by
      rcases hs with hs | hs
      · exact .inl (.inl hs)
      · exact ((hborn s).mp hs).imp .inr And.right
    rcases hold with hold | rfl
    · obtain ⟨e,he,hsame⟩ := h.noted s hold
      exact ⟨_,hl ▸ mem_entered.mpr (.inr ⟨e,he,rfl⟩),(congrArg Identifier.text (hkept _ e).1).trans hsame⟩
    · exact ⟨c,hl ▸ mem_entered.mpr (.inl rfl),rfl⟩
  · rw [hsupersedes,hborn]
    rw [hl] at hd
    rcases mem_entered.mp hd with rfl | ⟨e,he,rfl⟩
    · obtain ⟨hmoved,hnoborn⟩ := h.unnoted hnew
      have hnone : ¬∃ e ∈ w.ledger.claims, e.supersedes = some d.claimId := fun ⟨e,he,hi⟩ => hnew (h.known e he _ hi).1
      have hself : d.supersedes ≠ some d.claimId := fun hi => hnew (hp _ hi)
      constructor
      · exact fun hs => .inr (.inr (.inr ⟨hs,rfl⟩))
      · rintro ((he | hi) | hm | hb | hboth)
        · exact absurd he hnone
        · exact absurd hi hself
        · exact absurd hm hmoved
        · exact absurd hb hnoborn
        · exact hboth.1
    · have hne : e.claimId.text ≠ c.claimId.text :=
        fun hsame => hnew (eq_of_text hsame ▸ mem_map_of_mem he)
      rw [(hkept _ e).1]
      by_cases hsuper : some e.claimId = c.supersedes
      · rw [if_pos hsuper]
        exact ⟨fun _ => .inl (.inr hsuper.symm),fun _ => rfl⟩
      · rw [if_neg hsuper,h.superseded e he]
        constructor
        · rintro (hd | hm | hb)
          · exact .inl (.inl hd)
          · exact .inr (.inl hm)
          · exact .inr (.inr (.inl hb))
        · rintro ((hd | hi) | hm | hb | hboth)
          · exact .inl hd
          · exact absurd hi.symm hsuper
          · exact .inr (.inl hm)
          · exact .inr (.inr hb)
          · exact absurd hboth.2 hne

theorem Accounted.move (h : Accounted w) {current : Claim o} {status : ClaimStatus} (hc : current ∈ w.ledger.claims)
    (hallowed : status ∈ current.status.transitions)
    (hl : l.claims = setStatus current.claimId status w.ledger.claims) (rows : List Row) : Accounted {w with
      ledger := l, rows := rows
      moved := if status = .superseded then w.moved ++ [current.claimId.text] else w.moved} := by
  have hopen : current.status ≠ .superseded := fun hs => (by rw [hs] at hallowed; cases hallowed)
  have hkept : ∀ e : Claim o, (if e.claimId = current.claimId then e.withStatus status else e).claimId = e.claimId ∧
      (if e.claimId = current.claimId then e.withStatus status else e).supersedes = e.supersedes := by
    intro e
    split <;> exact ⟨rfl,rfl⟩
  have hmoved : ∀ s, s ∈ (if status = .superseded then w.moved ++ [current.claimId.text] else w.moved) ↔
      s ∈ w.moved ∨ (status = .superseded ∧ s = current.claimId.text) := by
    intro s
    split
    · rename_i hs
      rw [mem_append,mem_singleton,and_iff_right hs]
    · rename_i hs
      exact ⟨.inl,fun hor => hor.resolve_right fun hboth => hs hboth.1⟩
  have hids : ids l.claims = ids w.ledger.claims := by rw [hl,ids_setStatus]
  have hsupersedes : ∀ i, (∃ d ∈ l.claims, d.supersedes = some i) ↔ ∃ d ∈ w.ledger.claims, d.supersedes = some i := by
    intro i
    constructor
    · rintro ⟨d,hd,hi⟩
      rw [hl] at hd
      obtain ⟨e,he,rfl⟩ := mem_map.mp hd
      exact ⟨e,he,(hkept e).2.symm.trans hi⟩
    · rintro ⟨e,he,hi⟩
      exact ⟨_,hl ▸ mem_map_of_mem he,(hkept e).2.trans hi⟩
  refine ⟨by rw [hids]; exact h.distinct,fun d hd p hsome => ?_,fun s hs => ?_,fun d hd => ?_⟩
  · rw [hids]
    rw [hl] at hd
    obtain ⟨e,he,rfl⟩ := mem_map.mp hd
    obtain ⟨hmem,hne⟩ := h.known e he p ((hkept e).2.symm.trans hsome)
    exact ⟨hmem,by rw [(hkept e).1]; exact hne⟩
  · have hknown : ∃ e ∈ w.ledger.claims, e.claimId.text = s := by
      rcases hs with hs | hs
      · rcases (hmoved s).mp hs with hold | ⟨-,rfl⟩
        · exact h.noted s (.inl hold)
        · exact ⟨current,hc,rfl⟩
      · exact h.noted s (.inr hs)
    obtain ⟨e,he,hsame⟩ := hknown
    exact ⟨_,hl ▸ mem_map_of_mem he,(congrArg Identifier.text (hkept e).1).trans hsame⟩
  · rw [hsupersedes,hmoved]
    rw [hl] at hd
    obtain ⟨e,he,rfl⟩ := mem_map.mp hd
    rw [(hkept e).1]
    by_cases hsame : e.claimId = current.claimId
    · have heq : e = current := List.inj_on_of_nodup_map h.distinct he hc hsame
      subst heq
      have hnone := (not_congr (h.superseded e hc)).mp hopen
      rw [if_pos rfl]
      constructor
      · exact fun hs => .inr (.inl (.inr ⟨hs,rfl⟩))
      · rintro (hd | (hm | hboth) | hb)
        · exact absurd (.inl hd) hnone
        · exact absurd (.inr (.inl hm)) hnone
        · exact hboth.1
        · exact absurd (.inr (.inr hb)) hnone
    · rw [if_neg hsame,h.superseded e he]
      constructor
      · rintro (hd | hm | hb)
        · exact .inl hd
        · exact .inr (.inl (.inl hm))
        · exact .inr (.inr hb)
      · rintro (hd | (hm | hboth) | hb)
        · exact .inl hd
        · exact .inr (.inl hm)
        · exact absurd (eq_of_text hboth.2) hsame
        · exact .inr (.inr hb)

/-! ### One call -/

theorem Op.run_accounted (h : Accounted w) (op : Op o) : Accounted (op.run env scope w) := by
  cases op with
  | add a =>
    have hborn : ∀ l rows, (Claims.add env scope w.ledger w.rows a).2 = (l,rows) → Accounted {w with
        ledger := l, rows := rows
        born := if (Claims.add env scope w.ledger w.rows a).1.isOk && (w.ledger.find a.claim.claimId.text).isNone &&
          decide (a.claim.status = .superseded) then w.born ++ [a.claim.claimId.text] else w.born} := by
      intro l rows hresult
      rcases add_claims env scope w.ledger w.rows a h.distinct with ⟨hsame,hno⟩ | ⟨hnew,hok,hp,hclaims⟩
      · have henters : ((Claims.add env scope w.ledger w.rows a).1.isOk && (w.ledger.find a.claim.claimId.text).isNone &&
            decide (a.claim.status = .superseded)) = false := by
          rcases hno with hno | hno
          · rw [hno]
            rfl
          · rw [Option.isNone_eq_false_iff.mpr (Option.isSome_iff_ne_none.mpr hno),Bool.and_false]
            rfl
        rw [hresult] at hsame
        rw [henters,show l = w.ledger from hsame]
        exact ⟨h.distinct,h.known,h.noted,h.superseded⟩
      · rw [hresult] at hclaims
        have hentered := h.enter (find_none hnew) hp hclaims rows
        rw [hok,hnew]
        simp only [Option.isNone_none,Bool.true_and,decide_eq_true_eq]
        exact hentered
    exact hborn _ _ rfl
  | transition a =>
    rw [Op.run]
    split
    · exact h
    · rename_i l rows hmove
      rw [Claims.transition] at hmove
      obtain ⟨⟨current,t⟩,hprepare,hmove⟩ := bind_ok.mp hmove
      obtain ⟨written,-,hmove⟩ := bind_ok.mp hmove
      cases hmove
      obtain ⟨hfind,hclaim,hof,hallowed,-⟩ := prepareTransition_ok hprepare
      obtain ⟨hcurrent,htext⟩ := find_spec hfind
      have hto : a.toStatus = "superseded" ↔ t.toStatus = .superseded := by
        have hfound : ClaimStatus.all.find? (fun status => decide (status.text = a.toStatus)) = some t.toStatus := hof
        have hsame := List.find?_some hfound
        have hname : t.toStatus.text = a.toStatus := of_decide_eq_true hsame
        rw [← hname]
        cases t.toStatus <;> decide
      have hmoved := h.move hcurrent hallowed (setClaim_status h.distinct hcurrent t.toStatus) rows
        (l := {w.ledger with
          claims := setClaim (current.withStatus t.toStatus) w.ledger.claims, transitions := w.ledger.transitions ++ [t]})
      simp only [hto,← htext]
      exact hmoved

theorem Op.run_kept (hlower : KeepsSmall env.lower) (hscope : validScope scope = true)
    (h : Kept env scope w.ledger w.rows base) (op : Op o) (hfresh : Fresh w op) (hcareful : ¬Strands w op) :
    ∃ base', Kept env scope (op.run env scope w).ledger (op.run env scope w).rows base' := by
  cases op with
  | transition a =>
    rw [Op.run]
    split
    · exact ⟨base,h⟩
    · rename_i l rows hmove
      exact ⟨base,h.move hlower hfresh.event hmove⟩
  | add a =>
    show ∃ base', Kept env scope (Claims.add env scope w.ledger w.rows a).2.1 (Claims.add env scope w.ledger w.rows a).2.2 base'
    rw [Claims.add]
    split
    · split <;> exact ⟨base,h⟩
    · rename_i hnew
      split
      · exact ⟨base,h⟩
      · rename_i hrefusal
        split
        · exact ⟨base,h⟩
        · rename_i r rows' hput
          have hheld := h.hold hlower hnew hput
          split
          · exact ⟨_,hheld⟩
          · rename_i p hsupersedes
            obtain ⟨happended,hrecord,hquiet,haccepted,hfree⟩ := claimPut_ok hlower hput
            obtain ⟨q,hfind,hopen⟩ := refusal_none hrefusal hsupersedes
            have hmovable : q.status ≠ .disputed ∧ a.second.refused = false := by
              constructor
              · exact fun hd => hcareful ⟨hnew,haccepted,hfree,p,q,hsupersedes,hfind,hopen,.inl hd⟩
              · exact Bool.not_eq_true _ ▸ fun hr => hcareful ⟨hnew,haccepted,hfree,p,q,hsupersedes,hfind,hopen,.inr hr⟩
            have hunused : Unused rows' a.hex a.second := by
              rw [happended.last]
              refine ⟨fun x hx => ?_,fun x hx => ?_,hfresh.identifier⟩
              · rcases mem_append.mp hx with hold | hlast
                · exact hfresh.event x hold
                · rw [mem_singleton.mp hlast,hquiet]
                  exact (Option.some_ne_none _).symm
              · rcases mem_append.mp hx with hold | hlast
                · exact hfresh.receipt x hold
                · rw [mem_singleton.mp hlast,show r.receiptId = "claim-" ++ a.claim.claimId.text from congrArg Prod.fst hrecord]
                  exact append_ne_of_head (c := 'c') (d := 'e') rfl rfl (by decide)
            have hq := find_hold hnew hfind
            obtain ⟨t,hprepare⟩ := prepare_supersede (a := a) hq ⟨hopen,hmovable.1⟩ hunused.identifier
            obtain ⟨-,hclaim,-,-,hid⟩ := prepareTransition_ok hprepare
            obtain ⟨rows'',hpersist⟩ := hheld.persist hscope (find_spec hq).1 hclaim hid hunused hmovable.2
            have hmove : Claims.transition env scope (w.ledger.hold a.claim) rows' (a.supersede p) =
                .ok ({w.ledger.hold a.claim with
                  claims := setClaim (q.withStatus t.toStatus) (w.ledger.hold a.claim).claims
                  transitions := (w.ledger.hold a.claim).transitions ++ [t]},rows'') := by
              rw [Claims.transition,hprepare]
              simp only [bind,Except.bind]
              rw [show (a.supersede p).writing = a.second from rfl,hpersist]
              rfl
            rw [hmove]
            exact ⟨_,hheld.move hlower hunused.event hmove⟩

/-! ### Runs -/

variable (env scope) in
theorem Op.run_superseded (h : Accounted w) (op : Op o) (hc : c ∈ w.ledger.claims)
    (hs : c.status = .superseded) : ∃ d ∈ (op.run env scope w).ledger.claims, d.claimId = c.claimId ∧ d.status = .superseded := by
  cases op with
  | add a =>
    show ∃ d ∈ (Claims.add env scope w.ledger w.rows a).2.1.claims, d.claimId = c.claimId ∧ d.status = .superseded
    rcases add_claims env scope w.ledger w.rows a h.distinct with ⟨hsame,-⟩ | ⟨-,-,-,hclaims⟩
    · rw [hsame]
      exact ⟨c,hc,rfl,hs⟩
    · rw [hclaims]
      refine ⟨_,mem_entered.mpr (.inr ⟨c,hc,rfl⟩),?_⟩
      split
      · exact ⟨rfl,rfl⟩
      · exact ⟨rfl,hs⟩
  | transition a =>
    rw [Op.run]
    split
    · exact ⟨c,hc,rfl,hs⟩
    · rename_i l rows hmove
      rw [Claims.transition] at hmove
      obtain ⟨⟨current,t⟩,hprepare,hmove⟩ := bind_ok.mp hmove
      obtain ⟨written,-,hmove⟩ := bind_ok.mp hmove
      cases hmove
      obtain ⟨hfind,-,-,hallowed,-⟩ := prepareTransition_ok hprepare
      have hcurrent := (find_spec hfind).1
      have hne : c.claimId ≠ current.claimId := by
        intro hsame
        rw [← List.inj_on_of_nodup_map h.distinct hc hcurrent hsame,hs] at hallowed
        cases hallowed
      show ∃ d ∈ setClaim (current.withStatus t.toStatus) w.ledger.claims, d.claimId = c.claimId ∧ d.status = .superseded
      rw [setClaim_status h.distinct hcurrent]
      exact ⟨c,mem_map.mpr ⟨c,hc,if_neg hne⟩,rfl,hs⟩

theorem vacant_accounted (rows : List Row) : Accounted ({rows := rows} : World o) :=
  ⟨List.nodup_nil,fun _ h => absurd h not_mem_nil,fun _ h => h.elim (fun h => absurd h not_mem_nil) fun h => absurd h not_mem_nil,
    fun _ h => absurd h not_mem_nil⟩

variable {e : ClaimsError}

theorem add_error (hnodup : (ids l.claims).Nodup)
    (h : (Claims.add env scope l rows a).1 = .error e) : (Claims.add env scope l rows a).2.1 = l := by
  rcases add_claims env scope l rows a hnodup with ⟨hsame,-⟩ | ⟨-,hok,-⟩
  · exact hsame
  · rw [h] at hok
    cases hok

/-- An `add` that cannot move the predecessor raises behind its first write. -/
theorem add_stranded {rows' : List Row} {r : Row}
    (hnew : l.find a.claim.claimId.text = none) (hopen : refusal l a.claim = none)
    (hput : putReceipt env a.first.refused rows (claimPut scope a.claim a.first) = .ok (r,rows'))
    (hp : a.claim.supersedes = some p) (hmove : prepareTransition (l.hold a.claim) (a.supersede p) = .error e) :
    Claims.add env scope l rows a = (.error e,l,rows') := by
  have herror : Claims.transition env scope (l.hold a.claim) rows' (a.supersede p) = .error e := by
    rw [Claims.transition,hmove]
    rfl
  simp only [Claims.add,hnew,hopen,hput,hp,herror]

theorem kept_of_run (hlower : KeepsSmall env.lower) (hscope : validScope scope = true)
    (hvacant : Vacant env scope rows) {ops : List (Op o)}
    (hrun : Run.exec (next env scope) {rows := rows} ops = some w)
    (hsteps : Run.AllSteps (next env scope) (fun w op => Fresh w op ∧ ¬Strands w op) {rows := rows} ops) :
    ∃ base, Kept env scope w.ledger w.rows base := by
  refine Run.exec_invariant_of (I := fun w : World o => ∃ base, Kept env scope w.ledger w.rows base) ?_ hsteps hrun ⟨[],hvacant.kept⟩
  rintro w op w' ⟨base,hbase⟩ ⟨hfresh,hcareful⟩ hnext
  cases hnext
  exact Op.run_kept hlower hscope hbase _ hfresh hcareful

/-- After any calls with fresh uuids on a vacant scope, none of which strands a receipt, and with at most 100000
claims and transitions: rebuilding gives the live ledger, also after one more `add` that raises; exactly the claims
that another one supersedes, or that were moved there or added so, are superseded; and none ever leaves. -/
theorem rebuilt_ledger_is_live (hlower : KeepsSmall env.lower) (hscope : validScope scope = true)
    (hvacant : Vacant env scope rows) {ops : List (Op o)}
    (hrun : Run.exec (next env scope) {rows := rows} ops = some w)
    (hsteps : Run.AllSteps (next env scope) (fun w op => Fresh w op ∧ ¬Strands w op) {rows := rows} ops)
    (hclaims : w.ledger.claims.length ≤ 100000) (htransitions : w.ledger.transitions.length ≤ 100000) :
    fromReceiptStore env scope w.rows = .ok w.ledger.persisted ∧
      (∀ a e, (add env scope w.ledger w.rows a).1 = .error e → Fresh w (.add a) → ¬Strands w (.add a) →
        fromReceiptStore env scope (add env scope w.ledger w.rows a).2.2 = .ok w.ledger.persisted) ∧
      (∀ c ∈ w.ledger.claims, c.status = .superseded ↔
        (∃ d ∈ w.ledger.claims, d.claimId ≠ c.claimId ∧ d.supersedes = some c.claimId) ∨
          c.claimId.text ∈ w.moved ∨ c.claimId.text ∈ w.born) ∧
      ∀ ops' w', Run.exec (next env scope) w ops' = some w' → ∀ c ∈ w.ledger.claims, c.status = .superseded →
        ∃ d ∈ w'.ledger.claims, d.claimId = c.claimId ∧ d.status = .superseded := by
  have hkept := kept_of_run hlower hscope hvacant hrun hsteps
  have haccounted : Accounted w := by
    refine Run.exec_invariant (I := Accounted) (fun w op w' h hnext => ?_) hrun (vacant_accounted rows)
    cases hnext
    exact Op.run_accounted h op
  obtain ⟨base,hbase⟩ := hkept
  refine ⟨hbase.rebuild hscope hclaims htransitions,fun a e hraise hfresh hcareful => ?_,fun c hc => ?_,fun ops' w' hlater c hc hs => ?_⟩
  · obtain ⟨base',hbase'⟩ := Op.run_kept hlower hscope hbase (.add a) hfresh hcareful
    have hsame : (Op.run env scope w (.add a)).ledger = w.ledger := add_error haccounted.distinct hraise
    rw [hsame] at hbase'
    exact hbase'.rebuild hscope hclaims htransitions
  · rw [haccounted.superseded c hc]
    refine or_congr_left (exists_congr fun d => and_congr_right fun hd => ?_)
    exact ⟨fun h => ⟨fun he => (haccounted.known d hd _ h).2 he.symm,h⟩,And.right⟩
  · have hstays : Accounted w' ∧ ∃ d ∈ w'.ledger.claims, d.claimId = c.claimId ∧ d.status = .superseded := by
      refine Run.exec_invariant (I := fun w : World o => Accounted w ∧ ∃ d ∈ w.ledger.claims, d.claimId = c.claimId ∧ d.status = .superseded)
        (fun v op v' h hnext => ?_) hlater ⟨haccounted,c,hc,rfl,hs⟩
      cases hnext
      obtain ⟨hv,d,hd,hid,hsuper⟩ := h
      obtain ⟨d',hd',hid',hsuper'⟩ := Op.run_superseded env scope hv op hd hsuper
      exact ⟨Op.run_accounted hv op,d',hd',hid'.trans hid,hsuper'⟩
    exact hstays.2

end Runs

/-! ### Two days -/

def twoDays : Outside where
  Instant := Bool
  before a b := !a && b
  isoformat later := if later then "2026-01-02T00:00:00Z" else "2026-01-01T00:00:00Z"
  fromisoformat s :=
    if s = "2026-01-02T00:00:00Z" then some true else if s = "2026-01-01T00:00:00Z" then some false else none
  fromisoformat_isoformat := by decide
  isoformat_chars later c hc := by
    have hall : ([true,false].all fun later : Bool => (if later then "2026-01-02T00:00:00Z" else "2026-01-01T00:00:00Z").toList.all
      fun c => "0123456789-:.TZ".toList.contains c) = true := by decide +kernel
    have hin := List.all_eq_true.mp (List.all_eq_true.mp hall later (by cases later <;> simp)) c hc
    simpa using hin
  claimHash _ := ⟨"sha256:0000000000000000000000000000000000000000000000000000000000000000",by decide +kernel⟩

theorem plainId_bounded (s : String) (h : matchesId s = true ∧ sensitive s = false) : matchesId s = true := h.1

theorem plainId_plain (s : String) (h : matchesId s = true ∧ sensitive s = false) : sensitive s = false := h.2

def plainId (s : String) (h : matchesId s = true ∧ sensitive s = false) : Identifier := ⟨s,plainId_bounded s h,plainId_plain s h⟩

def buildClaim (claimId : Identifier) (status : ClaimStatus) (supersedes : Option Identifier) : Claim twoDays where
  claimId := claimId
  subject := plainId "build" (by decide +kernel)
  textHash := twoDays.claimHash ""
  status := status
  observedAt := false
  verifiedAt := none
  confidence := .float 1
  sourceRefs := [⟨plainId "ci" (by decide +kernel),twoDays.claimHash ""⟩]
  evidenceRefs := []
  supersedes := supersedes
  sourceType := plainId "ci" (by decide +kernel)
  text := none
  ordered _ h := by cases h
  confident := by decide
  referenced := by decide
  hashed _ h := by cases h

def firstId : Identifier := plainId "c1" (by decide +kernel)
def secondId : Identifier := plainId "c2" (by decide +kernel)

def disputing : List (Op twoDays) :=
  [.add {claim := buildClaim firstId .active none, clock := false, hex := "0", second := {uuid := "0"}},
   .transition {claimId := "c1", toStatus := "disputed", reason := "flaky", clock := true, hex := "1", writing := {uuid := "1"}}]

def replacing : Op twoDays :=
  .add {claim := buildClaim secondId .active (some firstId), clock := true, hex := "2", second := {uuid := "2"}}

def secondClaim : Claim twoDays := buildClaim secondId .active (some firstId)

def replacement : AddArgs twoDays := {claim := secondClaim, clock := true, hex := "2", second := {uuid := "2"}}

theorem replacing_eq : replacing = .add replacement := rfl

theorem plainEnv_keepsSmall : KeepsSmall plainEnv.lower := by
  intro s hs
  have hsmall : ∀ c : Char, c.isLower ∨ c.isDigit ∨ c = '_' → c.toLower = c := by
    intro c hc
    have hupper : ¬(65 ≤ c.toNat ∧ c.toNat ≤ 90) := by
      rcases hc with hc | hc | rfl
      · have hc : (decide (97 ≤ c.val) && decide (c.val ≤ 122)) = true := hc
        simp only [Bool.and_eq_true,decide_eq_true_eq,UInt32.le_iff_toNat_le] at hc
        have hlow : 97 ≤ c.toNat := hc.1
        omega
      · have hc : (decide (48 ≤ c.val) && decide (c.val ≤ 57)) = true := hc
        simp only [Bool.and_eq_true,decide_eq_true_eq,UInt32.le_iff_toNat_le] at hc
        have hhigh : c.toNat ≤ 57 := hc.2
        omega
      · decide
    exact dif_neg fun hcase => hupper (by simpa [UInt32.le_iff_toNat_le] using hcase)
  have hmap : s.toList.map Char.toLower = s.toList :=
    (List.map_congr_left fun c hc => hsmall c (hs c hc)).trans (map_id s.toList)
  show String.ofList (s.toList.map Char.toLower) = s
  rw [hmap,String.ofList_toList]

theorem exec_next {o : Outside} (env : Env) (scope : String) (w : World o) (ops : List (Op o)) :
    Run.exec (next env scope) w ops = some (ops.foldl (fun w op => op.run env scope w) w) := by
  induction ops generalizing w with
  | nil => rfl
  | cons op ops ih => exact ih (op.run env scope w)

theorem allSteps_next {o : Outside} {env : Env} {scope : String} {ok : World o → Op o → Prop} {w : World o} {op : Op o} {ops : List (Op o)}
    (h : ok w op) (hrest : Run.AllSteps (next env scope) ok (op.run env scope w) ops) :
    Run.AllSteps (next env scope) ok w (op :: ops) :=
  ⟨h,fun _ hnext => Option.some.inj hnext ▸ hrest⟩

theorem empty_vacant (env : Env) (scope : String) : Vacant env scope [] :=
  ⟨.nil,fun _ h => absurd h not_mem_nil,fun _ h => absurd h not_mem_nil⟩

def plainRun (ops : List (Op twoDays)) : World twoDays := ops.foldl (fun w op => op.run plainEnv "claims" w) {}

theorem disputing_fresh : Fresh (plainRun []) (disputing.get ⟨0,by decide⟩) ∧
    Fresh (plainRun [disputing.get ⟨0,by decide⟩]) (disputing.get ⟨1,by decide⟩) ∧ Fresh (plainRun disputing) replacing := by
  decide +kernel

theorem replacing_steps : Run.AllSteps (next plainEnv "claims") Fresh {} (disputing ++ [replacing]) := by
  obtain ⟨hadd,hmove,hreplace⟩ := disputing_fresh
  exact allSteps_next hadd (allSteps_next hmove (allSteps_next hreplace trivial))

theorem disputing_steps : Run.AllSteps (next plainEnv "claims") (fun w op => Fresh w op ∧ ¬Strands w op) {} disputing := by
  obtain ⟨hadd,hmove,-⟩ := disputing_fresh
  refine allSteps_next ⟨hadd,?_⟩ (allSteps_next ⟨hmove,id⟩ trivial)
  rintro ⟨-,-,-,p,-,hp,-⟩
  cases hp

theorem disputing_small : (plainRun disputing).ledger.claims.length ≤ 100000 ∧ (plainRun disputing).ledger.transitions.length ≤ 100000 ∧
    ((plainRun disputing).ledger.hold secondClaim).claims.length ≤ 100000 ∧
    ((plainRun disputing).ledger.hold secondClaim).transitions.length ≤ 100000 ∧
    ((plainRun disputing).ledger.hold secondClaim).persisted.claims.length ≠ (plainRun disputing).ledger.persisted.claims.length := by
  decide +kernel

theorem disputing_open : ((plainRun disputing).ledger.find secondClaim.claimId.text).isNone = true ∧
    (refusal (plainRun disputing).ledger secondClaim).isNone = true ∧
    (prepareTransition ((plainRun disputing).ledger.hold secondClaim) (replacement.supersede firstId)).isOk = false := by
  decide +kernel

theorem disputed_ledger_rebuilt :
    fromReceiptStore plainEnv "claims" (plainRun disputing).rows = .ok (plainRun disputing).ledger.persisted :=
  (rebuilt_ledger_is_live plainEnv_keepsSmall (by decide) (empty_vacant _ "claims") (exec_next _ "claims" {} disputing)
    disputing_steps disputing_small.1 disputing_small.2.1).1

theorem plainRun_replacing {r : Row} {rows' : List Row}
    (hput : putReceipt plainEnv false (plainRun disputing).rows (claimPut "claims" secondClaim {}) = .ok (r,rows'))
    : (plainRun (disputing ++ [replacing])).ledger = (plainRun disputing).ledger ∧
    (plainRun (disputing ++ [replacing])).rows = rows' := by
  obtain ⟨hnew,hopen,hmove⟩ := disputing_open
  cases hprepare : prepareTransition ((plainRun disputing).ledger.hold secondClaim) (replacement.supersede firstId) with
  | ok found =>
    rw [hprepare] at hmove
    cases hmove
  | error e =>
    have hadd := add_stranded (a := replacement) (Option.isNone_iff_eq_none.mp hnew) (Option.isNone_iff_eq_none.mp hopen) hput rfl hprepare
    have hlast : plainRun (disputing ++ [replacing]) = replacing.run plainEnv "claims" (plainRun disputing) := rfl
    rw [hlast,replacing_eq,Op.run,hadd]
    exact ⟨rfl,rfl⟩

/-- Adding a claim that supersedes a disputed one raises, and the rebuilt ledger has it. -/
theorem refused_successor_rebuilt : ¬∀ (o : Outside) (env : Env) (scope : String) (rows : List Row)
    (ops : List (Op o)) (w : World o), KeepsSmall env.lower → validScope scope = true → Vacant env scope
    rows → Run.exec (next env scope) {rows := rows} ops = some w → Run.AllSteps (next env scope) Fresh
    {rows := rows} ops → w.ledger.claims.length ≤ 100000 → w.ledger.transitions.length ≤ 100000 →
    fromReceiptStore env scope w.rows = .ok w.ledger.persisted := by
  intro hall
  have hput : (putReceipt plainEnv false (plainRun disputing).rows
      (claimPut "claims" secondClaim {})).isOk = true := by decide +kernel
  cases hresult : putReceipt plainEnv false (plainRun disputing).rows
      (claimPut "claims" secondClaim {}) with
  | error e =>
    rw [hresult] at hput
    cases hput
  | ok written =>
    obtain ⟨r,rows'⟩ := written
    obtain ⟨hledger,hrows⟩ := plainRun_replacing hresult
    obtain ⟨base,hbase⟩ := kept_of_run plainEnv_keepsSmall (by decide) (empty_vacant _ "claims")
      (exec_next _ "claims" {} disputing) disputing_steps
    obtain ⟨hclaims,htransitions,hheldClaims,hheldTransitions,hgrows⟩ := disputing_small
    -- the receipt of the refused claim stands behind those of a ledger that holds it
    have hheld := hbase.hold (c := secondClaim) plainEnv_keepsSmall (Option.isNone_iff_eq_none.mp disputing_open.1) hresult
    have hrebuilt := hheld.rebuild (by decide) hheldClaims hheldTransitions
    have hsame := hall twoDays plainEnv "claims" [] (disputing ++ [replacing]) (plainRun (disputing ++ [replacing]))
      plainEnv_keepsSmall (by decide) (empty_vacant _ "claims") (exec_next _ "claims" {} _) replacing_steps
      (by rw [hledger]; exact hclaims) (by rw [hledger]; exact htransitions)
    rw [hrows,hledger,hrebuilt] at hsame
    exact hgrows (congrArg (fun l : ClaimsLedger twoDays => l.claims.length) (Except.ok.inj hsame))

end Verdict.Claims

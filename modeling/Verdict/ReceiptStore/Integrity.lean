import Verdict.Basics.Run
import Verdict.ReceiptStore.Store

/-! # The ledger under its writers

Whatever a call writes, it writes by `_insert`, one row at the end of the table after the
other. What one insertion keeps is therefore kept by every run: rows are only added, each
scope is numbered from one, and the hash chain verifies as long as the inserted values read
back as they were hashed.
-/
namespace Verdict.ReceiptStore
open HashChain (Linked lastHash)

/-- A call on the store. -/
inductive Call
  | putReceipt (refused : Bool) (a : PutArgs)
  | appendEvent (refused : Bool) (a : EventArgs)
  | tombstone (refused : Bool) (receiptId scope reason uuid : String) (now : ℚ)
  | applyRetention (a : RetentionArgs)
  | importManifest (refused : Bool) (manifest : Json)

def committed {α : Type} (rows : List Row) : Except StoreError (α × List Row) → Except StoreError Unit × List Row
  | .ok (_,rows') => (.ok (),rows')
  | .error e => (.error e,rows)

def Call.run (env : Env) (rows : List Row) : Call → Except StoreError Unit × List Row
  | .putReceipt refused a => committed rows (ReceiptStore.putReceipt env refused rows a)
  | .appendEvent refused a => committed rows (ReceiptStore.appendEvent env refused rows a)
  | .tombstone refused receiptId scope reason uuid now =>
    committed rows (ReceiptStore.tombstone env refused rows receiptId scope reason uuid now)
  | .applyRetention a =>
    let result := ReceiptStore.applyRetention env rows a
    (result.1.map fun _ => (),result.2)
  | .importManifest refused manifest => committed rows (ReceiptStore.importManifest env refused rows manifest)

def runCalls (env : Env) (calls : List Call) : List Row := calls.foldl (fun rows c => (c.run env rows).2) []

section
variable {env : Env}
variable {d : Draft} {r : Row}

theorem insert_spec {rows rows' : List Row} (h : insert env rows d = .ok (r,rows')) : ∃ links timestamp,
    d.links.stored env = some links ∧ d.timestamp.stored = some timestamp ∧ r = d.row env rows timestamp
    links ∧ clashes rows r = false ∧ rows' = rows ++ [r] := by
  simp only [insert] at h
  split at h
  · cases h
  · split at h
    · cases h
    · cases h
    · rename_i links timestamp hlinks htimestamp
      split at h
      · cases h
      · rename_i hfree
        cases h
        exact ⟨links,timestamp,hlinks,htimestamp,rfl,by simpa using hfree,rfl⟩

theorem insert_of {rows : List Row} {d : Draft} {links : Links (Option String)} {timestamp : Stamp}
    (htype : d.receiptType ∈ receiptTypes) (hlinks : d.links.stored env = some links)
    (htimestamp : d.timestamp.stored = some timestamp) (hfree : clashes rows (d.row env rows timestamp links) = false) :
    insert env rows d = .ok (d.row env rows timestamp links,rows ++ [d.row env rows timestamp links]) := by
  simp only [insert,htype,hlinks,htimestamp,hfree,not_true_eq_false,if_false,Bool.false_eq_true]

/-- Some drafts that satisfy `P` were inserted, one after the other. -/
inductive Grows (env : Env) (P : Draft → Prop) (rows : List Row) : List Row → Prop
  | refl : Grows env P rows rows
  | write {mid rows' : List Row} {d : Draft} {r : Row} (before : Grows env P rows mid) (draft : P d)
    (inserted : ReceiptStore.insert env mid d = .ok (r,rows')) : Grows env P rows rows'

theorem Grows.single {P : Draft → Prop} {rows rows' : List Row} (hd : P d)
    (h : insert env rows d = .ok (r,rows')) : Grows env P rows rows' := .write .refl hd h

variable {a b : List Row}

theorem Grows.trans {P : Draft → Prop} {c : List Row} (h : Grows env P a b) (h' : Grows env P b c) :
    Grows env P a c := by
  induction h' with
  | refl => exact h
  | write _ hd hinsert ih => exact .write ih hd hinsert

theorem Grows.mono {P Q : Draft → Prop} (hPQ : ∀ d, P d → Q d) (h : Grows env P a b) : Grows env Q a b := by
  induction h with
  | refl => exact .refl
  | write _ hd hinsert ih => exact .write ih (hPQ _ hd) hinsert

theorem Grows.keeps {P : Draft → Prop} (h : Grows env P a b) : a <+: b := by
  induction h with
  | refl => exact List.prefix_rfl
  | write _ _ hinsert ih =>
    obtain ⟨_,_,_,_,_,_,rfl⟩ := insert_spec hinsert
    exact ih.trans (List.prefix_append _ _)

end

/-- The scope of a draft is a valid one, and its values are stored as they are passed, if
they can be stored. -/
structure Draft.Plain (d : Draft) : Prop where
  scope : validScope d.scope = true
  timestamp : d.timestamp ≠ .negZero
  links : ∃ l : Links (Option String), d.links = l.map optText

section Writers
variable {env : Env} {refused : Bool} {rows rows' : List Row}
variable {a : PutArgs} {r : Row}

theorem putReceipt_grows (h : putReceipt env refused rows a = .ok (r,rows')) :
    rows' = rows ∨ (validScope a.scope = true ∧ insert env rows (a.draft env) = .ok (r,rows')) := by
  simp only [putReceipt] at h
  split at h
  · cases h
  · rename_i hscope
    split at h
    · cases h
    · split at h
      · cases h
      · split at h
        · split at h
          · cases h
            exact .inl rfl
          · cases h
        · split at h
          · cases h
          · exact .inr ⟨not_not.mp hscope,h⟩

theorem appendEvent_grows {a : EventArgs} (h : appendEvent env refused rows a = .ok (r,rows')) :
    rows' = rows ∨ (validScope a.scope = true ∧ insert env rows (a.draft env) = .ok (r,rows')) := by
  simp only [appendEvent] at h
  split at h
  · cases h
  · rename_i hscope
    split at h
    · cases h
    · split at h
      · cases h
      · split at h
        · cases h
        · split at h
          · split at h
            · cases h
              exact .inl rfl
            · cases h
          · split at h
            · split at h
              · cases h
                exact .inl rfl
              · cases h
            · cases h
            · exact .inr ⟨not_not.mp hscope,h⟩

variable {receiptId scope : String}

theorem tombstoneOne_grows {reason uuid : String} {now : ℚ}
    (h : tombstoneOne env refused rows receiptId scope reason uuid now = .ok (r,rows')) : rows' = rows ∨
    (validScope scope = true ∧ insert env rows (tombstoneDraft receiptId scope reason uuid now) = .ok (r,rows'))
    := by
  unfold tombstoneOne at h
  split at h
  · cases h
  · rename_i hscope
    split at h
    · cases h
    · split at h
      · cases h
        exact .inl rfl
      · exact .inr ⟨not_not.mp hscope,h⟩

theorem PutArgs.draft_plain (h : validScope a.scope = true) : (a.draft env).Plain :=
  ⟨h,by simp [PutArgs.draft],_,rfl⟩

theorem EventArgs.draft_plain {a : EventArgs} (h : validScope a.scope = true) : (a.draft env).Plain :=
  ⟨h,by simp [EventArgs.draft],_,rfl⟩

theorem tombstoneDraft_plain (h : validScope scope = true) (receiptId reason uuid : String) (now : ℚ) :
    (tombstoneDraft receiptId scope reason uuid now).Plain := ⟨h,by simp [tombstoneDraft],_,rfl⟩

def Draft.Marks (d : Draft) : Prop := d.Plain ∧ d.receiptType = "tombstone"

theorem retire_grows (a : RetentionArgs) (i : ℕ) (targets : List Row) (removed : List String) (rows : List Row) :
    Grows env Draft.Marks rows (retire env a i targets removed rows).2 := by
  induction targets generalizing i removed rows with
  | nil => exact .refl
  | cons r rest ih =>
    unfold retire
    split
    · exact ih i removed rows
    · split
      · exact .refl
      · rename_i row mid hone
        have hfirst : Grows env Draft.Marks rows mid := by
          rcases tombstoneOne_grows hone with rfl | ⟨hscope,hinsert⟩
          · exact .refl
          · exact .single ⟨tombstoneDraft_plain hscope ..,rfl⟩ hinsert
        exact hfirst.trans (ih (i + 1) (removed ++ [r.receiptId]) mid)

theorem applyRetention_grows (rows : List Row) (a : RetentionArgs) :
    Grows env Draft.Marks rows (applyRetention env rows a).2 := by
  unfold applyRetention
  split
  · exact .refl
  · split
    · exact .refl
    · exact retire_grows a 0 _ [] rows

/-- A draft that the import of some items makes of one that `rows` do not hold yet. -/
def FromItem (env : Env) (rows : List Row) (items : List Json) (d : Draft) : Prop :=
  ∃ fields, Json.obj fields ∈ items ∧ itemDraft env fields d.receiptId d.scope = .ok d ∧ validScope d.scope = true ∧
    d.receiptId = pyStr env (getField fields "receipt_id") ∧ d.scope = pyStr env (getField fields "scope") ∧
    ∀ r ∈ rows, ¬ (r.receiptId = d.receiptId ∧ r.scope = d.scope)

variable {fields : Fields}

theorem itemDraft_ids {d : Draft}
    (h : itemDraft env fields receiptId scope = .ok d) : d.receiptId = receiptId ∧ d.scope = scope := by
  unfold itemDraft at h
  split at h
  · split at h
    · cases h
    · split at h
      · cases h
      · cases h
        exact ⟨rfl,rfl⟩
  · cases h
  · cases h
  · cases h

theorem importItem_spec {inserted : Bool} (h : importItem env rows fields = .ok (inserted,rows')) :
    (inserted = false ∧ rows' = rows) ∨ (inserted = true ∧ ∃ d r, itemDraft env fields d.receiptId d.scope = .ok d ∧
      validScope d.scope = true ∧ d.receiptId = pyStr env (getField fields "receipt_id") ∧ d.scope = pyStr env (getField fields "scope") ∧
      (∀ o ∈ rows, ¬ (o.receiptId = d.receiptId ∧ o.scope = d.scope)) ∧ insert env rows d = .ok (r,rows') ∧
      matchesItem r fields = true) := by
  unfold importItem at h
  split at h
  · cases h
  · split at h
    · rename_i id scopeValue hidField hscopeField
      dsimp only at h
      split at h
      · cases h
      · rename_i hvalid
        split at h
        · split at h
          · cases h
            exact .inl ⟨rfl,rfl⟩
          · cases h
        · rename_i hnew
          split at h
          · cases h
          · rename_i d hd
            split at h
            · cases h
            · rename_i row mid hinsert
              split at h
              · rename_i hmatch
                cases h
                obtain ⟨hid,hscope⟩ := itemDraft_ids hd
                have hidValue : getField fields "receipt_id" = id := by simp [getField,hidField]
                have hscopeValue : getField fields "scope" = scopeValue := by simp [getField,hscopeField]
                refine .inr ⟨rfl,d,row,by rw [hid,hscope]; exact hd,hscope ▸ not_not.mp hvalid,by rw [hidValue,hid],by rw [hscopeValue,hscope],
                  ?_,hinsert,hmatch⟩
                intro o ho hsame
                rw [hid,hscope] at hsame
                exact findReceipt_none.mp hnew o ho hsame
              · cases h
    · cases h

variable {n : ℕ}

theorem importItems_grows (base : List Row) (items : List Json) (hbase : base ⊆ rows)
    (h : importItems env items rows = .ok (n,rows')) : Grows env (FromItem env base items) rows rows' := by
  induction items generalizing rows n with
  | nil =>
    cases h
    exact .refl
  | cons item rest ih =>
    have hmono : ∀ d, FromItem env base rest d → FromItem env base (item :: rest) d := by
      rintro d ⟨fields,hmem,hd⟩
      exact ⟨fields,List.mem_cons_of_mem _ hmem,hd⟩
    cases item with
    | obj fields =>
      unfold importItems at h
      split at h
      · cases h
      · rename_i inserted mid hitem
        split at h
        · cases h
        · rename_i m final hrest
          cases h
          rcases importItem_spec hitem with ⟨-,rfl⟩ | ⟨-,d,r,hd,hvalid,hid,hscope,hnew,hinsert,-⟩
          · exact (ih hbase hrest).mono hmono
          · have hfirst : Grows env (FromItem env base (.obj fields :: rest)) rows mid :=
              .single ⟨fields,List.mem_cons_self,hd,hvalid,hid,hscope,fun o ho => hnew o (hbase ho)⟩ hinsert
            have hsub : base ⊆ mid := fun o ho => hfirst.keeps.subset (hbase ho)
            exact hfirst.trans ((ih hsub hrest).mono hmono)
    | scalar s => cases h
    | arr xs => cases h

def manifestItems : Json → List Json
  | .obj fields => match getField fields "receipts" with
    | .arr items => items
    | _ => []
  | _ => []

theorem keyedItems_snd (items : List Json) {keyed : List ((String × ℤ) × Json)}
    (h : items.mapM (fun item => (itemKey env item).map fun k => (k,item)) = some keyed) : keyed.map Prod.snd = items := by
  induction items generalizing keyed with
  | nil =>
    cases h
    rfl
  | cons item rest ih =>
    simp only [List.mapM_cons,Option.bind_eq_bind,Option.bind_eq_some_iff,Option.map_eq_some_iff,Option.pure_def,
      Option.some.injEq] at h
    obtain ⟨_,⟨k,-,rfl⟩,others,hothers,rfl⟩ := h
    rw [List.map_cons,ih hothers]

theorem sortedItems_perm {items sorted : List Json} (h : sortedItems env items = some sorted) : sorted.Perm items := by
  obtain ⟨keyed,hkeyed,rfl⟩ := Option.map_eq_some_iff.mp h
  have hsame := keyedItems_snd items hkeyed
  exact ((List.perm_insertionSort keyLe keyed).map Prod.snd).trans (hsame ▸ List.Perm.refl _)

theorem importManifest_grows {manifest : Json} (h : importManifest env refused rows manifest = .ok (n,rows')) :
    Grows env (FromItem env rows (manifestItems manifest)) rows rows' := by
  unfold importManifest at h
  split at h
  · rename_i fields
    dsimp only at h
    split at h
    · cases h
    · split at h
      · rename_i items hitems
        split at h
        · cases h
        · split at h
          · cases h
          · split at h
            · cases h
            · rename_i sorted hsorted
              have hall : manifestItems (.obj fields) = items := by simp [manifestItems,hitems]
              rw [hall]
              refine (importItems_grows rows sorted (List.Subset.refl _) h).mono ?_
              rintro d ⟨item,hmem,hd⟩
              exact ⟨item,(sortedItems_perm hsorted).subset hmem,hd⟩
      · cases h
  · cases h

end Writers

def Call.Drafts (env : Env) (rows : List Row) : Call → Draft → Prop
  | .importManifest _ manifest => FromItem env rows (manifestItems manifest)
  | _ => Draft.Plain

theorem committed_grows {env : Env} {P : Draft → Prop} {α : Type} {rows : List Row} {x : Except StoreError (α × List Row)}
    (h : ∀ a rows', x = .ok (a,rows') → Grows env P rows rows') : Grows env P rows (committed rows x).2 := by
  cases x with
  | error e => exact .refl
  | ok result => exact h result.1 result.2 rfl

theorem Call.run_grows (env : Env) (rows : List Row) (c : Call) : Grows env (c.Drafts env rows) rows (c.run env rows).2 := by
  have hplain : ∀ {d : Draft} {r : Row} {rows' : List Row} {p : Prop}, (p → d.Plain) →
      (rows' = rows ∨ (p ∧ insert env rows d = .ok (r,rows'))) → Grows env Draft.Plain rows rows' := by
    rintro d r rows' p hd (rfl | ⟨hp,hinsert⟩)
    · exact .refl
    · exact .single (hd hp) hinsert
  cases c with
  | putReceipt refused a => exact committed_grows fun r rows' h => hplain PutArgs.draft_plain (putReceipt_grows h)
  | appendEvent refused a => exact committed_grows fun r rows' h => hplain EventArgs.draft_plain (appendEvent_grows h)
  | tombstone refused receiptId scope reason uuid now =>
    refine committed_grows fun r rows' h => ?_
    unfold ReceiptStore.tombstone at h
    cases hget : getReceipt env rows receiptId (some scope) true with
    | error e => simp [hget,bind,Except.bind] at h
    | ok found =>
      cases found with
      | none => simp [hget,bind,Except.bind] at h
      | some row =>
        simp only [hget,bind,Except.bind] at h
        exact hplain (fun hscope => tombstoneDraft_plain hscope ..) (tombstoneOne_grows h)
  | applyRetention a => exact (applyRetention_grows rows a).mono fun _ hd => hd.1
  | importManifest refused manifest => exact committed_grows fun n rows' h => importManifest_grows h

section

def scopeRows (rows : List Row) (scope : String) : List Row := rows.filter (·.scope = scope)

def Numbered (rows : List Row) : Prop :=
  ∀ scope, (scopeRows rows scope).map Row.sequence = (List.range (scopeRows rows scope).length).map fun i : ℕ => (i : ℤ) + 1

theorem Numbered.strict {rows : List Row} (h : Numbered rows) (scope : String) :
    (scopeRows rows scope).Pairwise fun a b => a.sequence < b.sequence := by
  have hrange : ((List.range (scopeRows rows scope).length).map fun i : ℕ => (i : ℤ) + 1).Pairwise (· < ·) := by
    refine List.pairwise_map.mpr (List.pairwise_lt_range.imp fun hlt => ?_)
    omega
  rw [← h scope] at hrange
  exact List.pairwise_map.mp hrange

theorem Numbered.chainRows {rows : List Row} (h : Numbered rows) (scope : String) :
    chainRows rows scope = scopeRows rows scope := by
  have hsorted : (scopeRows rows scope).Pairwise fun a b => a.sequence ≤ b.sequence :=
    (h.strict scope).imp fun hlt => le_of_lt hlt
  exact hsorted.insertionSort_eq

theorem Numbered.getElem_sequence {rows : List Row} (h : Numbered rows) {scope : String} {i : ℕ}
    (hi : i < (scopeRows rows scope).length) : (scopeRows rows scope)[i].sequence = (i : ℤ) + 1 := by
  have hget := congrArg (fun l => l[i]?) (h scope)
  simpa [List.getElem?_map,List.getElem?_eq_getElem hi,List.getElem?_range hi] using hget

theorem Numbered.nextSequence {rows : List Row} (h : Numbered rows) (scope : String) :
    nextSequence rows scope = (((scopeRows rows scope).length : ℤ) + 1,lastHash Row.recordHash none (scopeRows rows scope)) := by
  unfold ReceiptStore.nextSequence
  rw [h.chainRows scope,HashChain.lastHash_eq_getLast?]
  cases hlast : (scopeRows rows scope).getLast? with
  | none => simp [List.getLast?_eq_none_iff.mp hlast]
  | some r =>
    rw [List.getLast?_eq_getElem?] at hlast
    obtain ⟨hlt,hr⟩ := List.getElem?_eq_some_iff.mp hlast
    have hseq := h.getElem_sequence hlt
    rw [hr] at hseq
    simp only [hseq,Option.map_some,Prod.mk.injEq,and_true]
    omega

theorem Numbered.nil : Numbered [] := fun _ => rfl

theorem scopeRows_append (rows : List Row) (r : Row) (scope : String) :
    scopeRows (rows ++ [r]) scope = scopeRows rows scope ++ (if r.scope = scope then [r] else []) := by
  simp only [scopeRows,List.filter_append,List.filter_cons,List.filter_nil,decide_eq_true_eq]

theorem Numbered.insert {env : Env} {rows rows' : List Row} {d : Draft} {r : Row} (h : Numbered rows)
    (hinsert : insert env rows d = .ok (r,rows')) : Numbered rows' := by
  obtain ⟨links,timestamp,-,-,rfl,-,rfl⟩ := insert_spec hinsert
  intro scope
  rw [scopeRows_append]
  split
  · rename_i hscope
    have hseq : (d.row env rows timestamp links).sequence = ((scopeRows rows scope).length : ℤ) + 1 := by
      change (ReceiptStore.nextSequence rows d.scope).1 = _
      rw [h.nextSequence,show d.scope = scope from hscope]
    rw [List.map_append,h scope,List.length_append,List.length_singleton,List.range_succ,List.map_append]
    simp [hseq]
  · simpa using h scope

theorem Grows.numbered {env : Env} {P : Draft → Prop} {rows rows' : List Row} (h : Grows env P rows rows')
    (hrows : Numbered rows) : Numbered rows' := by
  induction h with
  | refl => exact hrows
  | write _ _ hinsert ih => exact ih.insert hinsert

end

section Chain
variable {env : Env}

structure Row.Sealed (env : Env) (r : Row) : Prop where
  content : digest env r.payload = r.contentHash
  record : r.expectedHash env = r.recordHash

variable {previous : Option String} {r : Row}

theorem rowFaults_eq_nil :
    rowFaults env previous r = [] ↔ r.Sealed env ∧ 1 ≤ r.sequence ∧ r.previousHash = previous := by
  unfold rowFaults
  simp only [List.append_eq_nil_iff,ite_eq_right_iff,List.cons_ne_self,imp_false,not_or,not_lt,not_not]
  constructor
  · rintro ⟨⟨hcontent,hseq,hprev⟩,hrecord⟩
    exact ⟨⟨hcontent,hrecord⟩,hseq,hprev⟩
  · rintro ⟨hsealed,hseq,hprev⟩
    exact ⟨⟨hsealed.content,hseq,hprev⟩,hsealed.record⟩

theorem chainFaults_eq_nil {rows : List Row} : chainFaults env previous rows = [] ↔ Linked Row.recordHash
    Row.previousHash previous rows ∧ ∀ r ∈ rows, r.Sealed env ∧ 1 ≤ r.sequence := by
  induction rows generalizing previous with
  | nil => simp [chainFaults,Linked]
  | cons r rest ih =>
    simp only [chainFaults,List.append_eq_nil_iff,List.map_eq_nil_iff,rowFaults_eq_nil,ih,Linked,List.forall_mem_cons]
    tauto

@[simp] theorem textColumn_optText (env : Env) (o : Option String) : textColumn env (optText o) = some o := by
  cases o <;> rfl

theorem links_stored_optText (env : Env) (l : Links (Option String)) : (l.map optText).stored env = some l := by
  simp [Links.stored,Links.map]

theorem stamp_stored {t t' : Stamp} (h : t.stored = some t') (ht : t ≠ .negZero) : t' = t := by
  cases t with
  | negZero => exact absurd rfl ht
  | nan => cases h
  | finite q => exact (Option.some.inj h).symm
  | inf => exact (Option.some.inj h).symm
  | negInf => exact (Option.some.inj h).symm

theorem recordHash_canon (receiptId : String) (timestamp : Stamp) (receiptType contentHash scope : String)
    (sequence : ℤ) (previousHash : Option String) (sensitivity : String) (provenance : Fields)
    (links : Links Json) : recordHash env receiptId timestamp receiptType contentHash scope sequence
    previousHash sensitivity (Json.obj provenance).canon links = recordHash env receiptId timestamp
    receiptType contentHash scope sequence previousHash sensitivity (.obj provenance) links := by
  have hcanon := Json.canon_canon (.obj provenance)
  simp only [Json.canon] at hcanon
  simp only [recordHash,recordValue,digest,Json.canon,Json.canonList,orEmpty,hcanon]

variable {d : Draft}

theorem Draft.Plain.sealed (hd : d.Plain) {rows : List Row} {links : Links (Option String)} {timestamp : Stamp}
    (hlinks : d.links.stored env = some links) (htimestamp : d.timestamp.stored = some timestamp) :
    (d.row env rows timestamp links).Sealed env := by
  obtain ⟨l,hl⟩ := hd.links
  rw [hl,links_stored_optText,Option.some.injEq] at hlinks
  subst hlinks
  have hstamp := stamp_stored htimestamp hd.timestamp
  subst hstamp
  constructor
  · exact congrArg env.sha256 (Json.canon_canon _)
  · simp only [Row.expectedHash,Draft.row,recordHash_canon,hl]

structure Sound (env : Env) (rows : List Row) : Prop where
  numbered : Numbered rows
  isSealed : ∀ r ∈ rows, r.Sealed env
  linked : ∀ scope, Linked Row.recordHash Row.previousHash none (scopeRows rows scope)

theorem Sound.nil : Sound env [] := ⟨.nil,fun _ h => absurd h List.not_mem_nil,fun _ => trivial⟩

theorem Sound.insert {rows rows' : List Row} (h : Sound env rows) (hd : d.Plain)
    (hinsert : insert env rows d = .ok (r,rows')) : Sound env rows' := by
  refine ⟨h.numbered.insert hinsert,?_,?_⟩
  · obtain ⟨links,timestamp,hlinks,htimestamp,rfl,-,rfl⟩ := insert_spec hinsert
    intro o ho
    rcases List.mem_append.mp ho with ho | ho
    · exact h.isSealed o ho
    · rw [List.mem_singleton] at ho
      subst ho
      exact hd.sealed hlinks htimestamp
  · obtain ⟨links,timestamp,-,-,rfl,-,rfl⟩ := insert_spec hinsert
    intro scope
    rw [scopeRows_append]
    split
    · rename_i hscope
      refine (HashChain.linked_append ..).mpr ⟨h.linked scope,?_,trivial⟩
      change (ReceiptStore.nextSequence rows d.scope).2 = _
      rw [h.numbered.nextSequence,show d.scope = scope from hscope]
    · simpa using h.linked scope

theorem Grows.sound {rows rows' : List Row} (h : Grows env Draft.Plain rows rows') (hrows : Sound env rows) :
    Sound env rows' := by
  induction h with
  | refl => exact hrows
  | write _ hd hinsert ih => exact ih.insert hd hinsert

variable {scope : String}

theorem Numbered.one_le {rows : List Row} (h : Numbered rows) (hr : r ∈ scopeRows rows scope) :
    1 ≤ r.sequence := by
  obtain ⟨i,hi,rfl⟩ := List.mem_iff_getElem.mp hr
  rw [h.getElem_sequence hi]
  omega

theorem Numbered.sequence_le {rows : List Row} (h : Numbered rows) (hr : r ∈ scopeRows rows scope) :
    r.sequence ≤ (scopeRows rows scope).length := by
  obtain ⟨i,hi,rfl⟩ := List.mem_iff_getElem.mp hr
  rw [h.getElem_sequence hi]
  omega

theorem Numbered.iterChainRecords {rows : List Row} (h : Numbered rows) (scope : String) :
    iterChainRecords rows scope = scopeRows rows scope := by
  have hall : Paging.above Row.sequence (scopeRows rows scope) 0 = scopeRows rows scope := by
    refine List.filter_eq_self.mpr fun r hr => ?_
    have hone := h.one_le hr
    simp only [decide_eq_true_eq]
    omega
  unfold ReceiptStore.iterChainRecords chainPages
  rw [h.chainRows scope,Paging.pages_of_strict (by decide) (h.strict scope),hall]
  rw [hall]
  exact Nat.lt_succ_of_le (List.length_filter_le _ _)

theorem Sound.chainFaults {rows : List Row} (h : Sound env rows) (scope : String) :
    chainFaults env none (iterChainRecords rows scope) = [] := by
  rw [h.numbered.iterChainRecords,chainFaults_eq_nil]
  exact ⟨h.linked scope,fun r hr => ⟨h.isSealed r (List.mem_of_mem_filter hr),h.numbered.one_le hr⟩⟩

theorem Sound.valid {rows : List Row} (h : Sound env rows) {scope : Option String} (hscope : scope.all validScope = true) :
    Valid env rows scope := by
  cases scope with
  | none => simp [Valid,verifyIntegrity,h.chainFaults]
  | some scope =>
    have hvalid : validScope scope = true := by simpa using hscope
    simp [Valid,verifyIntegrity,hvalid,h.chainFaults]

end Chain

section
variable (env : Env)

def linkKeys : List String :=
  ["parent_receipt_id","event_id","event_type","terminal_outcome","idempotency_key","tombstone_for","key_ref"]

/-- Every optional field is missing, null or a text, and the timestamp is no negative zero. -/
structure ItemTextual (fields : Fields) : Prop where
  links : ∀ key ∈ linkKeys, ∃ o, getField fields key = optText o
  timestamp : ∀ value, fields.lookup "timestamp" = some value → pyFloat env value ≠ some .negZero

def Call.Textual (rows : List Row) : Call → Prop
  | .importManifest _ manifest => ∀ fields, Json.obj fields ∈ manifestItems manifest →
      (∀ r ∈ rows, ¬ (r.receiptId = pyStr env (getField fields "receipt_id") ∧
        r.scope = pyStr env (getField fields "scope"))) → ItemTextual env fields
  | _ => True

variable {env}
variable {d : Draft}

theorem itemDraft_plain {fields : Fields} {receiptId scope : String}
    (h : itemDraft env fields receiptId scope = .ok d) (hscope : validScope scope = true)
    (htextual : ItemTextual env fields) : d.Plain := by
  unfold itemDraft at h
  split at h
  · split at h
    · cases h
    · rename_i value hvalue
      split at h
      · cases h
      · rename_i timestamp htimestamp
        cases h
        refine ⟨hscope,?_,?_⟩
        · intro hzero
          exact htextual.timestamp value hvalue (htimestamp.trans (congrArg some hzero))
        · obtain ⟨parent,hparent⟩ := htextual.links "parent_receipt_id" (by decide)
          obtain ⟨event,hevent⟩ := htextual.links "event_id" (by decide)
          obtain ⟨type,htype⟩ := htextual.links "event_type" (by decide)
          obtain ⟨outcome,houtcome⟩ := htextual.links "terminal_outcome" (by decide)
          obtain ⟨idempotency,hidempotency⟩ := htextual.links "idempotency_key" (by decide)
          obtain ⟨tomb,htomb⟩ := htextual.links "tombstone_for" (by decide)
          obtain ⟨ref,href⟩ := htextual.links "key_ref" (by decide)
          refine ⟨⟨parent,event,type,outcome,idempotency,tomb,ref⟩,?_⟩
          simp only [hparent,hevent,htype,houtcome,hidempotency,htomb,href,Links.map]
  · cases h
  · cases h
  · cases h

theorem Call.Textual.plain {rows : List Row} {c : Call} (h : c.Textual env rows) (hd : c.Drafts env rows d) :
    d.Plain := by
  cases c with
  | importManifest refused manifest =>
    obtain ⟨fields,hmem,hdraft,hvalid,hid,hscope,hnew⟩ := hd
    refine itemDraft_plain hdraft hvalid (h fields hmem fun r hr => ?_)
    rw [← hid,← hscope]
    exact hnew r hr
  | putReceipt refused a => exact hd
  | appendEvent refused a => exact hd
  | tombstone refused receiptId scope reason uuid now => exact hd
  | applyRetention a => exact hd

end

section Atomic
variable {env : Env}

/-- The loop of a retention is not interrupted after its first tombstone: no later
transaction is refused, and no later uuid has been drawn before. -/
def Call.Atomic (rows : List Row) : Call → Prop
  | .applyRetention a => (a.refusedAfter = none ∨ a.refusedAfter = some 0) ∧
      ∀ i, 0 < i → (∀ r ∈ rows, r.receiptId ≠ "tomb-" ++ a.uuids i) ∧ ∀ j < i, a.uuids j ≠ a.uuids i
  | _ => True

theorem insert_tombstone {rows : List Row} (receiptId scope reason uuid : String) (now : ℚ)
    (hfresh : ∀ r ∈ rows, r.receiptId ≠ "tomb-" ++ uuid) : ∃ r, insert env rows
    (tombstoneDraft receiptId scope reason uuid now) = .ok (r,rows ++ [r]) ∧ r.receiptId = "tomb-" ++ uuid
    := by
  refine ⟨_,insert_of (by simp only [tombstoneDraft]; decide) (links_stored_optText env _) rfl ?_,rfl⟩
  rw [clashes,List.any_eq_false]
  intro r hr
  have hne := hfresh r hr
  simp [Draft.row,tombstoneDraft,hne]

theorem retire_ok {a : RetentionArgs} {base : List Row} (hatomic : (Call.applyRetention a).Atomic base)
    (hscope : validScope a.scope = true) (targets : List Row) (i : ℕ) (hi : 0 < i) (removed : List String) (rows : List Row)
    (hids : ∀ r ∈ rows, (∃ o ∈ base, r.receiptId = o.receiptId) ∨ ∃ j < i, r.receiptId = "tomb-" ++ a.uuids j) :
    ∃ done, (retire env a i targets removed rows).1 = .ok done := by
  obtain ⟨hrefused,hfresh⟩ := hatomic
  have hopen : ∀ j, 0 < j → (decide (a.refusedAfter = some j)) = false := by
    intro j hj
    rcases hrefused with h | h
    · simp [h]
    · simp only [h,Option.some.injEq,decide_eq_false_iff_not]
      omega
  induction targets generalizing i removed rows with
  | nil => exact ⟨removed,rfl⟩
  | cons r rest ih =>
    unfold retire
    split
    · exact ih i hi removed rows hids
    · have hone : ∃ row mid, tombstoneOne env (a.refusedAfter = some i) rows r.receiptId a.scope "retention" (a.uuids i)
          (a.times i) = .ok (row,mid) ∧ ∀ o ∈ mid, (∃ b ∈ base, o.receiptId = b.receiptId) ∨
            ∃ j < i + 1, o.receiptId = "tomb-" ++ a.uuids j := by
        have hold : ∀ o ∈ rows, (∃ b ∈ base, o.receiptId = b.receiptId) ∨ ∃ j < i + 1, o.receiptId = "tomb-" ++ a.uuids j := by
          intro o ho
          exact (hids o ho).imp_right fun ⟨j,hj,he⟩ => ⟨j,by omega,he⟩
        unfold tombstoneOne
        rw [if_neg (by simp [hscope]),if_neg (by simp [hopen i hi])]
        split
        · rename_i existing _
          exact ⟨existing,rows,rfl,hold⟩
        · obtain ⟨row,hinsert,hid⟩ := @insert_tombstone env rows r.receiptId a.scope "retention" (a.uuids i)
              (a.times i) (by
            intro o ho heq
            rcases hids o ho with ⟨b,hb,hsame⟩ | ⟨j,hj,hsame⟩
            · exact (hfresh i hi).1 b hb (hsame.symm.trans heq)
            · exact (hfresh i hi).2 j hj (by simpa using hsame.symm.trans heq))
          refine ⟨row,rows ++ [row],hinsert,fun o ho => ?_⟩
          rcases List.mem_append.mp ho with ho | ho
          · exact hold o ho
          · rw [List.mem_singleton] at ho
            exact .inr ⟨i,by omega,by rw [ho,hid]⟩
      obtain ⟨row,mid,hok,hmid⟩ := hone
      rw [hok]
      exact ih (i + 1) (by omega) _ mid hmid

variable {e : StoreError}

theorem retire_failed {a : RetentionArgs} {rows : List Row} (hatomic : (Call.applyRetention a).Atomic rows)
    (targets : List Row) (removed : List String) (h : (retire env a 0 targets removed rows).1 = .error e) :
    (retire env a 0 targets removed rows).2 = rows := by
  induction targets generalizing removed with
  | nil => rfl
  | cons r rest ih =>
    unfold retire at h ⊢
    split
    · rename_i htomb
      rw [if_pos htomb] at h
      exact ih removed h
    · rename_i htomb
      rw [if_neg htomb] at h
      split at h
      · rfl
      · rename_i row mid hone
        have hscope : validScope a.scope = true := by
          by_contra hbad
          unfold tombstoneOne at hone
          rw [if_pos hbad] at hone
          cases hone
        have hids : ∀ o ∈ mid, (∃ b ∈ rows, o.receiptId = b.receiptId) ∨ ∃ j < 1, o.receiptId = "tomb-" ++ a.uuids j := by
          rcases tombstoneOne_grows hone with rfl | ⟨-,hinsert⟩
          · exact fun o ho => .inl ⟨o,ho,rfl⟩
          · obtain ⟨links,timestamp,-,-,rfl,-,rfl⟩ := insert_spec hinsert
            intro o ho
            rcases List.mem_append.mp ho with ho | ho
            · exact .inl ⟨o,ho,rfl⟩
            · rw [List.mem_singleton] at ho
              exact .inr ⟨0,by omega,by rw [ho]; rfl⟩
        obtain ⟨done,hdone⟩ := @retire_ok env a rows hatomic hscope rest 1 (by omega) (removed ++ [r.receiptId]) mid hids
        rw [hdone] at h
        cases h

theorem committed_failed {α : Type} {rows : List Row} {x : Except StoreError (α × List Row)}
    (h : (committed rows x).1 = .error e) : (committed rows x).2 = rows := by
  cases x with
  | error e' => rfl
  | ok result => cases h

theorem Call.Atomic.unchanged {rows : List Row} {c : Call} (hatomic : c.Atomic rows)
    (h : (c.run env rows).1 = .error e) : (c.run env rows).2 = rows := by
  cases c with
  | applyRetention a =>
    simp only [Call.run,ReceiptStore.applyRetention] at h ⊢
    split at h
    · rename_i hage
      rw [if_pos hage]
    · rename_i hage
      rw [if_neg hage]
      split at h
      · rfl
      · rename_i found _
        cases hret : (retire env a 0 (found.filter fun r => r.timestamp.before (a.now - a.maxAgeSeconds)) [] rows).1 with
        | ok done =>
          rw [hret] at h
          cases h
        | error e' => exact retire_failed hatomic _ [] hret
  | putReceipt refused a => exact committed_failed h
  | appendEvent refused a => exact committed_failed h
  | tombstone refused receiptId scope reason uuid now => exact committed_failed h
  | importManifest refused manifest => exact committed_failed h

end Atomic

section
variable (env : Env)

def nextRows (rows : List Row) (c : Call) : Option (List Row) := some (c.run env rows).2

theorem exec_nextRows (calls : List Call) (rows : List Row) :
    Run.exec (nextRows env) rows calls = some (calls.foldl (fun rows c => (c.run env rows).2) rows) := by
  induction calls generalizing rows with
  | nil => rfl
  | cons c calls ih => exact ih _

theorem runCalls_numbered (calls : List Call) : Numbered (runCalls env calls) := by
  refine Run.exec_invariant (fun rows c rows' h hstep => ?_) (exec_nextRows env calls []) .nil
  cases hstep
  exact (c.run_grows env rows).numbered h

theorem runCalls_sound {calls : List Call}
    (h : Run.AllSteps (nextRows env) (fun rows c => c.Textual env rows) [] calls) : Sound env (runCalls env calls) := by
  refine Run.exec_invariant_of (fun rows c rows' hrows htextual hstep => ?_) h (exec_nextRows env calls []) Sound.nil
  cases hstep
  exact ((c.run_grows env rows).mono fun d hd => htextual.plain hd).sound hrows

/-- In every run of calls: no call modifies or removes a row; each scope is numbered 1..n; a
call that fails changes nothing, unless it is a retention that is interrupted; and every
scope verifies, as long as no import adds a record with an optional field that is not text. -/
theorem ledger_append_only (calls : List Call) :
    (∀ scope, (scopeRows (runCalls env calls) scope).map Row.sequence
      = (List.range (scopeRows (runCalls env calls) scope).length).map fun i : ℕ => (i : ℤ) + 1) ∧
    (∀ c : Call, runCalls env calls <+: (c.run env (runCalls env calls)).2 ∧
      (c.Atomic (runCalls env calls) → ∀ e, (c.run env (runCalls env calls)).1 = .error e →
        (c.run env (runCalls env calls)).2 = runCalls env calls)) ∧
    (Run.AllSteps (nextRows env) (fun rows c => c.Textual env rows) [] calls →
      ∀ scope : Option String, scope.all validScope = true → Valid env (runCalls env calls) scope) := by
  refine ⟨runCalls_numbered env calls,fun c => ⟨(c.run_grows env _).keeps,fun hatomic e he => ?_⟩,fun htextual scope hscope => ?_⟩
  · exact hatomic.unchanged he
  · exact (runCalls_sound env htextual).valid hscope

end

def plainEnv : Env where
  lower text := String.ofList (text.toList.map Char.toLower)
  sha256 := Json.print
  str _ := ""
  float _ := none
  int _ := none
  realText _ := ""

def numberedEvent : Fields :=
  let links : Links Json := ⟨.scalar .null,.int 5,.scalar .null,.scalar .null,.scalar .null,.scalar .null,.scalar .null⟩
  [("receipt_id",.str "r"),("timestamp",.float 0),("receipt_type",.str "execution"),("scope",.str "s"),
   ("content_hash",.str (digest plainEnv (.obj []))),("sensitivity",.str "internal"),("provenance",.obj []),
   ("sequence",.int 1),("event_id",.int 5),("payload",.obj []),
   ("record_hash",.str (recordHash plainEnv "r" (.finite 0) "execution" (digest plainEnv (.obj [])) "s" 1 none "internal"
     (.obj []) links))]

def importNumbered : Call := .importManifest false (.obj (manifestOf plainEnv [.obj numberedEvent]))

/-- The import takes the record, and its scope no longer verifies. -/
theorem imported_number_breaks_chain : (importNumbered.run plainEnv []).1 = .ok () ∧
    ¬ Valid plainEnv (runCalls plainEnv [importNumbered]) (some "s") := by
  refine ⟨?_,?_⟩ <;> decide +kernel

end Verdict.ReceiptStore

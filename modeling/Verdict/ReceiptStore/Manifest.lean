import Mathlib.Data.List.Pairwise
import Verdict.Basics.Grouped
import Verdict.ReceiptStore.Verification

/-! # Exporting and importing a ledger

`export_manifest` writes the newest hundred thousand records, sorted by scope and sequence;
`import_manifest` inserts them again one by one, redacting each provenance a second time, and
compares hashes. A valid store comes back whole exactly when the export holds all of it and
the second redaction finds nothing more to do.
-/
namespace Verdict.ReceiptStore
open HashChain (Linked lastHash)
open Grouped (group mem_group)
open List (length_append lookup_cons map_cons mem_insertionSort mem_singleton)

section
variable {env : Env}

structure Row.Stored (r : Row) : Prop where
  type : r.receiptType ∈ receiptTypes
  scope : validScope r.scope = true
  payload : ∃ fields, r.payload = .obj fields ∧ Json.canonFields fields = fields
  provenance : ∃ fields, r.provenance = .obj fields ∧ Json.canonFields fields = fields
  timestamp : r.timestamp.stored = some r.timestamp

/-- Two rows of one table: different ids, and different idempotency keys in one scope. -/
def Apart (a b : Row) : Prop :=
  a.receiptId ≠ b.receiptId ∧ ¬ (b.links.idempotencyKey.isSome = true ∧ a.scope = b.scope ∧
    a.links.idempotencyKey = b.links.idempotencyKey)

structure Filled (rows : List Row) : Prop where
  numbered : Numbered rows
  stored : ∀ r ∈ rows, r.Stored
  apart : rows.Pairwise Apart

theorem stamp_stored_stored {t t' : Stamp} (h : t.stored = some t') : t'.stored = some t' := by
  cases t with
  | nan => cases h
  | finite q => cases h; rfl
  | negZero => cases h; rfl
  | inf => cases h; rfl
  | negInf => cases h; rfl

variable {r : Row}

theorem clashes_eq_false {rows : List Row} : clashes rows r = false ↔ ∀ o ∈ rows, Apart o r := by
  rw [clashes,List.any_eq_false]
  refine forall₂_congr fun o _ => ?_
  simp [Apart]

variable {rows' : List Row}

theorem Filled.insert {rows : List Row} {d : Draft} (h : Filled rows) (hscope : validScope d.scope = true)
    (hinsert : insert env rows d = .ok (r,rows')) : Filled rows' := by
  refine ⟨h.numbered.insert hinsert,?_,?_⟩
  · have htype : d.receiptType ∈ receiptTypes := by
      by_contra hbad
      simp only [ReceiptStore.insert,hbad,not_false_eq_true,if_true] at hinsert
      cases hinsert
    obtain ⟨links,timestamp,-,htimestamp,rfl,-,rfl⟩ := insert_spec hinsert
    intro o ho
    rcases List.mem_append.mp ho with ho | ho
    · exact h.stored o ho
    · rw [mem_singleton] at ho
      subst ho
      exact ⟨htype,hscope,⟨_,rfl,Json.canonFields_canonFields _⟩,⟨_,rfl,Json.canonFields_canonFields _⟩,stamp_stored_stored htimestamp⟩
  · obtain ⟨links,timestamp,-,-,-,hfree,rfl⟩ := insert_spec hinsert
    refine List.pairwise_append.mpr ⟨h.apart,List.pairwise_singleton _ _,fun a ha b hb => ?_⟩
    rw [mem_singleton] at hb
    subst hb
    exact clashes_eq_false.mp hfree a ha

theorem Call.Drafts.scope {rows : List Row} {c : Call} {d : Draft} (h : c.Drafts env rows d) : validScope d.scope = true := by
  cases c with
  | importManifest refused manifest =>
    obtain ⟨fields,-,-,hvalid,-⟩ := h
    exact hvalid
  | putReceipt refused a => exact Draft.Plain.scope h
  | appendEvent refused a => exact Draft.Plain.scope h
  | tombstone refused receiptId scope reason uuid now => exact Draft.Plain.scope h
  | applyRetention a => exact Draft.Plain.scope h

theorem Grows.filled {rows : List Row} (h : Grows env (fun d => validScope d.scope = true) rows rows')
    (hrows : Filled rows) : Filled rows' := by
  induction h with
  | refl => exact hrows
  | write _ hd hinsert ih => exact ih.insert hd hinsert

theorem runCalls_filled (env : Env) (calls : List Call) : Filled (runCalls env calls) := by
  refine Run.exec_invariant (fun rows c rows' h hstep => ?_) (exec_nextRows env calls [])
    ⟨.nil,fun r hr => absurd hr List.not_mem_nil,.nil⟩
  cases hstep
  exact ((c.run_grows env rows).mono fun d hd => hd.scope).filled h

theorem sound_of_valid {rows : List Row} (hrows : Numbered rows) (h : Valid env rows none) : Sound env rows := by
  have hscope : ∀ r ∈ rows, chainFaults env none (scopeRows rows r.scope) = [] := by
    intro r hr
    have hfaults := not_broken_iff.mp ((valid_iff.mp h).2 r.scope (mem_verifiedScopes hr rfl))
    rwa [hrows.iterChainRecords] at hfaults
  refine ⟨hrows,fun r hr => ?_,fun scope => ?_⟩
  · have hin : r ∈ scopeRows rows r.scope := List.mem_filter.mpr ⟨hr,by simp⟩
    exact ((chainFaults_eq_nil.mp (hscope r hr)).2 r hin).1
  · cases hall : scopeRows rows scope with
    | nil => trivial
    | cons r rest =>
      have hr : r ∈ scopeRows rows scope := by simp [hall]
      obtain ⟨hmem,hsame⟩ := List.mem_filter.mp hr
      simp only [decide_eq_true_eq] at hsame
      have hfaults := hscope r hmem
      rw [hsame,hall] at hfaults
      exact (chainFaults_eq_nil.mp hfaults).1

end

section
variable {env : Env}

def Row.Settled (env : Env) (r : Row) : Prop :=
  ∀ fields, r.provenance = .obj fields → (Json.obj (redactSensitiveDict env.lower [] fields)).canon = r.provenance

theorem pyFloat_toJson (t : Stamp) : pyFloat env t.toJson = some t := by cases t <;> rfl

theorem itemKey_exportItem (r : Row) : itemKey env (.obj (exportItem true r)) = some (r.scope,r.sequence) := by
  simp [itemKey,exportItem,getField,lookup_cons,pyInt,pyStr]

def Row.draftAgain (env : Env) (r : Row) (payload provenance : Fields) : Draft where
  receiptType := r.receiptType
  scope := r.scope
  payload := payload
  sensitivity := r.sensitivity
  provenance := redactSensitiveDict env.lower [] provenance
  receiptId := r.receiptId
  timestamp := r.timestamp
  links := r.links.map optText

theorem itemDraft_exportItem {r : Row} {payload provenance : Fields} (hpayload : r.payload = .obj payload)
    (hprovenance : r.provenance = .obj provenance) :
    itemDraft env (exportItem true r) r.receiptId r.scope = .ok (r.draftAgain env payload provenance) := by
  simp [itemDraft,exportItem,lookup_cons,hpayload,hprovenance,pyFloat_toJson,pyStr,getField,Row.draftAgain,Links.map]

theorem matchesItem_exportItem (r : Row) : matchesItem r (exportItem true r) = true := by
  simp [matchesItem,exportItem,getField,lookup_cons,Json.pyEq,Json.hasNan]

variable {r : Row}

theorem draftAgain_row {rows : List Row} {payload provenance : Fields} (hpayload : r.payload = .obj payload)
    (hprovenance : r.provenance = .obj provenance) (hcanon : Json.canonFields payload = payload)
    (hsealed : r.Sealed env) (hsettled : r.Settled env) (hnext : nextSequence rows r.scope = (r.sequence,r.previousHash)) :
    (r.draftAgain env payload provenance).row env rows r.timestamp r.links = r := by
  have hprov := hsettled provenance hprovenance
  have hcontent : digest env (.obj payload) = r.contentHash := by
    rw [← hpayload]
    exact hsealed.content
  have hcanonPayload : (Json.obj payload).canon = r.payload := by
    rw [hpayload,Json.canon,hcanon]
  have hrecord : recordHash env r.receiptId r.timestamp r.receiptType r.contentHash r.scope r.sequence r.previousHash
      r.sensitivity (.obj (redactSensitiveDict env.lower [] provenance)) (r.links.map optText) = r.recordHash := by
    rw [← recordHash_canon,hprov]
    exact hsealed.record
  simp only [Draft.row,Row.draftAgain,hnext,hcontent,hrecord,hprov,hcanonPayload]

theorem importItem_known {rows : List Row} (hr : r ∈ rows) (hscope : validScope r.scope = true)
    (hunique : ∀ o ∈ rows, o.receiptId = r.receiptId → o.scope = r.scope → o = r) :
    importItem env rows (exportItem true r) = .ok (false,rows) := by
  have hfound : findReceipt rows r.receiptId r.scope = some r := by
    cases hfind : findReceipt rows r.receiptId r.scope with
    | none => exact absurd ⟨rfl,rfl⟩ (findReceipt_none.mp hfind r hr)
    | some o =>
      obtain ⟨ho,hid,hsame⟩ := findReceipt_some hfind
      rw [hunique o ho hid hsame]
  have hpresent : ((exportItem true r).lookup "payload").isNone = false := by simp [exportItem]
  have hid : (exportItem true r).lookup "receipt_id" = some (.str r.receiptId) := by simp [exportItem]
  have hscopeField : (exportItem true r).lookup "scope" = some (.str r.scope) := by simp [exportItem,lookup_cons]
  have hhash : getField (exportItem true r) "record_hash" = .str r.recordHash := by simp [getField,exportItem,lookup_cons]
  simp only [importItem,hpresent,hid,hscopeField,pyStr,hscope,hfound,hhash,Bool.false_eq_true,not_true_eq_false,if_false,
    if_true]

theorem importItem_next {rows : List Row} (hstored : r.Stored) (hsealed : r.Sealed env) (hsettled : r.Settled env)
    (hnext : nextSequence rows r.scope = (r.sequence,r.previousHash)) (happart : ∀ o ∈ rows, Apart o r) :
    importItem env rows (exportItem true r) = .ok (true,rows ++ [r]) := by
  obtain ⟨payload,hpayload,hcanon⟩ := hstored.payload
  obtain ⟨provenance,hprovenance,-⟩ := hstored.provenance
  have hrow := draftAgain_row hpayload hprovenance hcanon hsealed hsettled hnext
  have hinsert : insert env rows (r.draftAgain env payload provenance) = .ok (r,rows ++ [r]) := by
    have hfree : clashes rows ((r.draftAgain env payload provenance).row env rows r.timestamp r.links) = false := by
      rw [hrow]
      exact clashes_eq_false.mpr happart
    have h := @insert_of env rows (r.draftAgain env payload provenance) _ _ hstored.type
      (links_stored_optText env r.links) hstored.timestamp hfree
    rwa [hrow] at h
  have hfresh : findReceipt rows r.receiptId r.scope = none :=
    findReceipt_none.mpr fun o ho hsame => (happart o ho).1 hsame.1
  have hdraft := @itemDraft_exportItem env r _ _ hpayload hprovenance
  have hpresent : ((exportItem true r).lookup "payload").isNone = false := by simp [exportItem]
  have hid : (exportItem true r).lookup "receipt_id" = some (.str r.receiptId) := by simp [exportItem]
  have hscopeField : (exportItem true r).lookup "scope" = some (.str r.scope) := by simp [exportItem,lookup_cons]
  simp only [importItem,hpresent,hid,hscopeField,pyStr,hstored.scope,hfresh,hdraft,hinsert,matchesItem_exportItem,
    Bool.false_eq_true,not_true_eq_false,if_false,if_true]

end

section Export
variable {env : Env}

instance : Std.Total exportLe := by
  refine ⟨fun a b => ?_⟩
  unfold exportLe
  rcases lt_trichotomy a.scope b.scope with h | h | h
  · exact .inl (.inl h)
  · rcases lt_trichotomy a.sequence b.sequence with hs | hs | hs
    · exact .inl (.inr ⟨h,.inl hs⟩)
    · rcases le_total a.receiptId b.receiptId with hid | hid
      · exact .inl (.inr ⟨h,.inr ⟨hs,hid⟩⟩)
      · exact .inr (.inr ⟨h.symm,.inr ⟨hs.symm,hid⟩⟩)
    · exact .inr (.inr ⟨h.symm,.inl hs⟩)
  · exact .inr (.inl h)

instance : IsTrans Row exportLe := by
  refine ⟨fun a b c hab hbc => ?_⟩
  rcases hab with hab | ⟨hab,hab'⟩
  · rcases hbc with hbc | ⟨hbc,-⟩
    · exact .inl (lt_trans hab hbc)
    · exact .inl (hbc ▸ hab)
  · rcases hbc with hbc | ⟨hbc,hbc'⟩
    · exact .inl (hab ▸ hbc)
    · refine .inr ⟨hab.trans hbc,?_⟩
      rcases hab' with hab' | ⟨hab',hle⟩
      · rcases hbc' with hbc' | ⟨hbc',-⟩
        · exact .inl (lt_trans hab' hbc')
        · exact .inl (hbc' ▸ hab')
      · rcases hbc' with hbc' | ⟨hbc',hle'⟩
        · exact .inl (hab' ▸ hbc')
        · exact .inr ⟨hab'.trans hbc',le_trans hle hle'⟩

/-- The records of `export_manifest()`, in the order of the manifest. -/
def exported (rows : List Row) : List Row :=
  ((rows.insertionSort fun a b => b.sequence ≤ a.sequence).take 100000).insertionSort exportLe

def manifestOfRows (env : Env) (rows : List Row) : Fields := manifestOf env (rows.map fun r => .obj (exportItem true r))

variable {m : Fields}

theorem exportManifest_eq {rows : List Row} :
    exportManifest env rows none true = .ok m ↔ Valid env rows none ∧ manifestOfRows env (exported rows) = m := by
  have hverify : ∃ faults, verifyIntegrity env rows none = .ok faults := ⟨_,rfl⟩
  obtain ⟨faults,hfaults⟩ := hverify
  cases faults with
  | nil => simp [exportManifest,queryReceipts,assertIntegrity,hfaults,Valid,manifestOfRows,exported,bind,Except.bind,pure,Except.pure]
  | cons f fs => simp [exportManifest,queryReceipts,assertIntegrity,hfaults,Valid,bind,Except.bind]

variable {scope : Option String}

theorem queryReceipts_subset {rows : List Row} {receiptType parent : Option String} {limit : ℤ} {all : Bool}
    {found : List Row} (h : queryReceipts env rows receiptType scope limit all parent = .ok found) : found ⊆ rows := by
  simp only [queryReceipts,bind,Except.bind] at h
  split at h
  · cases h
  · split at h
    · cases h
    · cases h
      intro r hr
      exact List.mem_of_mem_filter ((mem_insertionSort _).mp (List.mem_of_mem_take hr))

theorem exportManifest_shows {rows : List Row} {includePayload : Bool}
    (h : exportManifest env rows scope includePayload = .ok m) : ∃ (includePayload : Bool) (shown : List Row), shown ⊆ rows ∧
      m = manifestOf env (shown.map fun r => .obj (exportItem includePayload r)) := by
  simp only [exportManifest,bind,Except.bind] at h
  split at h
  · cases h
  · rename_i found hquery
    cases h
    refine ⟨includePayload,_,?_,rfl⟩
    intro r hr
    exact queryReceipts_subset hquery ((mem_insertionSort _).mp hr)

theorem exported_perm {rows : List Row} (h : rows.length ≤ 100000) : (exported rows).Perm rows := by
  have hsort := List.perm_insertionSort (fun a b : Row => b.sequence ≤ a.sequence) rows
  unfold exported
  rw [List.take_of_length_le (hsort.length_eq ▸ h)]
  exact (List.perm_insertionSort _ _).trans hsort

theorem exported_subset (rows : List Row) : exported rows ⊆ rows := by
  intro r hr
  have htake := (mem_insertionSort _).mp hr
  exact (mem_insertionSort _).mp (List.mem_of_mem_take htake)

theorem exported_sorted (rows : List Row) : (exported rows).Pairwise exportLe := List.pairwise_insertionSort _ _

theorem exported_length (rows : List Row) : (exported rows).length ≤ 100000 := by
  unfold exported
  rw [List.length_insertionSort,List.length_take]
  exact Nat.min_le_left _ _

theorem group_exported {rows : List Row} (hrows : Numbered rows) (h : rows.length ≤ 100000) (scope : String) :
    group Row.scope (exported rows) scope = group Row.scope rows scope := by
  have hstrict := hrows.strict scope
  have hinj : ∀ a ∈ scopeRows rows scope, ∀ b ∈ scopeRows rows scope, a.sequence = b.sequence → a = b :=
    List.inj_on_of_nodup_map (List.pairwise_map.mpr (hstrict.imp fun hlt => ne_of_lt hlt))
  have hperm := (exported_perm h).filter fun r => decide (r.scope = scope)
  refine List.Perm.eq_of_pairwise ?_ ((exported_sorted rows).filter _) ?_ hperm
  · intro a b ha hb hab hba
    have hsame : a.scope = b.scope := (mem_group.mp ha).2.trans (mem_group.mp hb).2.symm
    refine hinj a (hperm.subset ha) b hb ?_
    rcases hab with hab | ⟨-,hab⟩
    · exact absurd hsame (ne_of_lt hab)
    · rcases hba with hba | ⟨-,hba⟩
      · exact absurd hsame.symm (ne_of_lt hba)
      · omega
  · refine hstrict.imp_of_mem (fun ha hb hlt => .inr ⟨?_,.inl hlt⟩)
    exact (mem_group.mp ha).2.trans (mem_group.mp hb).2.symm

theorem sortedItems_exported {rows : List Row} (h : rows.Pairwise exportLe) :
    sortedItems env (rows.map fun r => .obj (exportItem true r)) = some (rows.map fun r => .obj (exportItem true r)) := by
  have hkeyed : (rows.map fun r => Json.obj (exportItem true r)).mapM (fun item => (itemKey env item).map fun k => (k,item))
      = some (rows.map fun r => ((r.scope,r.sequence),Json.obj (exportItem true r))) := by
    clear h
    induction rows with
    | nil => rfl
    | cons r rest ih => simp [itemKey_exportItem,ih]
  have hsorted : (rows.map fun r => ((r.scope,r.sequence),Json.obj (exportItem true r))).Pairwise keyLe := by
    refine List.pairwise_map.mpr (h.imp fun hle => ?_)
    rcases hle with hlt | ⟨hsame,hseq⟩
    · exact .inl hlt
    · refine .inr ⟨hsame,?_⟩
      dsimp only
      omega
  unfold sortedItems
  rw [hkeyed,Option.map_some,hsorted.insertionSort_eq,List.map_map]
  rfl

theorem importManifest_manifestOfRows {rows : List Row} (h : rows.Pairwise exportLe) (held : List Row) :
    importManifest env false held (.obj (manifestOfRows env rows)) = importItems env
    (rows.map fun r => .obj (exportItem true r)) held := by
  simp [importManifest,manifestOfRows,manifestOf,pyStr,getField,lookup_cons,sortedItems_exported h]

end Export

section Import
variable {env : Env} {rows held : List Row}

abbrev Part (held rows : List Row) : Prop := Grouped.Part Row.scope held rows

variable {a b : Row}

theorem Apart.symm (h : Apart a b) : Apart b a := by
  refine ⟨fun hid => h.1 hid.symm,fun ⟨hkey,hscope,hsame⟩ => h.2 ⟨?_,hscope.symm,hsame.symm⟩⟩
  rwa [hsame]

instance : Std.Symm Apart := ⟨fun _ _ => Apart.symm⟩

theorem Filled.apart_of_ne (h : Filled rows) (ha : a ∈ rows) (hb : b ∈ rows) (hne : a ≠ b) : Apart a b :=
  h.apart.forall ha hb hne

theorem Filled.eq_of_receiptId (h : Filled rows) (ha : a ∈ rows) (hb : b ∈ rows)
    (hid : a.receiptId = b.receiptId) : a = b := by
  by_contra hne
  exact (h.apart_of_ne ha hb hne).1 hid

theorem Filled.nodup (h : Filled rows) : rows.Nodup := by
  refine h.apart.imp fun hapart heq => ?_
  exact hapart.1 (congrArg Row.receiptId heq)

theorem Part.numbered (hpart : Part held rows) (h : Numbered rows) : Numbered held := by
  intro scope
  obtain ⟨rest,hrest⟩ : scopeRows held scope <+: scopeRows rows scope := hpart scope
  refine List.ext_getElem (by simp) fun i hi hi' => ?_
  have hlt : i < (scopeRows held scope).length := by simpa using hi
  have hlt' : i < (scopeRows rows scope).length := by
    rw [← hrest,length_append]
    omega
  have hsequence := h.getElem_sequence hlt'
  simp only [← hrest,List.getElem_append_left hlt] at hsequence
  simpa using hsequence

variable {r : Row}

theorem importItem_part (hfilled : Filled rows) (hsound : Sound env rows) (hsettled : ∀ r ∈ rows, r.Settled env)
    {front back : List Row} (hgroups : ∀ k, group Row.scope (front ++ r :: back) k = group Row.scope rows k)
    (hfront : front ⊆ held) (hpart : Part held rows) (hr : r ∈ rows) :
    (r ∈ held ∧ importItem env held (exportItem true r) = .ok (false,held)) ∨
      (Part (held ++ [r]) rows ∧ importItem env held (exportItem true r) = .ok (true,held ++ [r])) := by
  have hscopeNodup : (group Row.scope rows r.scope).Nodup := hfilled.nodup.filter _
  rcases Classical.em (r ∈ held) with hheld | hheld
  · refine .inl ⟨hheld,importItem_known hheld (hfilled.stored r hr).scope fun o ho hid _ => ?_⟩
    exact hfilled.eq_of_receiptId (hpart.subset ho) hr hid
  · have hnext := (hpart.mem_or_next hgroups hfront hscopeNodup).resolve_left hheld
    refine .inr ⟨hpart.snoc hgroups hnext,?_⟩
    have hsplit : scopeRows rows r.scope = scopeRows held r.scope ++ r :: group Row.scope back r.scope := by
      change group Row.scope rows r.scope = group Row.scope held r.scope ++ _
      rw [← hgroups,Grouped.group_append,Grouped.group_cons_self,hnext]
    have hprevious : r.previousHash = lastHash Row.recordHash none (scopeRows held r.scope) := by
      have hlinked := hsound.linked r.scope
      rw [hsplit] at hlinked
      exact hlinked.prev_eq
    have hsequence : r.sequence = ((scopeRows held r.scope).length : ℤ) + 1 := by
      have hlt : (scopeRows held r.scope).length < (scopeRows rows r.scope).length := by
        rw [hsplit,length_append,List.length_cons]
        omega
      rw [← hsound.numbered.getElem_sequence hlt]
      simp [hsplit]
    refine importItem_next (hfilled.stored r hr) (hsound.isSealed r hr) (hsettled r hr) ?_ fun o ho => ?_
    · rw [(Part.numbered hpart hsound.numbered).nextSequence,hprevious,hsequence]
    · exact hfilled.apart_of_ne (hpart.subset ho) hr fun heq => hheld (heq ▸ ho)

theorem importItems_part (hfilled : Filled rows) (hsound : Sound env rows) (hsettled : ∀ r ∈ rows, r.Settled env)
    (front back : List Row) (hgroups : ∀ k, group Row.scope (front ++ back) k = group Row.scope rows k)
    (hfront : front ⊆ held) (hpart : Part held rows) (hback : back ⊆ rows) :
    ∃ n full, importItems env (back.map fun r => .obj (exportItem true r)) held = .ok (n,full) ∧
      full.length = held.length + n ∧ Part full rows ∧ held <+: full ∧ back ⊆ full := by
  induction back generalizing front held with
  | nil => exact ⟨0,held,rfl,rfl,hpart,List.prefix_rfl,List.nil_subset _⟩
  | cons r rest ih =>
    have hr := hback List.mem_cons_self
    have hrest : rest ⊆ rows := fun o ho => hback (List.mem_cons_of_mem _ ho)
    have hgroups' : ∀ k, group Row.scope ((front ++ [r]) ++ rest) k = group Row.scope rows k := by
      simpa using hgroups
    rcases importItem_part hfilled hsound hsettled hgroups hfront hpart hr with ⟨hheld,hitem⟩ | ⟨hpart',hitem⟩
    · have hfront' : front ++ [r] ⊆ held := List.append_subset.mpr ⟨hfront,by simpa using hheld⟩
      obtain ⟨n,full,hloop,hlength,hfull,hkeeps,hin⟩ := ih (front ++ [r]) hgroups' hfront' hpart hrest
      refine ⟨n,full,?_,hlength,hfull,hkeeps,List.cons_subset.mpr ⟨hkeeps.subset hheld,hin⟩⟩
      simp only [map_cons,importItems,hitem,hloop,Bool.false_eq_true,if_false]
    · have hfront' : front ++ [r] ⊆ held ++ [r] := List.append_subset.mpr
        ⟨List.subset_append_of_subset_left _ hfront,List.subset_append_right _ _⟩
      obtain ⟨n,full,hloop,hlength,hfull,hkeeps,hin⟩ := ih (front ++ [r]) hgroups' hfront' hpart' hrest
      have hmem : r ∈ full := hkeeps.subset (List.mem_append_right _ List.mem_cons_self)
      refine ⟨n + 1,full,?_,?_,hfull,(List.prefix_append _ _).trans hkeeps,List.cons_subset.mpr ⟨hmem,hin⟩⟩
      · simp only [map_cons,importItems,hitem,hloop,if_true]
      · rw [hlength,length_append,List.length_singleton]
        omega

/-- Exporting the table succeeds, and importing the export completes every store that holds a
prefix of each scope, the empty store included: it adds the missing records, all of them, as
they were; the result verifies; and importing once more adds nothing. -/
def RoundTrips (env : Env) (rows : List Row) : Prop :=
  ∃ m, exportManifest env rows none true = .ok m ∧ ∀ held, Part held rows →
    ∃ full, importManifest env false held (.obj m) = .ok (rows.length - held.length,full) ∧
      held <+: full ∧ full.Perm rows ∧ (∀ scope : Option String, scope.all validScope = true → Valid env full scope) ∧
      importManifest env false full (.obj m) = .ok (0,full)

variable {full : List Row}

theorem sound_of_perm (hsound : Sound env rows) (hpart : Part full rows) (hperm : full.Perm rows) :
    Sound env full := by
  refine ⟨Part.numbered hpart hsound.numbered,fun r hr => hsound.isSealed r (hperm.subset hr),fun scope => ?_⟩
  obtain ⟨rest,hrest⟩ : scopeRows full scope <+: scopeRows rows scope := hpart scope
  have hlinked := hsound.linked scope
  rw [← hrest,HashChain.linked_append] at hlinked
  exact hlinked.1

theorem importManifest_part (hfilled : Filled rows) (hsound : Sound env rows)
    (hsettled : ∀ r ∈ rows, r.Settled env) (hlength : rows.length ≤ 100000) (hpart : Part held rows) : ∃
    full, importManifest env false held (.obj (manifestOfRows env (exported rows))) = .ok
    (rows.length - held.length,full) ∧ held <+: full ∧ Part full rows ∧ full.Perm rows := by
  obtain ⟨n,full,hloop,hcount,hfull,hkeeps,hall⟩ := importItems_part hfilled hsound hsettled [] (exported rows)
    (group_exported hsound.numbered hlength) (List.nil_subset _) hpart (exported_subset rows)
  have hperm : full.Perm rows :=
    hfull.perm (fun r hr => hall ((exported_perm hlength).symm.subset hr)) fun k => hfilled.nodup.filter _
  have hn : n = rows.length - held.length := by
    have htotal := hperm.length_eq
    omega
  refine ⟨full,?_,hkeeps,hfull,hperm⟩
  rw [importManifest_manifestOfRows (exported_sorted rows),hloop,hn]

theorem roundTrips_of (hfilled : Filled rows) (hvalid : Valid env rows none) (hlength : rows.length ≤ 100000)
    (hsettled : ∀ r ∈ rows, r.Settled env) : RoundTrips env rows := by
  have hsound := sound_of_valid hfilled.numbered hvalid
  refine ⟨_,exportManifest_eq.mpr ⟨hvalid,rfl⟩,fun held hpart => ?_⟩
  obtain ⟨full,himport,hkeeps,hfull,hperm⟩ := importManifest_part hfilled hsound hsettled hlength hpart
  refine ⟨full,himport,hkeeps,hperm,fun scope hscope => (sound_of_perm hsound hfull hperm).valid hscope,?_⟩
  obtain ⟨again,hagain,hkeeps',-,hperm'⟩ := importManifest_part hfilled hsound hsettled hlength hfull
  have hsame : full = again := hkeeps'.eq_of_length (hperm.length_eq.trans hperm'.length_eq.symm)
  rw [hagain,← hsame,hperm.length_eq,Nat.sub_self]

theorem Grows.origin {P : Draft → Prop} {rows' : List Row} (h : Grows env P rows rows') (hr : r ∈ rows')
    (hnew : r ∉ rows) : ∃ d mid timestamp links, P d ∧ r = d.row env mid timestamp links := by
  induction h with
  | refl => exact absurd hr hnew
  | @write mid _ d o _ hd hinsert ih =>
    obtain ⟨links,timestamp,-,-,ho,-,rfl⟩ := insert_spec hinsert
    rcases List.mem_append.mp hr with hr | hr
    · exact ih hr
    · rw [mem_singleton] at hr
      exact ⟨d,mid,timestamp,links,hd,hr.trans ho⟩

variable {n : ℕ}

theorem importItems_count {items : List Json} (h : importItems env items held = .ok (n,full)) :
    n ≤ items.length := by
  induction items generalizing held n with
  | nil =>
    cases h
    exact le_refl _
  | cons item rest ih =>
    cases item with
    | obj fields =>
      unfold importItems at h
      split at h
      · cases h
      · split at h
        · cases h
        · rename_i hrest
          cases h
          have hle := ih hrest
          rw [List.length_cons]
          split <;> omega
    | scalar s => cases h
    | arr xs => cases h

theorem settled_of_import (hfilled : Filled rows) {m : Json} (hitems : manifestItems m = (exported rows).map fun r => .obj (exportItem true r))
    (himport : importManifest env false [] m = .ok (n,full)) (hperm : full.Perm rows)
    (hr : r ∈ rows) : r.Settled env := by
  obtain ⟨d,mid,timestamp,links,⟨fields,hfields,hdraft,-,hid,hscope,-⟩,hrow⟩ :=
    (importManifest_grows himport).origin (hperm.symm.subset hr) List.not_mem_nil
  rw [hitems] at hfields
  obtain ⟨o,ho,hobj⟩ := List.mem_map.mp hfields
  cases hobj
  have hid' : d.receiptId = o.receiptId := hid
  have hscope' : d.scope = o.scope := hscope
  have hsame : r = o := hfilled.eq_of_receiptId hr (exported_subset rows ho) ((congrArg Row.receiptId hrow).trans hid')
  subst hsame
  obtain ⟨payload,hpayload,-⟩ := (hfilled.stored r hr).payload
  intro provenance hprovenance
  rw [hid',hscope',itemDraft_exportItem hpayload hprovenance,Except.ok.injEq] at hdraft
  have hstored : r.provenance = (Json.obj d.provenance).canon := congrArg Row.provenance hrow
  rw [hstored,← hdraft]
  rfl

/-- The export of a reachable store, of any size, brings the whole store back exactly when
the store verifies, has at most a hundred thousand records, and no provenance changes when
it is redacted again. -/
theorem export_import_round_trip (env : Env) (calls : List Call) : RoundTrips env (runCalls env calls) ↔
    Valid env (runCalls env calls) none ∧ (runCalls env calls).length ≤ 100000 ∧ ∀ r ∈ runCalls env calls,
    r.Settled env := by
  have hfilled := runCalls_filled env calls
  constructor
  · rintro ⟨m,hexport,htrip⟩
    obtain ⟨hvalid,rfl⟩ := exportManifest_eq.mp hexport
    obtain ⟨full,himport,-,hperm,-⟩ := htrip [] (Grouped.Part.nil _)
    refine ⟨hvalid,?_,fun r hr => settled_of_import hfilled rfl himport hperm hr⟩
    rw [importManifest_manifestOfRows (exported_sorted _)] at himport
    have hcount := importItems_count himport
    have hmost := exported_length (runCalls env calls)
    simp only [List.length_map,List.length_nil,Nat.sub_zero] at hcount
    omega
  · rintro ⟨hvalid,hlength,hsettled⟩
    exact roundTrips_of hfilled hvalid hlength hsettled

end Import

def linkedPut : PutArgs where
  receiptType := "decision"
  scope := "s"
  payload := []
  provenance := some [("source",.str "http://h?q/r#x:y@w")]
  receiptId := some "r"

def linkedManifest : Fields := manifestOfRows plainEnv (exported (runCalls plainEnv [.putReceipt false linkedPut]))

/-- The record is stored and exported, and its import into an empty store fails. -/
theorem redacted_again_refused : exportManifest plainEnv (runCalls plainEnv [.putReceipt false linkedPut])
    none true = .ok linkedManifest ∧ importManifest plainEnv false [] (.obj linkedManifest) = .error
    .integrity ∧ ¬ RoundTrips plainEnv (runCalls plainEnv [.putReceipt false linkedPut]) := by
  have hvalid : Valid plainEnv (runCalls plainEnv [.putReceipt false linkedPut]) none := by decide +kernel
  have hrefused : importManifest plainEnv false [] (.obj linkedManifest) = .error .integrity := by decide +kernel
  refine ⟨exportManifest_eq.mpr ⟨hvalid,rfl⟩,hrefused,?_⟩
  rintro ⟨m,hexport,htrip⟩
  obtain ⟨-,rfl⟩ := exportManifest_eq.mp hexport
  obtain ⟨full,himport,-⟩ := htrip [] (Grouped.Part.nil _)
  rw [show manifestOfRows plainEnv (exported (runCalls plainEnv [.putReceipt false linkedPut])) = linkedManifest from rfl,
    hrefused] at himport
  cases himport

end Verdict.ReceiptStore

import Verdict.Basics.Newest
import Verdict.ReceiptStore.Lifecycle

/-! # Retention

`apply_retention` reads one page of a scope, its newest hundred thousand visible records,
tombstones included, and retires those of them that are too old. The walks that must see a
whole scope go on from page to page.
-/
namespace Verdict.ReceiptStore
open HashChain (Linked lastHash)
open Newest (newest)
open List (filter_filter find?_some map_cons mem_filter mem_map range replicate)

section
variable {env : Env}

def ScopeSound (env : Env) (rows : List Row) (scope : String) : Prop :=
  Linked Row.recordHash Row.previousHash none (scopeRows rows scope) ∧ ∀ r ∈ scopeRows rows scope, r.Sealed env

variable {scope : String}

theorem scopeSound_iff {rows : List Row} (h : Numbered rows) :
    ¬ Broken env rows scope ↔ ScopeSound env rows scope := by
  rw [not_broken_iff,h.iterChainRecords,chainFaults_eq_nil]
  exact and_congr_right fun _ => forall₂_congr fun r hr => and_iff_left (h.one_le hr)

variable {rows' : List Row}

theorem scopeSound_insert {rows : List Row} {d : Draft} {r : Row} (h : Numbered rows) (hd : d.Plain)
    (hinsert : insert env rows d = .ok (r,rows')) (scope : String) :
    ScopeSound env rows' scope ↔ ScopeSound env rows scope := by
  obtain ⟨links,timestamp,hlinks,htimestamp,rfl,-,rfl⟩ := insert_spec hinsert
  unfold ScopeSound
  rw [scopeRows_append]
  split
  · rename_i hscope
    have hprevious : (d.row env rows timestamp links).previousHash = lastHash Row.recordHash none (scopeRows rows scope) := by
      change (ReceiptStore.nextSequence rows d.scope).2 = _
      rw [h.nextSequence,show d.scope = scope from hscope]
    have hsealed : (d.row env rows timestamp links).Sealed env := hd.sealed hlinks htimestamp
    rw [HashChain.linked_append,List.forall_mem_append]
    simp [Linked,hprevious,hsealed]
  · rw [List.append_nil]

theorem Grows.scopeSound_iff {rows : List Row} (h : Grows env Draft.Plain rows rows') (hrows : Numbered rows)
    (scope : String) : ScopeSound env rows' scope ↔ ScopeSound env rows scope := by
  induction h with
  | refl => rfl
  | write hbefore hd hinsert ih => exact (scopeSound_insert (hbefore.numbered hrows) hd hinsert scope).trans ih

theorem mem_scopes {rows : List Row} : scope ∈ scopes rows ↔ ∃ r ∈ rows, r.scope = scope := by
  rw [scopes,List.mem_insertionSort,List.mem_dedup,mem_map]

theorem valid_iff_scopeSound {rows : List Row} (h : Numbered rows) {scope : Option String} : Valid env rows
    scope ↔ scope.all validScope = true ∧ ∀ s, (∀ t ∈ scope, t = s) → ScopeSound env rows s := by
  rw [valid_iff]
  refine and_congr_right fun _ => ?_
  cases scope with
  | some t => simp [verifiedScopes,ReceiptStore.scopeSound_iff h]
  | none =>
    simp only [verifiedScopes,ReceiptStore.scopeSound_iff h,mem_scopes,Option.not_mem_none,false_imp_iff,implies_true,
      forall_const]
    refine ⟨fun hall s => ?_,fun hall s _ => hall s⟩
    by_cases hs : ∃ r ∈ rows, r.scope = s
    · exact hall s hs
    · have hempty : scopeRows rows s = [] := List.filter_eq_nil_iff.mpr (fun r hr hrs => hs ⟨r,hr,by simpa using hrs⟩)
      simp [ScopeSound,hempty,Linked]

theorem Grows.valid_iff {rows : List Row} (h : Grows env Draft.Plain rows rows') (hrows : Numbered rows)
    (scope : Option String) : Valid env rows' scope ↔ Valid env rows scope := by
  rw [valid_iff_scopeSound hrows,valid_iff_scopeSound (h.numbered hrows)]
  simp only [h.scopeSound_iff hrows]

end

section
variable {env : Env}

/-- Some default read returns the record: `get_receipt` or `query_receipts`, asked in whatever way. -/
def Shown (env : Env) (rows : List Row) (r : Row) : Prop :=
  (∃ receiptId scope, getReceipt env rows receiptId scope false = .ok (some r)) ∨
    ∃ receiptType scope limit parentReceiptId found,
      queryReceipts env rows receiptType scope limit false parentReceiptId = .ok found ∧ r ∈ found

variable {scope : Option String}

theorem getReceipt_ok {rows : List Row} {receiptId : String} {found : Option Row} :
    getReceipt env rows receiptId scope false = .ok found ↔ Valid env rows scope ∧ fetchOne rows
    (fun r => decide (r.receiptId = receiptId) && scope.all (r.scope = ·) && !buried rows r) = found := by
  unfold getReceipt assertIntegrity Valid
  cases verifyIntegrity env rows scope with
  | error e => simp [bind,Except.bind]
  | ok faults => cases faults <;> simp [bind,Except.bind,pure,Except.pure]

theorem queryReceipts_ok {rows : List Row} {receiptType parent : Option String} {limit : ℤ} {found : List Row} :
    queryReceipts env rows receiptType scope limit false parent = .ok found ↔
      (1 ≤ limit ∧ limit ≤ 100000) ∧ Valid env rows scope ∧
        newest Row.sequence limit.toNat (rows.filter (fun r => receiptType.all (r.receiptType = ·) && scope.all (r.scope = ·)
          && parent.all (r.links.parentReceiptId = some ·) && !buried rows r)) = found := by
  unfold queryReceipts assertIntegrity Valid
  split
  · rename_i hlimit
    refine iff_of_false (by simp) fun h => ?_
    omega
  · rename_i hlimit
    have hbounds : 1 ≤ limit ∧ limit ≤ 100000 := by omega
    rw [and_iff_right hbounds]
    cases verifyIntegrity env rows scope with
    | error e => simp [bind,Except.bind]
    | ok faults => cases faults <;> simp [bind,Except.bind,pure,Except.pure,newest]

theorem shown_iff {rows : List Row} (h : Filled rows) {r : Row} (hr : r ∈ rows) :
    Shown env rows r ↔ buried rows r = false ∧ (Valid env rows (some r.scope) ∨ Valid env rows none) := by
  have hselected : ∀ {scope : Option String}, Valid env rows scope → scope.all (r.scope = ·) = true →
      Valid env rows (some r.scope) ∨ Valid env rows none := by
    intro scope hvalid hscope
    cases scope with
    | none => exact .inr hvalid
    | some s =>
      have hsame : r.scope = s := by simpa using hscope
      exact .inl (hsame ▸ hvalid)
  constructor
  · rintro (⟨receiptId,scope,hget⟩ | ⟨receiptType,scope,limit,parent,found,hquery,hmem⟩)
    · obtain ⟨hvalid,hfound⟩ := getReceipt_ok.mp hget
      have hall := find?_some hfound
      simp only [Bool.and_eq_true,Bool.not_eq_true'] at hall
      exact ⟨hall.2,hselected hvalid hall.1.2⟩
    · obtain ⟨-,hvalid,rfl⟩ := queryReceipts_ok.mp hquery
      have hall := (mem_filter.mp (Newest.newest_subset _ _ hmem)).2
      simp only [Bool.and_eq_true,Bool.not_eq_true'] at hall
      exact ⟨hall.2,hselected hvalid hall.1.1.2⟩
  · rintro ⟨hburied,hvalid⟩
    have hread : ∀ scope : Option String, scope.all (r.scope = ·) = true → Valid env rows scope → Shown env rows r := by
      intro scope hscope hvalid
      refine .inl ⟨r.receiptId,scope,getReceipt_ok.mpr ⟨hvalid,?_⟩⟩
      cases hfound : fetchOne rows (fun o => decide (o.receiptId = r.receiptId) && scope.all (o.scope = ·) && !buried rows o) with
      | none => exact absurd (List.find?_eq_none.mp hfound r hr) (by simp [hscope,hburied])
      | some o =>
        have hall := find?_some hfound
        simp only [Bool.and_eq_true,decide_eq_true_eq] at hall
        exact congrArg some (h.eq_of_receiptId (List.mem_of_find?_eq_some hfound) hr hall.1.1)
    rcases hvalid with hvalid | hvalid
    · exact hread (some r.scope) (by simp) hvalid
    · exact hread none rfl hvalid

end

section Retire
variable {env : Env}
variable {r : Row}

theorem buried_iff {rows : List Row} :
    buried rows r = true ↔ ∃ t ∈ rows, t.links.tombstoneFor = some r.receiptId := by
  unfold buried
  rw [List.any_eq_true]
  simp only [decide_eq_true_eq]

variable {rows' : List Row}

theorem buried_of_front {rows : List Row} (h : rows <+: rows') (hburied : buried rows r = true) :
    buried rows' r = true := by
  obtain ⟨t,ht,hfor⟩ := buried_iff.mp hburied
  exact buried_iff.mpr ⟨t,h.subset ht,hfor⟩

variable {scope : String}

theorem tombstoneOne_buried {refused : Bool} {rows : List Row} {receiptId reason uuid : String} {now : ℚ}
    {t : Row} (h : tombstoneOne env refused rows receiptId scope reason uuid now = .ok (t,rows')) (r : Row) :
    buried rows' r = true ↔ buried rows r = true ∨ r.receiptId = receiptId := by
  unfold tombstoneOne at h
  split at h
  · cases h
  · split at h
    · cases h
    · split at h
      · rename_i existing hexisting
        cases h
        refine ⟨.inl,fun hor => hor.elim id fun hid => ?_⟩
        have hfound := find?_some hexisting
        simp only [Bool.and_eq_true,decide_eq_true_eq] at hfound
        exact buried_iff.mpr ⟨_,List.mem_of_find?_eq_some hexisting,hid ▸ hfound.1⟩
      · obtain ⟨links,timestamp,hlinks,-,rfl,-,rfl⟩ := insert_spec h
        have hfor : links.tombstoneFor = some receiptId := by
          rw [tombstoneDraft,links_stored_optText,Option.some.injEq] at hlinks
          rw [← hlinks]
        simp only [buried_iff,List.mem_append,List.mem_singleton,or_and_right,exists_or,exists_eq_left]
        refine or_congr_right ?_
        change links.tombstoneFor = some r.receiptId ↔ _
        rw [hfor,Option.some.injEq]
        exact eq_comm

variable {a : RetentionArgs} {removed : List String}

theorem retire_buried {i : ℕ} {targets : List Row} {done : List String}
    {rows : List Row} (h : (retire env a i targets removed rows).1 = .ok done) (r : Row) : buried
    (retire env a i targets removed rows).2 r = true ↔ buried rows r = true ∨ ∃ t ∈ targets, t.isTombstone =
    false ∧ r.receiptId = t.receiptId := by
  induction targets generalizing i removed rows with
  | nil => simp [retire]
  | cons t rest ih =>
    unfold retire at h ⊢
    rw [List.exists_mem_cons_iff]
    cases htomb : t.isTombstone with
    | true =>
      rw [if_pos htomb] at h
      rw [if_pos rfl]
      simpa using ih h
    | false =>
      rw [if_neg (by simp [htomb])] at h ⊢
      cases hone : tombstoneOne env (decide (a.refusedAfter = some i)) rows t.receiptId a.scope "retention" (a.uuids i)
          (a.times i) with
      | error e =>
        rw [hone] at h
        cases h
      | ok result =>
        obtain ⟨row,mid⟩ := result
        rw [hone] at h
        rw [ih h,tombstoneOne_buried hone r,or_assoc]
        simp

def RetentionArgs.Due (a : RetentionArgs) (r : Row) : Prop :=
  r.scope = a.scope ∧ r.isTombstone = false ∧ r.timestamp.before (a.now - a.maxAgeSeconds) = true

/-- The visible records of the scope that stand behind `r`. -/
def newerVisible (rows : List Row) (scope : String) (r : Row) : List Row :=
  rows.filter fun o => o.scope = scope && !buried rows o && r.sequence < o.sequence

theorem mem_page {rows found : List Row} (hfilled : Filled rows)
    (h : queryReceipts env rows none (some scope) 100000 false none = .ok found) :
    r ∈ found ↔ r ∈ rows ∧ (r.scope = scope ∧ buried rows r = false) ∧ (newerVisible rows scope r).length < 100000 := by
  obtain ⟨-,-,hfound⟩ := queryReceipts_ok.mp h
  have hdistinct : (rows.filter fun o => o.scope = scope && !buried rows o).Pairwise
      (fun a b => a.sequence ≠ b.sequence) := by
    have hstrict := (hfilled.numbered.strict scope).imp fun hlt => ne_of_lt hlt
    refine hstrict.sublist ?_
    rw [← filter_filter,List.filter_comm]
    exact List.filter_sublist
  have hnewer : newerVisible rows scope r = (rows.filter fun o => o.scope = scope && !buried rows o).filter
      (fun o => r.sequence < o.sequence) := by
    rw [filter_filter]
    exact List.filter_congr fun o _ => Bool.and_comm _ _
  rw [← hfound,hnewer]
  simp only [Option.all_none,Option.all_some,Bool.true_and,Bool.and_true]
  rw [Newest.mem_newest_iff hdistinct,mem_filter,and_assoc]
  simp

theorem applyRetention_buried {rows : List Row} (hfilled : Filled rows)
    (h : (applyRetention env rows a).1 = .ok removed) : Valid env rows (some a.scope) ∧ ∀ r ∈ rows,
      (buried (applyRetention env rows a).2 r = true ↔
        buried rows r = true ∨ a.Due r ∧ (newerVisible rows a.scope r).length < 100000) := by
  unfold applyRetention at h ⊢
  split at h
  · cases h
  · rename_i hage
    rw [if_neg hage]
    cases hquery : queryReceipts env rows none (some a.scope) 100000 false none with
    | error e =>
      rw [hquery] at h
      cases h
    | ok found =>
      rw [hquery] at h
      refine ⟨(queryReceipts_ok.mp hquery).2.1,fun r hr => ?_⟩
      rw [retire_buried h r]
      cases hburied : buried rows r with
      | true => simp
      | false =>
        simp only [Bool.false_eq_true,false_or]
        constructor
        · rintro ⟨t,ht,htomb,hid⟩
          obtain ⟨hmem,hold⟩ := mem_filter.mp ht
          obtain ⟨htable,⟨hscope,-⟩,hlength⟩ := (mem_page hfilled hquery).mp hmem
          have hsame : r = t := hfilled.eq_of_receiptId hr htable hid
          subst hsame
          exact ⟨⟨hscope,htomb,hold⟩,hlength⟩
        · rintro ⟨⟨hscope,htomb,hold⟩,hlength⟩
          have hmem := (mem_page hfilled hquery).mpr ⟨hr,⟨hscope,hburied⟩,hlength⟩
          exact ⟨r,mem_filter.mpr ⟨hmem,hold⟩,htomb,rfl⟩

def afterCalls (env : Env) (rows : List Row) (calls : List Call) : List Row :=
  calls.foldl (fun rows c => (c.run env rows).2) rows

theorem afterCalls_keeps (env : Env) (rows : List Row) (calls : List Call) : rows <+: afterCalls env rows calls := by
  induction calls generalizing rows with
  | nil => exact List.prefix_rfl
  | cons c calls ih => exact (c.run_grows env rows).keeps.trans (ih _)

theorem afterCalls_filled {rows : List Row} (h : Filled rows) (calls : List Call) : Filled (afterCalls env rows calls) := by
  induction calls generalizing rows with
  | nil => exact h
  | cons c calls ih => exact ih (c.filled h)

/-- The records that are due are hidden, the others are seen as before, and whatever is
buried stays hidden. -/
structure RetentionArgs.Complete (env : Env) (a : RetentionArgs) (rows rows' : List Row) : Prop where
  hidden : ∀ r ∈ rows', a.Due r → ¬ Shown env rows' r
  others : ∀ r ∈ rows, ¬ a.Due r → (Shown env rows' r ↔ Shown env rows r)
  lasting : ∀ r ∈ rows', buried rows' r = true → ∀ calls, ¬ Shown env (afterCalls env rows' calls) r

/-- Every visible record that is due is among the newest hundred thousand visible ones. -/
def RetentionArgs.Fits (a : RetentionArgs) (rows : List Row) : Prop :=
  ∀ r ∈ rows, a.Due r → buried rows r = false → (newerVisible rows a.scope r).length < 100000

theorem complete_iff_fits {rows : List Row} (hfilled : Filled rows)
    (h : (applyRetention env rows a).1 = .ok removed) :
    a.Complete env rows (applyRetention env rows a).2 ↔ a.Fits rows := by
  obtain ⟨hvalid,hburied⟩ := applyRetention_buried hfilled h
  have hmarks : Grows env Draft.Marks rows (applyRetention env rows a).2 := applyRetention_grows rows a
  have hgrows := hmarks.mono fun _ hd => hd.1
  have hfilled' := (hgrows.mono fun d hd => hd.scope).filled hfilled
  have hshown : ∀ r ∈ rows, (Shown env (applyRetention env rows a).2 r ↔
      buried (applyRetention env rows a).2 r = false ∧ (Valid env rows (some r.scope) ∨ Valid env rows none)) := by
    intro r hr
    rw [shown_iff hfilled' (hgrows.keeps.subset hr),hgrows.valid_iff hfilled.numbered,hgrows.valid_iff hfilled.numbered]
  constructor
  · intro hcomplete r hr hdue hvisible
    by_contra hlength
    refine hcomplete.hidden r (hgrows.keeps.subset hr) hdue ((hshown r hr).mpr ⟨?_,.inl (hdue.1 ▸ hvalid)⟩)
    rw [← Bool.not_eq_true,hburied r hr]
    simp [hvisible,hlength]
  · intro hfits
    refine ⟨fun r hr hdue => ?_,fun r hr hfresh => ?_,fun r hr hburied' calls => ?_⟩
    · by_cases hold : r ∈ rows
      · rw [hshown r hold,← Bool.not_eq_true,hburied r hold]
        cases hvisible : buried rows r with
        | true => simp
        | false => simp [hdue,hfits r hold hdue hvisible]
      · obtain ⟨d,mid,timestamp,links,hd,rfl⟩ := hmarks.origin hr hold
        have htomb : (d.row env mid timestamp links).isTombstone = true := by simp [Row.isTombstone,Draft.row,hd.2]
        exact absurd hdue.2.1 (by simp [htomb])
    · have hsame : buried (applyRetention env rows a).2 r = buried rows r := by
        rw [Bool.eq_iff_iff,hburied r hr]
        simp [hfresh]
      rw [hshown r hr,shown_iff hfilled hr,hsame]
    · have hkeeps := afterCalls_keeps env (applyRetention env rows a).2 calls
      rw [shown_iff (afterCalls_filled hfilled' calls) (hkeeps.subset hr)]
      simp [buried_of_front hkeeps hburied']

/-- In every reachable store, a retention that returns hides what is due and nothing else,
for good, exactly when every visible record that is due is among the newest hundred
thousand visible records of its scope. -/
theorem retention_complete_iff (env : Env) (calls : List Call) (a : RetentionArgs) (removed : List String)
    (h : (applyRetention env (runCalls env calls) a).1 = .ok removed) :
    a.Complete env (runCalls env calls) (applyRetention env (runCalls env calls) a).2 ↔ a.Fits (runCalls env calls) :=
  complete_iff_fits (runCalls_filled env calls) h

end Retire

/-- The `i`-th note; the first one is ten seconds older than the others. -/
def notePut (i : ℕ) : PutArgs where
  receiptType := "decision"
  scope := "s"
  payload := []
  uuid := String.ofList (replicate i 'x')
  now := if i = 0 then 0 else 10

def notes (n : ℕ) : List Call := (range n).map fun i => .putReceipt false (notePut i)

def pruneNotes : RetentionArgs where
  scope := "s"
  maxAgeSeconds := 5
  now := 10

/-- The row of the `i`-th note, behind those before it. -/
def noteRow (i : ℕ) : Row :=
  ((notePut i).draft plainEnv).row plainEnv (runCalls plainEnv (notes i)) (.finite (notePut i).now) (notePut i).links

theorem noteId_injective {i j : ℕ} (h : (noteRow i).receiptId = ((notePut j).draft plainEnv).receiptId) : i = j := by
  have hid : "rcpt-" ++ String.ofList (replicate i 'x') = "rcpt-" ++ String.ofList (replicate j 'x') := h
  rw [String.append_right_inj] at hid
  simpa using congrArg (fun text => text.toList.length) hid

theorem runCalls_notes (n : ℕ) : runCalls plainEnv (notes n) = (range n).map noteRow := by
  induction n with
  | zero => rfl
  | succ n ih =>
    have hwrites : (notePut n).Writes plainEnv false (runCalls plainEnv (notes n)) := by
      refine ⟨show validScope "s" = true by decide,⟨by simp [notePut],by simp [notePut]⟩,rfl,
        show "decision" ∈ receiptTypes by decide,fun o ho heq => ?_,fun k hk => by cases hk⟩
      rw [ih] at ho
      obtain ⟨i,hi,rfl⟩ := mem_map.mp ho
      exact absurd (noteId_injective heq) (ne_of_lt (List.mem_range.mp hi))
    have hlast : notes (n + 1) = notes n ++ [.putReceipt false (notePut n)] := by simp [notes,List.range_succ]
    rw [List.range_succ,List.map_append,← ih,hlast,runCalls,List.foldl_append,← runCalls]
    simp only [List.foldl_cons,List.foldl_nil,Call.run,hwrites.result,committed,map_cons,List.map_nil,noteRow]

variable {n : ℕ} {r : Row}

theorem notes_plain (hr : r ∈ runCalls plainEnv (notes n)) : r.isTombstone = false := by
  rw [runCalls_notes] at hr
  obtain ⟨i,-,rfl⟩ := mem_map.mp hr
  rfl

theorem notes_valid (n : ℕ) : Valid plainEnv (runCalls plainEnv (notes n)) (some "s") := by
  have htextual : ∀ (indices : List ℕ) (rows : List Row), Run.AllSteps (nextRows plainEnv)
      (fun rows c => c.Textual plainEnv rows) rows (indices.map fun i => .putReceipt false (notePut i)) := by
    intro indices
    induction indices with
    | nil => exact fun _ => trivial
    | cons i indices ih => exact fun rows => ⟨trivial,fun rows' _ => ih rows'⟩
  exact (runCalls_sound plainEnv (htextual (range n) [])).valid (show validScope "s" = true by decide)

theorem notes_due (hr : r ∈ runCalls plainEnv (notes n)) : pruneNotes.Due r ↔ r = noteRow 0 := by
  rw [runCalls_notes] at hr
  obtain ⟨i,-,rfl⟩ := mem_map.mp hr
  have htomb : (noteRow i).isTombstone = false := rfl
  have hold : (noteRow i).timestamp.before (10 - 5) = decide (i = 0) := by
    change decide ((if i = 0 then (0 : ℚ) else 10) < 10 - 5) = _
    split
    · rename_i hi
      rw [decide_eq_true hi]
      decide +kernel
    · rename_i hi
      rw [decide_eq_false hi]
      decide +kernel
  have hdue : pruneNotes.Due (noteRow i) ↔ i = 0 := by
    refine ⟨fun h => ?_,fun hi => ⟨rfl,htomb,hold.trans (decide_eq_true hi)⟩⟩
    exact of_decide_eq_true (hold.symm.trans h.2.2)
  rw [hdue]
  exact ⟨fun h => h ▸ rfl,noteId_injective ∘ congrArg Row.receiptId⟩

theorem notes_newer (n : ℕ) : buried (runCalls plainEnv (notes (n + 1))) (noteRow 0) = false ∧
    (newerVisible (runCalls plainEnv (notes (n + 1))) "s" (noteRow 0)).length = n := by
  have hrows := runCalls_notes (n + 1)
  have hlinks : ∀ o ∈ runCalls plainEnv (notes (n + 1)), o.scope = "s" ∧ o.links.tombstoneFor = none := by
    intro o ho
    rw [hrows] at ho
    obtain ⟨i,-,rfl⟩ := mem_map.mp ho
    exact ⟨rfl,rfl⟩
  have hvisible : ∀ r, buried (runCalls plainEnv (notes (n + 1))) r = false := by
    intro r
    rw [← Bool.not_eq_true,buried_iff]
    rintro ⟨t,ht,hfor⟩
    rw [(hlinks t ht).2] at hfor
    cases hfor
  refine ⟨hvisible _,?_⟩
  have hscope : scopeRows (runCalls plainEnv (notes (n + 1))) "s" = noteRow 0 :: ((range n).map Nat.succ).map noteRow := by
    rw [scopeRows,List.filter_eq_self.mpr fun o ho => by simpa using (hlinks o ho).1,hrows,List.range_succ_eq_map,map_cons]
  have hstrict := (runCalls_filled plainEnv (notes (n + 1))).numbered.strict "s"
  have hnewer : newerVisible (runCalls plainEnv (notes (n + 1))) "s" (noteRow 0)
      = (scopeRows (runCalls plainEnv (notes (n + 1))) "s").filter fun o => (noteRow 0).sequence < o.sequence := by
    rw [newerVisible,scopeRows,filter_filter]
    refine List.filter_congr fun o _ => ?_
    rw [hvisible o,Bool.not_false,Bool.and_true,Bool.and_comm]
  rw [hscope] at hstrict hnewer
  rw [hnewer,List.filter_cons_of_neg (by simp),List.filter_eq_self.mpr ?_]
  · simp
  · intro o ho
    simpa using (List.pairwise_cons.mp hstrict).1 o ho

/-- In a store of two notes the old one is retired. -/
theorem old_note_retired : pruneNotes.Complete plainEnv (runCalls plainEnv (notes 2))
    (applyRetention plainEnv (runCalls plainEnv (notes 2)) pruneNotes).2 := by
  refine (retention_complete_iff plainEnv (notes 2) pruneNotes ["rcpt-"] (by decide +kernel)).mpr fun r _ _ _ => ?_
  have hfew := List.length_filter_le (fun o => decide (o.scope = "s") && !buried (runCalls plainEnv (notes 2)) o
    && decide (r.sequence < o.sequence)) (runCalls plainEnv (notes 2))
  have htwo : (runCalls plainEnv (notes 2)).length = 2 := by simp [runCalls_notes]
  exact (hfew.trans_eq htwo).trans_lt (by decide)

/-- Behind a hundred thousand newer notes the old one stays visible. -/
theorem old_note_stays : ∃ removed, (applyRetention plainEnv (runCalls plainEnv (notes 100001)) pruneNotes).1 = .ok removed ∧
    ¬ pruneNotes.Complete plainEnv (runCalls plainEnv (notes 100001))
      (applyRetention plainEnv (runCalls plainEnv (notes 100001)) pruneNotes).2 := by
  have hfilled := runCalls_filled plainEnv (notes 100001)
  obtain ⟨hvisible,hlength⟩ := notes_newer 100000
  have htable : noteRow 0 ∈ runCalls plainEnv (notes 100001) := by
    rw [runCalls_notes]
    exact List.mem_map_of_mem (List.mem_range.mpr (Nat.succ_pos 100000))
  have hok : ∃ removed, (applyRetention plainEnv (runCalls plainEnv (notes 100001)) pruneNotes).1 = .ok removed := by
    obtain ⟨found,hquery⟩ : ∃ found, queryReceipts plainEnv (runCalls plainEnv (notes 100001)) none (some "s") 100000 false
        none = .ok found := ⟨_,queryReceipts_ok.mpr ⟨⟨by decide,le_refl _⟩,notes_valid _,rfl⟩⟩
    have hnone : found.filter (fun r => r.timestamp.before (10 - 5)) = [] := by
      refine List.filter_eq_nil_iff.mpr fun r hr hold => ?_
      obtain ⟨hmem,⟨hscope,-⟩,hfew⟩ := (mem_page hfilled hquery).mp hr
      have hdue : r = noteRow 0 := (notes_due hmem).mp ⟨hscope,notes_plain hmem,hold⟩
      rw [hdue,hlength] at hfew
      exact lt_irrefl _ hfew
    refine ⟨[],?_⟩
    unfold applyRetention
    rw [if_neg (show ¬ pruneNotes.maxAgeSeconds < 0 by decide),show pruneNotes.scope = "s" from rfl,hquery]
    change (retire plainEnv pruneNotes 0 (found.filter fun r => r.timestamp.before (10 - 5)) [] _).1 = _
    rw [hnone]
    rfl
  obtain ⟨removed,hremoved⟩ := hok
  refine ⟨removed,hremoved,fun hcomplete => ?_⟩
  have hfits := (complete_iff_fits hfilled hremoved).mp hcomplete (noteRow 0) htable ((notes_due htable).mpr rfl) hvisible
  exact absurd hfits (by rw [show pruneNotes.scope = "s" from rfl,hlength]; exact lt_irrefl _)

section
variable (env : Env) (rows : List Row)

structure Replayed where
  (receiptId receiptType : String)
  payload : Json

def Row.replayed (r : Row) : Replayed := ⟨r.receiptId,r.receiptType,r.payload⟩

def Row.under (root : Option String) (r : Row) : Bool :=
  root.all fun id => decide (r.receiptId = id ∨ r.links.parentReceiptId = some id)

def replay (scope : String) (root : Option String) : Except StoreError (List Replayed) := do
  assertIntegrity env rows (some scope)
  let records ← queryReceipts env rows none (some scope) 100000 true none
  return ((records.filter (Row.under root)).insertionSort fun a b => a.sequence ≤ b.sequence).map Row.replayed

variable {env rows}

theorem queryReceipts_scope {scope : String} (h : Numbered rows) (hvalid : Valid env rows (some scope)) :
    queryReceipts env rows none (some scope) 100000 true none = .ok
    ((scopeRows rows scope).drop ((scopeRows rows scope).length - 100000)).reverse := by
  have hfound : rows.filter (fun r => (none : Option String).all (r.receiptType = ·) && (some scope).all (r.scope = ·)
      && (none : Option String).all (r.links.parentReceiptId = some ·) && (true || !buried rows r)) = scopeRows rows scope := by
    simp [scopeRows]
  rw [queryReceipts,if_neg (by decide),assertIntegrity,hvalid,hfound]
  exact congrArg Except.ok (Newest.newest_of_ascending (h.strict scope) 100000)

/-- Whatever was called before: a scope that verifies is replayed as its last hundred thousand records in the order
in which they were inserted, those under the root only; any other scope is refused. -/
theorem replay_in_order (calls : List Call) (scope : String) (root : Option String) :
    let kept := scopeRows (runCalls env calls) scope
    (Valid env (runCalls env calls) (some scope) → replay env (runCalls env calls) scope root =
      .ok (((kept.drop (kept.length - 100000)).filter (Row.under root)).map Row.replayed)) ∧
    (¬Valid env (runCalls env calls) (some scope) → ∃ e, replay env (runCalls env calls) scope root = .error e) := by
  have hnumbered := runCalls_numbered env calls
  refine ⟨fun hvalid => ?_,fun hbroken => ?_⟩
  · have hfalling : (((scopeRows (runCalls env calls) scope).drop ((scopeRows (runCalls env calls) scope).length - 100000)).filter
        (Row.under root)).reverse.Pairwise fun a b => ¬a.sequence ≤ b.sequence := by
      refine List.pairwise_reverse.mpr (List.Pairwise.imp not_le_of_gt ?_)
      exact (hnumbered.strict scope).sublist (List.filter_sublist.trans (List.drop_sublist _ _))
    rw [replay,assertIntegrity,hvalid,queryReceipts_scope hnumbered hvalid]
    simp only [bind,Except.bind,pure,Except.pure,List.filter_reverse]
    rw [Newest.insertionSort_of_falling hfalling,List.reverse_reverse]
  · rw [replay,assertIntegrity]
    cases hverify : verifyIntegrity env (runCalls env calls) (some scope) with
    | error e => exact ⟨e,rfl⟩
    | ok faults =>
      cases faults with
      | nil => exact absurd hverify hbroken
      | cons fault faults => exact ⟨.integrity,rfl⟩

end
end Verdict.ReceiptStore

import Mathlib.Data.List.Dedup
import Verdict.ReceiptStore.Integrity

/-! # What a verification covers

The table may hold anything, also rows that no writer made. The verifier walks a scope in
pages keyed by `sequence > last`, starting from 0. It misses the rows numbered below one,
and the rows that share the number of the last row of a page and stand behind it; readers
return them all the same.
-/
namespace Verdict.ReceiptStore
open HashChain (Linked lastHash)

section
variable {env : Env} {rows : List Row} {scope : String}

theorem chainRows_perm (rows : List Row) (scope : String) : (chainRows rows scope).Perm (scopeRows rows scope) :=
  List.perm_insertionSort _ _

theorem mem_chainRows {r : Row} : r ∈ chainRows rows scope ↔ r ∈ rows ∧ r.scope = scope := by
  rw [(chainRows_perm rows scope).mem_iff]
  simp [scopeRows]

theorem chainRows_sorted (rows : List Row) (scope : String) :
    (chainRows rows scope).Pairwise fun a b => a.sequence ≤ b.sequence :=
  List.pairwise_insertionSort (fun a b : Row => a.sequence ≤ b.sequence) _

theorem chainRows_length (rows : List Row) (scope : String) (last : ℤ) :
    ((chainRows rows scope).filter fun r => last < r.sequence).length < rows.length + 1 := by
  have hfilter := List.length_filter_le (fun r => decide (last < r.sequence)) (chainRows rows scope)
  have hperm := (chainRows_perm rows scope).length_eq
  have hscope := List.length_filter_le (fun r : Row => decide (r.scope = scope)) rows
  simp only [scopeRows] at hperm
  omega

theorem iterChainRecords_sublist (rows : List Row) (scope : String) :
    (iterChainRecords rows scope).Sublist ((chainRows rows scope).filter fun r => 0 < r.sequence) :=
  Paging.pages_sublist (chainRows_sorted rows scope) _ _

theorem mem_iterChainRecords {r : Row} (h : r ∈ iterChainRecords rows scope) :
    r ∈ rows ∧ r.scope = scope ∧ 1 ≤ r.sequence := by
  obtain ⟨hmem,hpos⟩ := List.mem_filter.mp ((iterChainRecords_sublist rows scope).subset h)
  obtain ⟨hrows,hscope⟩ := mem_chainRows.mp hmem
  simp only [decide_eq_true_eq] at hpos
  exact ⟨hrows,hscope,by omega⟩

/-- No row of the scope is numbered below one, and no page ends in front of a row with the
number of its last one. -/
structure Covered (rows : List Row) (scope : String) : Prop where
  positive : ∀ r ∈ rows, r.scope = scope → 1 ≤ r.sequence
  unsplit : Paging.Unsplit Row.sequence (chainRows rows scope) (chainPages rows scope)

theorem covered_iff : Covered rows scope ↔ ∀ r ∈ rows, r.scope = scope → r ∈ iterChainRecords rows scope := by
  have hpages : (∀ r ∈ chainRows rows scope, 0 < r.sequence → r ∈ iterChainRecords rows scope) ↔
      Paging.Unsplit Row.sequence (chainRows rows scope) (chainPages rows scope) :=
    Paging.pages_complete_iff (by decide) (chainRows_sorted rows scope) _ _ (chainRows_length rows scope 0)
  constructor
  · rintro ⟨hpositive,hunsplit⟩ r hr hscope
    have hone := hpositive r hr hscope
    exact hpages.mpr hunsplit r (mem_chainRows.mpr ⟨hr,hscope⟩) (by omega)
  · intro h
    refine ⟨fun r hr hscope => (mem_iterChainRecords (h r hr hscope)).2.2,hpages.mp fun r hr _ => ?_⟩
    obtain ⟨hrows,hscope⟩ := mem_chainRows.mp hr
    exact h r hrows hscope

/-- The walk read the row, found its hashes right and saw it linked to the row before it. -/
def Checked (env : Env) (rows : List Row) (r : Row) : Prop :=
  ∃ before after, iterChainRecords rows r.scope = before ++ r :: after ∧ r.Sealed env ∧
    r.previousHash = lastHash Row.recordHash none before

def Broken (env : Env) (rows : List Row) (scope : String) : Prop :=
  ∃ before r after, iterChainRecords rows scope = before ++ r :: after ∧
    ¬ (r.Sealed env ∧ r.previousHash = lastHash Row.recordHash none before)

theorem linked_of_prev (h : ∀ before r after, rows = before ++ r :: after → r.previousHash = lastHash Row.recordHash none before) :
    Linked Row.recordHash Row.previousHash none rows := by
  induction rows using List.reverseRecOn with
  | nil => trivial
  | append_singleton rows r ih =>
    refine (HashChain.linked_append ..).mpr ⟨ih fun before o after heq => ?_,h rows r [] rfl,trivial⟩
    exact h before o (after ++ [r]) (by simp [heq])

theorem not_broken_iff : ¬ Broken env rows scope ↔ chainFaults env none (iterChainRecords rows scope) = [] := by
  rw [chainFaults_eq_nil]
  constructor
  · intro h
    have hall : ∀ before r after, iterChainRecords rows scope = before ++ r :: after →
        r.Sealed env ∧ r.previousHash = lastHash Row.recordHash none before := by
      intro before r after heq
      by_contra hno
      exact h ⟨before,r,after,heq,hno⟩
    refine ⟨linked_of_prev fun before r after heq => (hall before r after heq).2,fun r hr => ⟨?_,(mem_iterChainRecords hr).2.2⟩⟩
    obtain ⟨before,after,heq⟩ := List.append_of_mem hr
    exact (hall before r after heq).1
  · rintro ⟨hlinked,hsealed⟩ ⟨before,r,after,heq,hno⟩
    rw [heq] at hlinked hsealed
    exact hno ⟨(hsealed r (by simp)).1,hlinked.prev_eq⟩

theorem checked_iff {r : Row} (h : ¬ Broken env rows r.scope) : Checked env rows r ↔ r ∈ iterChainRecords rows r.scope := by
  constructor
  · rintro ⟨before,after,heq,-⟩
    rw [heq]
    simp
  · intro hr
    obtain ⟨before,after,heq⟩ := List.append_of_mem hr
    have hright : r.Sealed env ∧ r.previousHash = lastHash Row.recordHash none before := by
      by_contra hno
      exact h ⟨before,r,after,heq,hno⟩
    exact ⟨before,after,heq,hright⟩

end

def verifiedScopes (rows : List Row) : Option String → List String
  | some scope => [scope]
  | none => scopes rows

theorem mem_verifiedScopes {rows : List Row} {scope : Option String} {r : Row} (hr : r ∈ rows)
    (hscope : scope.all (r.scope = ·) = true) : r.scope ∈ verifiedScopes rows scope := by
  cases scope with
  | some s => simpa [verifiedScopes] using hscope
  | none =>
    refine (List.mem_insertionSort _).mpr (List.mem_dedup.mpr ?_)
    exact List.mem_map_of_mem hr

theorem valid_iff {env : Env} {rows : List Row} {scope : Option String} :
    Valid env rows scope ↔ scope.all validScope = true ∧ ∀ s ∈ verifiedScopes rows scope, ¬ Broken env rows s := by
  cases scope with
  | none => simp [Valid,verifyIntegrity,verifiedScopes,not_broken_iff]
  | some s =>
    cases hs : validScope s with
    | true => simp [Valid,verifyIntegrity,verifiedScopes,not_broken_iff,hs]
    | false => simp [Valid,verifyIntegrity,hs]

/-- A valid report means that every row a reader can return was checked exactly when the
scope is refused, when the walk itself meets a wrong row, or when it covers the scope. -/
theorem valid_checks_iff (env : Env) (rows : List Row) (scope : Option String) :
    (Valid env rows scope → ∀ r ∈ rows, scope.all (r.scope = ·) = true → Checked env rows r) ↔
      (scope.all validScope = false ∨ (∃ s ∈ verifiedScopes rows scope, Broken env rows s) ∨
        ∀ s ∈ verifiedScopes rows scope, Covered rows s) := by
  constructor
  · intro h
    by_contra hno
    simp only [not_or,Bool.not_eq_false,not_exists,not_and] at hno
    obtain ⟨hscope,hbroken,huncovered⟩ := hno
    have hchecked := h (valid_iff.mpr ⟨hscope,hbroken⟩)
    apply huncovered
    intro s hs
    refine covered_iff.mpr fun r hr hrs => ?_
    have hselected : scope.all (r.scope = ·) = true := by
      cases scope with
      | none => rfl
      | some t => simpa [hrs,verifiedScopes] using hs
    subst hrs
    exact (checked_iff (hbroken r.scope hs)).mp (hchecked r hr hselected)
  · rintro hcond hvalid r hr hselected
    obtain ⟨hscope,hbroken⟩ := valid_iff.mp hvalid
    have hin := mem_verifiedScopes hr hselected
    rcases hcond with hbad | ⟨s,hs,hbad⟩ | hcovered
    · rw [hscope] at hbad
      cases hbad
    · exact absurd hbad (hbroken s hs)
    · exact (checked_iff (hbroken r.scope hin)).mpr (covered_iff.mp (hcovered r.scope hin) r hr rfl)

section
variable {env : Env}

def Row.canonical (r : Row) : Row := {r with payload := r.payload.canon, provenance := r.provenance.canon}

theorem stamp_toJson_injective : Function.Injective Stamp.toJson := by
  intro a b h
  cases a <;> cases b <;> simp_all [Stamp.toJson]

theorem optText_injective : Function.Injective optText := by
  intro a b h
  cases a <;> cases b <;> simp_all [optText]

@[simp] theorem canon_optText (o : Option String) : (optText o).canon = optText o := by cases o <;> rfl

@[simp] theorem canon_toJson (t : Stamp) : t.toJson.canon = t.toJson := by cases t <;> rfl

def Row.hashed (r : Row) : List Json :=
  [r.payload.canon,(recordValue r.receiptId r.timestamp r.receiptType r.contentHash r.scope r.sequence r.previousHash r.sensitivity
    r.provenance (r.links.map optText)).canon]

/-- SHA-256 is injective on what is hashed for the rows of the scope in the two tables. -/
def Collisionless (env : Env) (rows others : List Row) (scope : String) : Prop :=
  ∀ v ∈ (scopeRows rows scope ++ scopeRows others scope).flatMap Row.hashed,
    ∀ w ∈ (scopeRows rows scope ++ scopeRows others scope).flatMap Row.hashed, env.sha256 v = env.sha256 w → v = w

instance (rows others : List Row) (scope : String) : Decidable (Collisionless env rows others scope) :=
  inferInstanceAs (Decidable (∀ v ∈ _, _))

theorem canonical_of_recordHash {r o : Row} (hinj : ∀ v ∈ r.hashed, ∀ w ∈ o.hashed, env.sha256 v = env.sha256 w → v = w)
    (hr : r.Sealed env) (ho : o.Sealed env)
    (hprovenance : orEmpty r.provenance = r.provenance ∧ orEmpty o.provenance = o.provenance)
    (h : r.recordHash = o.recordHash) : r.canonical = o.canonical := by
  have hvalues := hinj _ (by simp [Row.hashed]) _ (by simp [Row.hashed]) (hr.record.trans (h.trans ho.record.symm))
  simp only [recordValue,Json.canon,Json.canonList,Links.map,canon_optText,canon_toJson,hprovenance.1,hprovenance.2,Json.arr.injEq,
    List.cons.injEq,Json.scalar.injEq,Scalar.str.injEq,Scalar.int.injEq,and_true] at hvalues
  obtain ⟨hid,htime,htype,hcontent,hscope,hseq,hprev,hsens,hprov,hparent,hevent,heventType,houtcome,htomb,hkey,hidem⟩ := hvalues
  have hpayload : r.payload.canon = o.payload.canon :=
    hinj _ List.mem_cons_self _ List.mem_cons_self (hr.content.trans (hcontent.trans ho.content.symm))
  have hlinks : r.links = o.links := by
    cases hl : r.links
    cases hl' : o.links
    simp only [hl,hl'] at hparent hevent heventType houtcome htomb hkey hidem
    simp only [Links.mk.injEq]
    exact ⟨optText_injective hparent,optText_injective hevent,optText_injective heventType,optText_injective houtcome,
      optText_injective hidem,optText_injective htomb,optText_injective hkey⟩
  simp only [Row.canonical,Row.mk.injEq]
  exact ⟨hid,stamp_toJson_injective htime,htype,hscope,hpayload,hcontent,hsens,hprov,hlinks,hseq,optText_injective hprev,h⟩

def lastRecordHash (rows : List Row) (scope : String) : Option String :=
  ((chainRows rows scope).getLast?).map Row.recordHash

theorem Covered.walk_eq {rows : List Row} {scope : String} (h : Covered rows scope)
    (hkey : (rows.map Row.receiptId).Nodup) : iterChainRecords rows scope = chainRows rows scope := by
  have hsub : (iterChainRecords rows scope).Sublist (chainRows rows scope) :=
    (iterChainRecords_sublist rows scope).trans List.filter_sublist
  have hnodup : (chainRows rows scope).Nodup :=
    (chainRows_perm rows scope).nodup_iff.mpr ((List.Nodup.of_map _ hkey).filter _)
  have hall : chainRows rows scope ⊆ iterChainRecords rows scope := by
    intro r hr
    obtain ⟨hrows,hscope⟩ := mem_chainRows.mp hr
    exact covered_iff.mp h r hrows hscope
  exact hsub.eq_of_length_le (List.subperm_of_subset hnodup hall).length_le

theorem same_records {rows others : List Row} {scope : String} (hinj : Collisionless env rows others scope)
    (hvalid : Valid env rows (some scope)) (hvalid' : Valid env others (some scope)) (hcovered : Covered rows scope)
    (hcovered' : Covered others scope) (hkey : (rows.map Row.receiptId).Nodup) (hkey' : (others.map Row.receiptId).Nodup)
    (hprovenance : ∀ r, (r ∈ rows ∨ r ∈ others) → r.scope = scope → orEmpty r.provenance = r.provenance)
    (hlast : lastRecordHash rows scope = lastRecordHash others scope) :
    (chainRows rows scope).map Row.canonical = (chainRows others scope).map Row.canonical := by
  have hchain : ∀ {table : List Row}, Valid env table (some scope) → Covered table scope →
      (table.map Row.receiptId).Nodup → Linked Row.recordHash Row.previousHash none (chainRows table scope) ∧
        ∀ r ∈ chainRows table scope, r.Sealed env := by
    intro table hv hc hk
    have hfaults := not_broken_iff.mp ((valid_iff.mp hv).2 scope (List.mem_singleton_self _))
    rw [hc.walk_eq hk,chainFaults_eq_nil] at hfaults
    exact ⟨hfaults.1,fun r hr => (hfaults.2 r hr).1⟩
  obtain ⟨hlinked,hsealed⟩ := hchain hvalid hcovered hkey
  obtain ⟨hlinked',hsealed'⟩ := hchain hvalid' hcovered' hkey'
  rw [lastRecordHash,lastRecordHash,← HashChain.lastHash_eq_getLast?,← HashChain.lastHash_eq_getLast?] at hlast
  have hpairs : List.Forall₂ (fun a b : Row => a.canonical = b.canonical) (chainRows rows scope) (chainRows others scope) := by
    have hprev : ∀ e f : Row, e.canonical = f.canonical → e.previousHash = f.previousHash := by
      intro e f hsame
      have hboth := congrArg Row.previousHash hsame
      exact hboth
    refine hlinked.commits hprev (fun e he f hf hhash => ?_) hlinked' hlast
    obtain ⟨herows,hes⟩ := mem_chainRows.mp he
    obtain ⟨hfrows,hfs⟩ := mem_chainRows.mp hf
    have hpair : ∀ v ∈ e.hashed, ∀ w ∈ f.hashed, env.sha256 v = env.sha256 w → v = w := fun v hv w hw =>
      hinj v (List.mem_flatMap.mpr ⟨e,List.mem_append_left _ ((chainRows_perm rows scope).mem_iff.mp he),hv⟩)
        w (List.mem_flatMap.mpr ⟨f,List.mem_append_right _ ((chainRows_perm others scope).mem_iff.mp hf),hw⟩)
    exact canonical_of_recordHash hpair (hsealed e he) (hsealed' f hf)
      ⟨hprovenance e (.inl herows) hes,hprovenance f (.inr hfrows) hfs⟩ hhash
  rw [← List.forall₂_eq_eq_eq,List.forall₂_map_left_iff,List.forall₂_map_right_iff]
  exact hpairs

end

/-- A valid report covers what readers can see exactly under the conditions of
`valid_checks_iff`; and where both tables have keys, and in the scope no unread row and no
provenance that hashes like an empty one, the last record hash fixes the records of the scope. -/
theorem verification_covers (env : Env) :
    (∀ (rows : List Row) (scope : Option String),
      (Valid env rows scope → ∀ r ∈ rows, scope.all (r.scope = ·) = true → Checked env rows r) ↔
        (scope.all validScope = false ∨ (∃ s ∈ verifiedScopes rows scope, Broken env rows s) ∨
          ∀ s ∈ verifiedScopes rows scope, Covered rows s)) ∧
    (∀ (rows others : List Row) (scope : String), Collisionless env rows others scope → Valid env rows (some scope) →
      Valid env others (some scope) → Covered rows scope → Covered others scope → (rows.map Row.receiptId).Nodup →
      (others.map Row.receiptId).Nodup → (∀ r, (r ∈ rows ∨ r ∈ others) → r.scope = scope → orEmpty r.provenance = r.provenance) →
      lastRecordHash rows scope = lastRecordHash others scope →
      (chainRows rows scope).map Row.canonical = (chainRows others scope).map Row.canonical) := by
  refine ⟨valid_checks_iff env,?_⟩
  intro rows others scope hinj hvalid hvalid' hcovered hcovered' hkey hkey' hprovenance hlast
  exact same_records hinj hvalid hvalid' hcovered hcovered' hkey hkey' hprovenance hlast

def forgedRow : Row where
  receiptId := "x"
  timestamp := .finite 0
  receiptType := "decision"
  scope := "s"
  payload := .obj []
  contentHash := "forged"
  sensitivity := "internal"
  provenance := .obj []
  links := ⟨none,none,none,none,none,none,none⟩
  sequence := 0
  previousHash := none
  recordHash := "forged"

/-- The row `id` with its hashes made right, at the place `sequence` behind `previous`. -/
def sealedRow (id scope : String) (payload : Fields) (provenance : Json) (sequence : ℤ) (previous : Option Row) : Row :=
  let r : Row := {forgedRow with
    receiptId := id, scope := scope, payload := .obj payload, contentHash := digest plainEnv (.obj payload)
    provenance := provenance, sequence := sequence, previousHash := previous.map Row.recordHash}
  {r with recordHash := r.expectedHash plainEnv}

def firstRow : Row := sealedRow "a" "s" [("x",.int 1),("y",.int 2)] (.obj []) 1 none

/-- Two rows of the scope, one table with a row of another scope whose provenance is null, the other
with the fields of a payload in another order. -/
theorem verification_covers_two :
    let rows := [firstRow,sealedRow "z" "t" [] (.scalar .null) 1 none,sealedRow "b" "s" [] (.obj []) 2 firstRow]
    let others := [sealedRow "a" "s" [("y",.int 2),("x",.int 1)] (.obj []) 1 none,sealedRow "b" "s" [] (.obj []) 2 firstRow]
    (chainRows rows "s").map Row.canonical = (chainRows others "s").map Row.canonical := by
  refine (verification_covers plainEnv).2 _ _ "s" (by decide +kernel) (by decide +kernel) (by decide +kernel)
    (covered_iff.mpr ?_) (covered_iff.mpr ?_) (by decide +kernel) (by decide +kernel) ?_ (by decide +kernel)
  · decide +kernel
  · decide +kernel
  · rintro r (hr | hr) <;> revert r <;> decide +kernel

/-- The report is valid and the row is returned, though no walk has read it. -/
theorem forged_row_unchecked : Valid plainEnv [forgedRow] (some "s") ∧
    getReceipt plainEnv [forgedRow] "x" (some "s") false = .ok (some forgedRow) ∧ ¬ Checked plainEnv [forgedRow] forgedRow := by
  refine ⟨by decide +kernel,by rfl,fun h => ?_⟩
  obtain ⟨before,after,heq,-⟩ := h
  have hwalk : iterChainRecords [forgedRow] forgedRow.scope = [] := by rfl
  rw [hwalk] at heq
  simp at heq

end Verdict.ReceiptStore

import Verdict.ReceiptStore.Manifest

/-! # The lifecycle of a receipt

The records that name one parent are its lifecycle. `append_event` looks for a terminal
outcome before it writes; `put_receipt` writes any parent and any outcome without a look, and
a replayed event is recognised by its payload and parent alone.
-/
namespace Verdict.ReceiptStore

def Siblings (a b : Row) : Prop :=
  a.scope = b.scope ∧ a.links.parentReceiptId.isSome = true ∧ a.links.parentReceiptId = b.links.parentReceiptId

instance (a b : Row) : Decidable (Siblings a b) := inferInstanceAs (Decidable (_ ∧ _))

def Lifecycle (rows : List Row) : Prop :=
  ∀ a ∈ rows, ∀ b ∈ rows, Siblings a b → a.links.terminalOutcome.isSome = true →
    (b.links.terminalOutcome.isSome = true → a.links.terminalOutcome = b.links.terminalOutcome) ∧
      (a.sequence < b.sequence → b.isTombstone = true)

instance (rows : List Row) : Decidable (Lifecycle rows) := by
  unfold Lifecycle
  infer_instance

/-- The lifecycle of `r` has no terminal outcome yet, or `r` is a tombstone that gives no other one. -/
def Admits (rows : List Row) (r : Row) : Prop :=
  ∀ o ∈ rows, Siblings o r → o.links.terminalOutcome.isSome = true →
    r.isTombstone = true ∧ (r.links.terminalOutcome = none ∨ o.links.terminalOutcome = r.links.terminalOutcome)

theorem Siblings.symm {a b : Row} (h : Siblings a b) : Siblings b a :=
  ⟨h.1.symm,h.2.2 ▸ h.2.1,h.2.2.symm⟩

variable {r : Row}

theorem lifecycle_append_iff {rows : List Row} (h : Lifecycle rows)
    (hlast : ∀ o ∈ rows, o.scope = r.scope → o.sequence < r.sequence) : Lifecycle (rows ++ [r]) ↔ Admits rows r := by
  constructor
  · intro hall o ho hsame hterminal
    obtain ⟨hone,hclosed⟩ := hall o (List.mem_append_left _ ho) r (by simp) hsame hterminal
    refine ⟨hclosed (hlast o ho hsame.1),?_⟩
    cases houtcome : r.links.terminalOutcome with
    | none => exact .inl rfl
    | some x => exact .inr (houtcome ▸ hone (by simp [houtcome]))
  · intro hadmits a ha b hb hsame hterminal
    rcases List.mem_append.mp ha with hold | ha
    · rcases List.mem_append.mp hb with hb | hb
      · exact h a hold b hb hsame hterminal
      · rw [List.mem_singleton] at hb
        subst hb
        obtain ⟨htomb,hequal⟩ := hadmits a hold hsame hterminal
        refine ⟨fun hsome => hequal.resolve_left fun hnone => ?_,fun _ => htomb⟩
        simp [hnone] at hsome
    · rw [List.mem_singleton] at ha
      subst ha
      rcases List.mem_append.mp hb with hb | hb
      · have hbefore := hlast b hb hsame.1.symm
        refine ⟨fun hsome => ?_,fun hlt => absurd hlt (not_lt.mpr (le_of_lt hbefore))⟩
        obtain ⟨-,hequal⟩ := hadmits b hb hsame.symm hsome
        refine (hequal.resolve_left fun hnone => ?_).symm
        simp [hnone] at hterminal
      · rw [List.mem_singleton] at hb
        subst hb
        exact ⟨fun _ => rfl,fun hlt => absurd hlt (lt_irrefl _)⟩

theorem Numbered.lt_nextSequence {rows : List Row} (h : Numbered rows) {scope : String} (hr : r ∈ rows)
    (hscope : r.scope = scope) : r.sequence < (ReceiptStore.nextSequence rows scope).1 := by
  rw [h.nextSequence]
  exact Int.lt_add_one_of_le (h.sequence_le (List.mem_filter.mpr ⟨hr,by simpa using hscope⟩))

section
variable (env : Env) (refused : Bool) (rows : List Row)

/-- The call passes the checks of `put_receipt`, and no record has its id or its key. -/
structure PutArgs.Writes (a : PutArgs) : Prop where
  scope : validScope a.scope = true
  sensitivity : a.sensitivity ≠ "" ∧ a.sensitivity.toList.length ≤ 64
  accepted : refused = false
  type : a.receiptType ∈ receiptTypes
  freshId : ∀ o ∈ rows, o.receiptId ≠ (a.draft env).receiptId
  freshKey : ∀ k, a.idempotencyKey = some k → ∀ o ∈ rows, o.scope = a.scope → o.links.idempotencyKey ≠ some k

/-- The parent has no terminal outcome yet, or the call writes a tombstone that gives no other one. -/
def PutArgs.Keeps (a : PutArgs) : Prop :=
  ∀ o ∈ rows, o.scope = a.scope → a.parentReceiptId.isSome = true → o.links.parentReceiptId = a.parentReceiptId →
    o.links.terminalOutcome.isSome = true →
      a.receiptType = "tombstone" ∧ (a.terminalOutcome = none ∨ o.links.terminalOutcome = a.terminalOutcome)

def PutArgs.links (a : PutArgs) : Links (Option String) :=
  ⟨a.parentReceiptId,a.eventId,a.eventType,a.terminalOutcome,a.idempotencyKey,none,a.keyRef⟩

variable {env refused rows}
variable {r : Row}

theorem isTombstone_iff (h : r.links.tombstoneFor = none) : r.isTombstone = true ↔ r.receiptType = "tombstone" := by
  unfold Row.isTombstone
  rw [h,Option.isSome_none,Bool.or_false,decide_eq_true_eq]

theorem PutArgs.Writes.result {a : PutArgs} (h : a.Writes env refused rows) :
    putReceipt env refused rows a = .ok ((a.draft env).row env rows (.finite a.now) a.links,
      rows ++ [(a.draft env).row env rows (.finite a.now) a.links]) := by
  have hfree : clashes rows ((a.draft env).row env rows (.finite a.now) a.links) = false := by
    refine clashes_eq_false.mpr fun o ho => ⟨h.freshId o ho,fun ⟨hsome,hscope,hsame⟩ => ?_⟩
    obtain ⟨k,hk⟩ := Option.isSome_iff_exists.mp hsome
    exact h.freshKey k hk o ho hscope (hsame.trans hk)
  have hinsert := @insert_of env rows (a.draft env) a.links (.finite a.now) h.type (links_stored_optText env _) rfl hfree
  have hnone : a.idempotencyKey.bind (fun k => fetchOne rows fun r => r.scope = a.scope && r.links.idempotencyKey = some k)
      = none := by
    refine Option.bind_eq_none_iff.mpr fun k hk => List.find?_eq_none.mpr fun o ho => ?_
    simpa using h.freshKey k hk o ho
  have hlong : ¬ (a.sensitivity = "" ∨ 64 < a.sensitivity.toList.length) := by
    have hsensitivity := h.sensitivity
    rw [not_or,not_lt]
    exact hsensitivity
  simp only [putReceipt,h.scope,hlong,h.accepted,hnone,hinsert,not_true_eq_false,if_false,Bool.false_eq_true]

theorem putReceipt_unchanged {a : PutArgs} (h : ¬ a.Writes env refused rows) {rows' : List Row}
    (hok : putReceipt env refused rows a = .ok (r,rows')) : rows' = rows := by
  by_contra hchanged
  apply h
  simp only [putReceipt] at hok
  split at hok
  · cases hok
  · rename_i hscope
    split at hok
    · cases hok
    · rename_i hsensitivity
      split at hok
      · cases hok
      · rename_i haccepted
        split at hok
        · split at hok
          · cases hok
            exact absurd rfl hchanged
          · cases hok
        · rename_i hkey
          split at hok
          · cases hok
          · have htype : a.receiptType ∈ receiptTypes := by
              by_contra hbad
              simp only [insert,PutArgs.draft,hbad,not_false_eq_true,if_true] at hok
              cases hok
            obtain ⟨links,timestamp,-,-,rfl,hfree,-⟩ := insert_spec hok
            have hapart := clashes_eq_false.mp hfree
            rw [not_or,not_lt] at hsensitivity
            refine ⟨not_not.mp hscope,hsensitivity,by simpa using haccepted,htype,fun o ho => (hapart o ho).1,?_⟩
            intro k hk o ho hsame hother
            have hnone := Option.bind_eq_none_iff.mp hkey k hk
            have hmiss := List.find?_eq_none.mp hnone o ho
            simp [hsame,hother] at hmiss

theorem putReceipt_lifecycle_iff (hnumbered : Numbered rows) (h : Lifecycle rows) (a : PutArgs) :
    Lifecycle (committed rows (putReceipt env refused rows a)).2 ↔ (a.Writes env refused rows → a.Keeps rows) := by
  by_cases hwrites : a.Writes env refused rows
  · have hlast : ∀ o ∈ rows, o.scope = a.scope →
        o.sequence < ((a.draft env).row env rows (.finite a.now) a.links).sequence :=
      fun o ho hscope => hnumbered.lt_nextSequence ho hscope
    rw [hwrites.result]
    refine (lifecycle_append_iff h hlast).trans ⟨fun hadmits _ => ?_,fun hkeeps o ho hsame hterminal => ?_⟩
    · intro o ho hscope hparent hsame hterminal
      obtain ⟨htomb,hequal⟩ := hadmits o ho ⟨hscope,hsame ▸ hparent,hsame⟩ hterminal
      exact ⟨(isTombstone_iff rfl).mp htomb,hequal⟩
    · have hparent : a.parentReceiptId.isSome = true := hsame.symm.2.1
      obtain ⟨htomb,hequal⟩ := hkeeps hwrites o ho hsame.1 hparent hsame.2.2 hterminal
      exact ⟨(isTombstone_iff rfl).mpr htomb,hequal⟩
  · refine iff_of_true ?_ (fun h => absurd h hwrites)
    cases hresult : putReceipt env refused rows a with
    | error e => exact h
    | ok result => exact (putReceipt_unchanged hwrites hresult).symm ▸ h

end

section Append
variable (env : Env) (refused : Bool) (rows : List Row)

/-- The call passes the checks that `append_event` makes before it looks for the event. -/
structure EventArgs.Accepted (a : EventArgs) : Prop where
  scope : validScope a.scope = true
  eventId : a.eventId ≠ ""
  eventType : a.eventType ≠ ""
  accepted : refused = false
  parent : ∃ r, findReceipt rows a.parentReceiptId a.scope = some r

variable (a : EventArgs)

/-- The recorded event of the same id, if a replay returns it, has the outcome and the type
of the call; for a terminal call the outcome is enough. -/
def EventArgs.Replays : Prop :=
  ∀ existing, fetchOne rows (fun r => r.scope = a.scope && r.links.eventId = some a.eventId) = some existing →
    existing.payload.pyEq (.obj (a.draft env).payload) = true → existing.links.parentReceiptId = some a.parentReceiptId →
      existing.links.terminalOutcome = a.terminalOutcome ∧
        (existing.links.eventType = some a.eventType ∨ a.terminalOutcome.isSome = true)

/-- The record is what the call asked for, or the equal terminal outcome recorded before. -/
def EventArgs.Answered (r : Row) : Prop :=
  r.scope = a.scope ∧ r.links.parentReceiptId = some a.parentReceiptId ∧ r.links.terminalOutcome = a.terminalOutcome ∧
    (((r.payload = (Json.obj (a.draft env).payload).canon ∨ r.payload.pyEq (.obj (a.draft env).payload) = true) ∧
        r.links.eventType = some a.eventType) ∨ (r ∈ rows ∧ a.terminalOutcome.isSome = true))

/-- The call returns an answering record that is stored, or raises; and a call that is
accepted, whose fresh id is fresh, raises nothing but a conflict. -/
def EventArgs.Settles : Except StoreError (Row × List Row) → Prop
  | .ok (r,rows') => r ∈ rows' ∧ a.Answered env rows r
  | .error e => a.Accepted refused rows → (∀ o ∈ rows, o.receiptId ≠ "evt-" ++ a.uuid) → e = .conflict

variable {env refused rows}

def EventArgs.links : Links (Option String) :=
  ⟨some a.parentReceiptId,some a.eventId,some a.eventType,a.terminalOutcome,none,none,none⟩

variable {scope parent : String}

theorem firstTerminal_none (h : firstTerminal rows scope parent = none) :
    ∀ o ∈ rows, o.scope = scope → o.links.parentReceiptId = some parent → o.links.terminalOutcome = none := by
  intro o ho hscope hparent
  have hmiss := List.find?_eq_none.mp h o (mem_chainRows.mpr ⟨ho,hscope⟩)
  simpa [hparent] using hmiss

variable {r : Row}

theorem firstTerminal_some (h : firstTerminal rows scope parent = some r) :
    r ∈ rows ∧ r.scope = scope ∧ r.links.parentReceiptId = some parent ∧ r.links.terminalOutcome.isSome = true := by
  obtain ⟨hr,hscope⟩ := mem_chainRows.mp (List.mem_of_find?_eq_some h)
  have hfound := List.find?_some h
  simp only [Bool.and_eq_true,decide_eq_true_eq] at hfound
  exact ⟨hr,hscope,hfound⟩

theorem insert_event (a : EventArgs) : insert env rows (a.draft env) = .ok
    ((a.draft env).row env rows (.finite a.now) a.links, rows ++ [(a.draft env).row env rows (.finite a.now) a.links])
    ∨ ((∃ o ∈ rows, o.receiptId = "evt-" ++ a.uuid) ∧ insert env rows (a.draft env) = .error .constraint) :=
    by
  have htype : (a.draft env).receiptType ∈ receiptTypes := by simp [EventArgs.draft,receiptTypes]
  have hlinks : (a.draft env).links.stored env = some a.links := links_stored_optText env _
  have htimestamp : (a.draft env).timestamp.stored = some (.finite a.now) := rfl
  cases hclash : clashes rows ((a.draft env).row env rows (.finite a.now) a.links) with
  | false => exact .inl (insert_of htype hlinks htimestamp hclash)
  | true =>
    right
    obtain ⟨o,ho,hsame⟩ := List.any_eq_true.mp hclash
    simp only [Bool.or_eq_true,Bool.and_eq_true,decide_eq_true_eq] at hsame
    refine ⟨⟨o,ho,hsame.resolve_right fun hkey => ?_⟩,?_⟩
    · exact Bool.false_ne_true hkey.1.1
    · simp only [insert,htype,hlinks,htimestamp,hclash,not_true_eq_false,if_false,if_true]

theorem appendEvent_accepted {a : EventArgs} {result : Row × List Row} (h : appendEvent env refused rows a = .ok result) :
    a.Accepted refused rows := by
  simp only [appendEvent] at h
  split at h
  · cases h
  · rename_i hscope
    split at h
    · cases h
    · rename_i hnonempty
      split at h
      · cases h
      · rename_i haccepted
        split at h
        · cases h
        · rename_i parent hparent
          rw [not_or] at hnonempty
          exact ⟨not_not.mp hscope,hnonempty.1,hnonempty.2,by simpa using haccepted,parent,hparent⟩

theorem appendEvent_settles_iff :
    a.Settles env refused rows (appendEvent env refused rows a) ↔ (a.Accepted refused rows → a.Replays env rows) := by
  by_cases haccepted : a.Accepted refused rows
  · have hrefused := haccepted.accepted
    subst hrefused
    obtain ⟨parent,hparent⟩ := haccepted.parent
    have hnonempty : ¬ (a.eventId = "" ∨ a.eventType = "") := not_or.mpr ⟨haccepted.eventId,haccepted.eventType⟩
    simp only [appendEvent,haccepted.scope,hnonempty,hparent,not_true_eq_false,if_false,Bool.false_eq_true]
    cases hexisting : fetchOne rows (fun r => r.scope = a.scope && r.links.eventId = some a.eventId) with
    | some existing =>
      dsimp only
      have hfound := List.find?_some hexisting
      simp only [Bool.and_eq_true,decide_eq_true_eq] at hfound
      by_cases hmatch : existing.payload.pyEq (.obj (a.draft env).payload) = true ∧
          existing.links.parentReceiptId = some a.parentReceiptId
      · rw [if_pos hmatch]
        constructor
        · rintro ⟨-,-,-,houtcome,hrest⟩ - other hother - -
          cases hexisting.symm.trans hother
          exact ⟨houtcome,hrest.imp And.right And.right⟩
        · intro hreplays
          obtain ⟨houtcome,hrest⟩ := hreplays haccepted existing hexisting hmatch.1 hmatch.2
          have hmem := List.mem_of_find?_eq_some hexisting
          exact ⟨hmem,hfound.1,hmatch.2,houtcome,hrest.imp (fun h => ⟨.inr hmatch.1,h⟩) fun h => ⟨hmem,h⟩⟩
      · rw [if_neg hmatch]
        refine iff_of_true (fun _ _ => rfl) fun _ other hother hpayload hsame => ?_
        cases hexisting.symm.trans hother
        exact absurd ⟨hpayload,hsame⟩ hmatch
    | none =>
      have hreplays : a.Replays env rows := by
        intro existing h
        rw [hexisting] at h
        cases h
      refine iff_of_true ?_ fun _ => hreplays
      dsimp only
      have hinserted : a.Settles env false rows (insert env rows (a.draft env)) := by
        rcases insert_event a with h | ⟨⟨o,ho,hid⟩,h⟩
        · rw [h]
          exact ⟨by simp,rfl,rfl,rfl,.inl ⟨.inl rfl,rfl⟩⟩
        · rw [h]
          exact fun _ hfresh => absurd hid (hfresh o ho)
      cases hterminal : firstTerminal rows a.scope a.parentReceiptId with
      | none => cases a.terminalOutcome <;> exact hinserted
      | some terminal =>
        obtain ⟨hmem,hscope,hsame,-⟩ := firstTerminal_some hterminal
        cases houtcome : a.terminalOutcome with
        | none => exact fun _ _ => rfl
        | some outcome =>
          dsimp only
          split
          · rename_i hequal
            exact ⟨hmem,hscope,hsame,hequal.trans houtcome.symm,.inr ⟨hmem,by simp [houtcome]⟩⟩
          · exact fun _ _ => rfl
  · refine iff_of_true ?_ (fun h => absurd h haccepted)
    cases hresult : appendEvent env refused rows a with
    | error e => exact fun h => absurd h haccepted
    | ok result => exact absurd (appendEvent_accepted hresult) haccepted

theorem appendEvent_open {a : EventArgs} {rows' : List Row} (h : appendEvent env refused rows a = .ok (r,rows')) :
    rows' = rows ∨ (firstTerminal rows a.scope a.parentReceiptId = none ∧ insert env rows (a.draft env) = .ok (r,rows')) := by
  have haccepted := appendEvent_accepted h
  obtain ⟨parent,hparent⟩ := haccepted.parent
  have hnonempty : ¬ (a.eventId = "" ∨ a.eventType = "") := not_or.mpr ⟨haccepted.eventId,haccepted.eventType⟩
  simp only [appendEvent,haccepted.scope,hnonempty,haccepted.accepted,hparent,not_true_eq_false,if_false,
    Bool.false_eq_true] at h
  split at h
  · split at h
    · cases h
      exact .inl rfl
    · cases h
  · split at h
    · split at h
      · cases h
        exact .inl rfl
      · cases h
    · cases h
    · rename_i hnone
      exact .inr ⟨hnone,h⟩

theorem appendEvent_lifecycle (hnumbered : Numbered rows) (h : Lifecycle rows) (a : EventArgs) :
    Lifecycle (committed rows (appendEvent env refused rows a)).2 := by
  cases hresult : appendEvent env refused rows a with
  | error e => exact h
  | ok result =>
    obtain ⟨r,rows'⟩ := result
    rcases appendEvent_open hresult with heq | ⟨hnone,hinsert⟩
    · exact heq.symm ▸ h
    · rcases insert_event a with hok | ⟨-,herror⟩
      · rw [hok] at hinsert
        cases hinsert
        refine (lifecycle_append_iff h fun o ho hscope => hnumbered.lt_nextSequence ho hscope).mpr ?_
        intro o ho hsame hterminal
        rw [firstTerminal_none hnone o ho hsame.1 hsame.2.2] at hterminal
        cases hterminal
      · rw [herror] at hinsert
        cases hinsert

end Append

structure Desk where
  rows : List Row
  manifests : List Fields

inductive Op
  | put (refused : Bool) (a : PutArgs)
  | append (refused : Bool) (a : EventArgs)
  | exportManifest (scope : Option String) (includePayload : Bool)
  /-- Import the manifest that the store exported as its `i`-th one. -/
  | importExported (refused : Bool) (i : ℕ)

section Desk
variable (env : Env)
variable (desk : Desk)

def Op.run : Op → Desk
  | .put refused a => {desk with rows := (committed desk.rows (putReceipt env refused desk.rows a)).2}
  | .append refused a => {desk with rows := (committed desk.rows (appendEvent env refused desk.rows a)).2}
  | .exportManifest scope includePayload => match ReceiptStore.exportManifest env desk.rows scope includePayload with
    | .ok m => {desk with manifests := desk.manifests ++ [m]}
    | .error _ => desk
  | .importExported refused i => match desk.manifests[i]? with
    | some m => {desk with rows := (committed desk.rows (importManifest env refused desk.rows (.obj m))).2}
    | none => desk

def nextDesk (op : Op) : Option Desk := some (op.run env desk)

/-- After the operation every lifecycle has one terminal outcome, and an `append_event` has
answered what it was asked. -/
def Kept (op : Op) : Prop :=
  Lifecycle (op.run env desk).rows ∧
    ∀ refused a, op = .append refused a → a.Settles env refused desk.rows (appendEvent env refused desk.rows a)

/-- A put that writes writes to a lifecycle that admits it, and an event that is replayed has
the outcome and the type of the recorded one. -/
def Disciplined : Op → Prop
  | .put refused a => a.Writes env refused desk.rows → a.Keeps desk.rows
  | .append refused a => a.Accepted refused desk.rows → a.Replays env desk.rows
  | _ => True

structure Tended (desk : Desk) : Prop where
  filled : Filled desk.rows
  manifests : ∀ m ∈ desk.manifests, ∃ (includePayload : Bool) (shown : List Row), shown ⊆ desk.rows ∧
    m = manifestOf env (shown.map fun r => .obj (exportItem includePayload r))

variable {env}
variable {rows' : List Row}

theorem Grows.eq_of_none {P : Draft → Prop} {rows : List Row} (h : Grows env P rows rows') (hnone : ∀ d, ¬ P d) :
    rows' = rows := by
  induction h with
  | refl => rfl
  | write _ hd _ _ => exact absurd hd (hnone _)

theorem importManifest_present {rows shown : List Row} (hshown : shown ⊆ rows) {includePayload refused : Bool} {n : ℕ}

    (h : importManifest env refused rows (.obj (manifestOf env (shown.map fun r => .obj (exportItem includePayload r))))
      = .ok (n,rows')) : rows' = rows := by
  refine (importManifest_grows h).eq_of_none ?_
  rintro d ⟨fields,hfields,-,-,hid,hscope,hnew⟩
  obtain ⟨r,hr,hobj⟩ := List.mem_map.mp hfields
  cases hobj
  exact hnew r (hshown hr) ⟨hid.symm,hscope.symm⟩

theorem Call.filled {rows : List Row} (h : Filled rows) (c : Call) : Filled (c.run env rows).2 :=
  ((c.run_grows env rows).mono fun _ hd => hd.scope).filled h

theorem Tended.next {desk : Desk} (h : Tended env desk) (op : Op) : Tended env (op.run env desk) := by
  have hwrite : ∀ {rows' : List Row}, Filled rows' → desk.rows ⊆ rows' → Tended env {desk with rows := rows'} := by
    intro rows' hfilled hsub
    refine ⟨hfilled,fun m hm => ?_⟩
    obtain ⟨includePayload,shown,hshown,hm'⟩ := h.manifests m hm
    exact ⟨includePayload,shown,fun r hr => hsub (hshown hr),hm'⟩
  cases op with
  | put refused a =>
    exact hwrite ((Call.putReceipt refused a).filled h.filled) ((Call.putReceipt refused a).run_grows env desk.rows).keeps.subset
  | append refused a =>
    exact hwrite ((Call.appendEvent refused a).filled h.filled)
      ((Call.appendEvent refused a).run_grows env desk.rows).keeps.subset
  | exportManifest scope includePayload =>
    simp only [Op.run]
    split
    · rename_i m hexport
      refine ⟨h.filled,fun m' hm' => ?_⟩
      rcases List.mem_append.mp hm' with hm' | hm'
      · exact h.manifests m' hm'
      · rw [List.mem_singleton] at hm'
        subst hm'
        exact exportManifest_shows hexport
    · exact h
  | importExported refused i =>
    simp only [Op.run]
    split
    · rename_i m _
      exact hwrite ((Call.importManifest refused (.obj m)).filled h.filled)
        ((Call.importManifest refused (.obj m)).run_grows env desk.rows).keeps.subset
    · exact h

theorem kept_iff {desk : Desk} (htended : Tended env desk) (h : Lifecycle desk.rows) (op : Op) :
    Kept env desk op ↔ Disciplined env desk op := by
  have hnumbered := htended.filled.numbered
  cases op with
  | put refused a =>
    refine ⟨fun hkept => (putReceipt_lifecycle_iff hnumbered h a).mp hkept.1,fun hkeeps => ⟨?_,fun _ _ heq => by cases heq⟩⟩
    exact (putReceipt_lifecycle_iff hnumbered h a).mpr hkeeps
  | append refused a =>
    refine ⟨fun hkept => (appendEvent_settles_iff a).mp (hkept.2 refused a rfl),fun hreplays => ?_⟩
    refine ⟨appendEvent_lifecycle hnumbered h a,fun refused' a' heq => ?_⟩
    cases heq
    exact (appendEvent_settles_iff a).mpr hreplays
  | exportManifest scope includePayload =>
    refine iff_of_true ⟨?_,fun _ _ heq => by cases heq⟩ trivial
    simp only [Op.run]
    split <;> exact h
  | importExported refused i =>
    refine iff_of_true ⟨?_,fun _ _ heq => by cases heq⟩ trivial
    simp only [Op.run]
    split
    · rename_i m hm
      obtain ⟨includePayload,shown,hshown,rfl⟩ := htended.manifests m (List.mem_of_getElem? hm)
      dsimp only
      cases hresult : importManifest env refused desk.rows _ with
      | error e => exact h
      | ok result => exact (importManifest_present hshown hresult).symm ▸ h
    · exact h

/-- In every run of puts, events, exports and imports of these exports: each operation keeps
one terminal outcome for each parent, and each `append_event` answers what it was asked,
exactly when each operation is disciplined. -/
theorem one_terminal_outcome_iff (env : Env) (ops : List Op) :
    Run.AllSteps (nextDesk env) (Kept env) ⟨[],[]⟩ ops ↔ Run.AllSteps (nextDesk env) (Disciplined env) ⟨[],[]⟩ ops := by
  have hstart : Tended env ⟨[],[]⟩ :=
    ⟨⟨.nil,fun r hr => absurd hr List.not_mem_nil,.nil⟩,fun m hm => absurd hm List.not_mem_nil⟩
  have hempty : Lifecycle (⟨[],[]⟩ : Desk).rows := fun a ha => absurd ha List.not_mem_nil
  generalize (⟨[],[]⟩ : Desk) = desk at hstart hempty
  induction ops generalizing desk with
  | nil => exact Iff.rfl
  | cons op ops ih =>
    rw [Run.allSteps_cons_some rfl,Run.allSteps_cons_some rfl,kept_iff hstart hempty op]
    refine and_congr_right fun hdisciplined => ?_
    exact ih (op.run env desk) (hstart.next op) ((kept_iff hstart hempty op).mpr hdisciplined).1

end Desk

def startPut : PutArgs where
  receiptType := "decision"
  scope := "s"
  payload := []
  receiptId := some "p"

def endPut (id outcome : String) : PutArgs where
  receiptType := "outcome"
  scope := "s"
  payload := []
  receiptId := some id
  parentReceiptId := some "p"
  terminalOutcome := some outcome

def startedEvent (outcome : Option String) : EventArgs where
  parentReceiptId := "p"
  scope := "s"
  payload := []
  eventId := "e"
  eventType := "node"
  terminalOutcome := outcome

def startedDesk : Desk :=
  (Op.append false (startedEvent none)).run plainEnv ((Op.put false startPut).run plainEnv ⟨[],[]⟩)

/-- Two puts record two outcomes; and an event that comes back with an outcome is answered by
the record without one. -/
theorem two_outcomes_recorded : ¬ Run.AllSteps (nextDesk plainEnv) (Kept plainEnv) ⟨[],[]⟩
    [.put false startPut,.put false (endPut "a" "done"),.put false (endPut "b" "failed")] ∧
    (appendEvent plainEnv false startedDesk.rows (startedEvent (some "done"))).map
    (fun x => x.1.links.terminalOutcome) = .ok none := by
  refine ⟨fun h => ?_,by decide +kernel⟩
  have hlast := ((h.2 _ rfl).2 _ rfl).1.1
  exact absurd hlast (by decide +kernel)
end Verdict.ReceiptStore

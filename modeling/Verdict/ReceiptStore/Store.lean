import Verdict.ReceiptStore.Ledger
import Verdict.ReceiptStore.Redaction

/-! # The operations of the receipt store

Every writer validates its arguments and runs one transaction, which the database may
refuse; retention runs one for each record it retires. Fresh identifiers and clock readings
are arguments. The store is not `strict_scope`.
-/
namespace Verdict.ReceiptStore

abbrev Fields := List (String × Json)

def defaultProvenance : Fields := [("source",.str "verdict_receipt_store"),("version",.str "2.0")]

/-- The first row that a `SELECT … fetchone()` finds. -/
abbrev fetchOne (rows : List Row) (p : Row → Bool) : Option Row := rows.find? p

/-- `SELECT * FROM receipts WHERE receipt_id = ? AND scope = ?`. -/
def findReceipt (rows : List Row) (receiptId scope : String) : Option Row :=
  fetchOne rows fun r => r.receiptId = receiptId && r.scope = scope

theorem findReceipt_some {rows : List Row} {receiptId scope : String} {r : Row}
    (h : findReceipt rows receiptId scope = some r) : r ∈ rows ∧ r.receiptId = receiptId ∧ r.scope = scope := by
  have hsame := List.find?_some h
  simp only [Bool.and_eq_true,decide_eq_true_eq] at hsame
  exact ⟨List.mem_of_find?_eq_some h,hsame⟩

theorem findReceipt_none {rows : List Row} {receiptId scope : String} :
    findReceipt rows receiptId scope = none ↔ ∀ r ∈ rows, ¬ (r.receiptId = receiptId ∧ r.scope = scope) := by
  unfold findReceipt
  rw [List.find?_eq_none]
  simp

section
variable (env : Env) (rows : List Row)

def assertIntegrity (scope : Option String) : Except StoreError Unit :=
  match verifyIntegrity env rows scope with
  | .error e => .error e
  | .ok [] => .ok ()
  | .ok (_ :: _) => .error .integrity

/-- `EXISTS (SELECT 1 FROM receipts t WHERE t.tombstone_for = receipts.receipt_id)`. -/
def buried (r : Row) : Bool := rows.any fun t => t.links.tombstoneFor = some r.receiptId

def getReceipt (receiptId : String) (scope : Option String) (includeTombstones : Bool) :
    Except StoreError (Option Row) := do
  assertIntegrity env rows scope
  return fetchOne rows (fun r => decide (r.receiptId = receiptId) && scope.all (r.scope = ·)
    && (includeTombstones || !buried rows r))

/-- The newest rows first. -/
def queryReceipts (receiptType scope : Option String) (limit : ℤ) (includeTombstones : Bool)
    (parentReceiptId : Option String) : Except StoreError (List Row) :=
  if limit < 1 ∨ 100000 < limit then .error (.value "limit")
  else do
    assertIntegrity env rows scope
    let found := rows.filter (fun r => receiptType.all (r.receiptType = ·) && scope.all (r.scope = ·)
      && parentReceiptId.all (r.links.parentReceiptId = some ·) && (includeTombstones || !buried rows r))
    return (found.insertionSort fun a b => b.sequence ≤ a.sequence).take limit.toNat

end

/-- The arguments of `put_receipt`, the uuid it draws and the time it reads. -/
structure PutArgs where
  (receiptType scope : String)
  payload : Fields
  sensitivity : String := "internal"
  provenance : Option Fields := none
  receiptId : Option String := none
  parentReceiptId : Option String := none
  eventId : Option String := none
  eventType : Option String := none
  terminalOutcome : Option String := none
  idempotencyKey : Option String := none
  allowlist : List String := []
  keyRef : Option String := none
  uuid : String := ""
  now : ℚ := 0

/-- The arguments of `append_event`. -/
structure EventArgs where
  (parentReceiptId scope : String)
  payload : Fields
  (eventId eventType : String)
  terminalOutcome : Option String := none
  allowlist : List String := []
  uuid : String := ""
  now : ℚ := 0

section
variable (env : Env) (refused : Bool) (rows : List Row)

def PutArgs.draft (a : PutArgs) : Draft where
  receiptType := a.receiptType
  scope := a.scope
  payload := redactSensitiveDict env.lower a.allowlist a.payload
  sensitivity := a.sensitivity
  provenance := redactSensitiveDict env.lower []
    (if a.provenance.getD [] = [] then defaultProvenance else a.provenance.getD [])
  receiptId := if a.receiptId.getD "" = "" then "rcpt-" ++ a.uuid else a.receiptId.getD ""
  timestamp := .finite a.now
  links := Links.map optText ⟨a.parentReceiptId,a.eventId,a.eventType,a.terminalOutcome,a.idempotencyKey,none,a.keyRef⟩

def EventArgs.draft (a : EventArgs) : Draft where
  receiptType := "execution"
  scope := a.scope
  payload := redactSensitiveDict env.lower a.allowlist a.payload
  sensitivity := "internal"
  provenance := defaultProvenance
  receiptId := "evt-" ++ a.uuid
  timestamp := .finite a.now
  links := Links.map optText ⟨some a.parentReceiptId,some a.eventId,some a.eventType,a.terminalOutcome,none,none,none⟩

variable (receiptId scope reason uuid : String)
variable (now : ℚ)

def tombstoneDraft : Draft where
  receiptType := "tombstone"
  scope := scope
  payload := [("target_receipt_id",.str receiptId),("reason",.str reason)]
  sensitivity := "internal"
  provenance := defaultProvenance
  receiptId := "tomb-" ++ uuid
  timestamp := .finite now
  links := Links.map optText ⟨some receiptId,none,none,none,none,some receiptId,none⟩

def putReceipt (a : PutArgs) : Except StoreError (Row × List Row) :=
  if ¬ validScope a.scope then .error (.value "scope")
  else if a.sensitivity = "" ∨ 64 < a.sensitivity.toList.length then .error (.value "sensitivity")
  else if refused then .error .database
  else
    let d := a.draft env
    match a.idempotencyKey.bind (fun k => fetchOne rows fun r => r.scope = a.scope && r.links.idempotencyKey = some k) with
    | some existing =>
      if existing.payload.pyEq (.obj d.payload) ∧ existing.receiptType = a.receiptType then .ok (existing,rows)
      else .error .conflict
    | none => match insert env rows d with
      | .error .constraint => .error .conflict
      | result => result

def firstTerminal (scope parentReceiptId : String) : Option Row :=
  (chainRows rows scope).find? fun r => r.links.parentReceiptId = some parentReceiptId && r.links.terminalOutcome.isSome

def appendEvent (a : EventArgs) : Except StoreError (Row × List Row) :=
  if ¬ validScope a.scope then .error (.value "scope")
  else if a.eventId = "" ∨ a.eventType = "" then .error (.value "event")
  else if refused then .error .database
  else
    let d := a.draft env
    match findReceipt rows a.parentReceiptId a.scope with
    | none => .error (.key a.parentReceiptId)
    | some _ =>
      match fetchOne rows (fun r => r.scope = a.scope && r.links.eventId = some a.eventId) with
      | some existing =>
        -- neither the event type nor the terminal outcome is compared
        if existing.payload.pyEq (.obj d.payload) ∧ existing.links.parentReceiptId = some a.parentReceiptId then
          .ok (existing,rows)
        else .error .conflict
      | none =>
        match a.terminalOutcome,firstTerminal rows a.scope a.parentReceiptId with
        | some outcome,some terminal =>
          if terminal.links.terminalOutcome = some outcome then .ok (terminal,rows) else .error .conflict
        | none,some _ => .error .conflict
        | _,none => insert env rows d

def tombstoneOne : Except StoreError (Row × List Row) :=
  if ¬ validScope scope then .error (.value "scope")
  else if refused then .error .database
  else match fetchOne rows (fun r => r.links.tombstoneFor = some receiptId && r.scope = scope) with
    | some existing => .ok (existing,rows)
    | none => insert env rows (tombstoneDraft receiptId scope reason uuid now)

def tombstone : Except StoreError (Row × List Row) := do
  match ← getReceipt env rows receiptId (some scope) true with
  | none => .error (.key receiptId)
  | some _ => tombstoneOne env refused rows receiptId scope reason uuid now

end

section
variable (env : Env)

/-- `record.timestamp < cutoff`. -/
def Stamp.before (t : Stamp) (cutoff : ℚ) : Bool := match t with
  | .finite q => q < cutoff
  | .negZero => 0 < cutoff
  | .negInf => true
  | .inf => false
  | .nan => false

/-- The arguments of `apply_retention`; the uuid and the time of each tombstone it writes;
and after how many tombstones the database refuses the next one, if it does. -/
structure RetentionArgs where
  scope : String
  (maxAgeSeconds now : ℚ)
  uuids : ℕ → String := fun i => toString i
  times : ℕ → ℚ := fun _ => 0
  refusedAfter : Option ℕ := none

/-- The loop of `apply_retention`: a failure keeps the tombstones written before it. -/
def retire (a : RetentionArgs) : ℕ → List Row → List String → List Row → Except StoreError (List String) × List Row
  | _,[],removed,rows => (.ok removed,rows)
  | i,r :: rest,removed,rows =>
    if r.isTombstone then retire a i rest removed rows
    else match tombstoneOne env (a.refusedAfter = some i) rows r.receiptId a.scope "retention" (a.uuids i) (a.times i) with
      | .error e => (.error e,rows)
      | .ok (_,rows') => retire a (i + 1) rest (removed ++ [r.receiptId]) rows'

def applyRetention (rows : List Row) (a : RetentionArgs) : Except StoreError (List String) × List Row :=
  if a.maxAgeSeconds < 0 then (.error (.value "retention age"),rows)
  else match queryReceipts env rows none (some a.scope) 100000 false none with
    | .error e => (.error e,rows)
    | .ok found => retire env a 0 (found.filter fun r => r.timestamp.before (a.now - a.maxAgeSeconds)) [] rows

end

section Manifest
variable (env : Env)

/-- `fields.get(key)`. -/
def getField (fields : Fields) (key : String) : Json := (fields.lookup key).getD (.scalar .null)

/-- `str(value)`. -/
def pyStr : Json → String
  | .str s => s
  | j => env.str j

/-- `float(value)`. -/
def pyFloat : Json → Option Stamp
  | .float q => some (.finite q)
  | .scalar .negZero => some .negZero
  | .scalar .nan => some .nan
  | .scalar .inf => some .inf
  | .scalar .negInf => some .negInf
  | j => env.float j

/-- `int(value)`. -/
def pyInt : Json → Option ℤ
  | .int n => some n
  | .bool b => some (if b then 1 else 0)
  | j => env.int j

def exportItem (includePayload : Bool) (r : Row) : Fields :=
  [("receipt_id",.str r.receiptId),("timestamp",r.timestamp.toJson),("receipt_type",.str r.receiptType),
   ("scope",.str r.scope),("content_hash",.str r.contentHash),("sensitivity",.str r.sensitivity),
   ("provenance",r.provenance),("parent_receipt_id",optText r.links.parentReceiptId),("sequence",.int r.sequence),
   ("previous_hash",optText r.previousHash),("record_hash",.str r.recordHash),("event_id",optText r.links.eventId),
   ("event_type",optText r.links.eventType),("terminal_outcome",optText r.links.terminalOutcome),
   ("idempotency_key",optText r.links.idempotencyKey),("tombstone_for",optText r.links.tombstoneFor),
   ("key_ref",optText r.links.keyRef)]
  ++ (if includePayload then [("payload",r.payload)] else [])

/-- The order of `(scope, sequence, receipt_id)`. -/
def exportLe (a b : Row) : Prop :=
  a.scope < b.scope ∨ (a.scope = b.scope ∧ (a.sequence < b.sequence ∨
    (a.sequence = b.sequence ∧ a.receiptId ≤ b.receiptId)))

instance (a b : Row) : Decidable (exportLe a b) := inferInstanceAs (Decidable (_ ∨ _))

variable (items : List Json)

def manifestOf : Fields :=
  [("version",.str "1.0"),("format_version",.str "2.0"),("receipt_count",.int items.length),
   ("manifest_digest",.str (digest env (.arr items))),("receipts",.arr items)]

def exportManifest (rows : List Row) (scope : Option String) (includePayload : Bool) : Except StoreError Fields := do
  let found ← queryReceipts env rows none scope 100000 true none
  return manifestOf env ((found.insertionSort exportLe).map fun r => .obj (exportItem includePayload r))

/-- The sort key of an item, if it is an object whose sequence `int` accepts. -/
def itemKey : Json → Option (String × ℤ)
  | .obj fields => (pyInt env ((fields.lookup "sequence").getD (.int 0))).map fun n => (pyStr env (getField fields "scope"),n)
  | _ => none

def keyLe (a b : (String × ℤ) × Json) : Prop := a.1.1 < b.1.1 ∨ (a.1.1 = b.1.1 ∧ a.1.2 ≤ b.1.2)

instance (a b : (String × ℤ) × Json) : Decidable (keyLe a b) := inferInstanceAs (Decidable (_ ∨ _))

/-- `sorted(items, key=…)`. -/
def sortedItems : Option (List Json) :=
  (items.mapM fun item => (itemKey env item).map fun k => (k,item)).map (fun keyed =>
    (keyed.insertionSort keyLe).map Prod.snd)

/-- The draft that an item asks `_insert` to write. -/
def itemDraft (fields : Fields) (receiptId scope : String) : Except StoreError Draft :=
  match fields.lookup "payload",fields.lookup "receipt_type",(fields.lookup "provenance").getD (.obj defaultProvenance) with
  | some (.obj payload),some (.str receiptType),.obj provenance =>
    match fields.lookup "timestamp" with
    | none => .error (.key "timestamp")
    | some value => match pyFloat env value with
      | none => .error (.type "timestamp")
      | some timestamp => .ok {
          receiptType := receiptType
          scope := scope
          payload := payload
          sensitivity := pyStr env ((fields.lookup "sensitivity").getD (.str "internal"))
          provenance := redactSensitiveDict env.lower [] provenance
          receiptId := receiptId
          timestamp := timestamp
          links := ⟨getField fields "parent_receipt_id",getField fields "event_id",getField fields "event_type",
            getField fields "terminal_outcome",getField fields "idempotency_key",getField fields "tombstone_for",
            getField fields "key_ref"⟩ }
  | some (.obj _),none,_ => .error (.key "receipt_type")
  | some (.obj _),some _,_ => .error (.type "record")
  | _,_,_ => .error .manifest

def matchesItem (r : Row) (fields : Fields) : Bool :=
  decide (getField fields "content_hash" = .str r.contentHash) && decide (getField fields "record_hash" = .str r.recordHash)
    && (getField fields "sequence").pyEq (.int r.sequence) && decide (getField fields "previous_hash" = optText r.previousHash)

def importItem (rows : List Row) (fields : Fields) : Except StoreError (Bool × List Row) :=
  if (fields.lookup "payload").isNone then .error .manifest
  else match fields.lookup "receipt_id",fields.lookup "scope" with
    | some id,some scopeValue =>
      let receiptId := pyStr env id
      let scope := pyStr env scopeValue
      if ¬ validScope scope then .error (.value "scope")
      else match findReceipt rows receiptId scope with
        | some existing =>
          if getField fields "record_hash" = .str existing.recordHash then .ok (false,rows) else .error .conflict
        | none => match itemDraft env fields receiptId scope with
          | .error e => .error e
          | .ok d => match insert env rows d with
            | .error e => .error e
            | .ok (row,rows') => if matchesItem row fields then .ok (true,rows') else .error .integrity
    | _,_ => .error (.key "receipt_id")

def importItems : List Json → List Row → Except StoreError (ℕ × List Row)
  | [],rows => .ok (0,rows)
  | .obj fields :: rest,rows => match importItem env rows fields with
    | .error e => .error e
    | .ok (inserted,rows') => match importItems rest rows' with
      | .error e => .error e
      | .ok (n,rows'') => .ok ((if inserted then n + 1 else n),rows'')
  | _ :: _,_ => .error (.type "item")

def importManifest (refused : Bool) (rows : List Row) (manifest : Json) : Except StoreError (ℕ × List Row) :=
  match manifest with
  | .obj fields =>
    let version := (pyStr env ((fields.lookup "version").getD (.str ""))).toList.takeWhile (· ≠ '.')
    if version ≠ ['1'] ∧ version ≠ ['2'] then .error .manifest
    else match getField fields "receipts" with
      | .arr items =>
        if getField fields "manifest_digest" ≠ .str (digest env (.arr items)) then .error .integrity
        else if refused then .error .database
        else match sortedItems env items with
          | none => .error (.type "item")
          | some sorted => importItems env sorted rows
      | _ => .error .manifest
  | _ => .error .manifest

end Manifest
end Verdict.ReceiptStore

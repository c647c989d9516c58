import Verdict.Basics.Regex
import Verdict.Memory.Variants

/-! # Redaction

`redact_secrets` and `redact_mapping`: credentials in a text are replaced by a marker, in four
passes, and values under secret keys are replaced as a whole. Letters compare without case
where the pattern says so; a few letters outside ASCII then compare equal too.
-/
namespace Verdict.Memory
open Substitute
open Char (isAlphanum)
open Path (isSpace)

def REDACTION_MARKER : List Char := "[REDACTED]".toList

/-! ### Character classes -/

def foldCase (c : Char) : Char :=
  if c = 'ſ' then 's' else if c = '\u212A' then 'k' else if c = 'İ' ∨ c = 'ı' then 'i' else c.toLower

def isWord (c : Char) : Bool := c.isAlphanum || c = '_'
def isTokenChar (c : Char) : Bool := c.isAlphanum || c = '_' || c = '-'

def word? (same : Char → Char) : List Char → List Char → Option (List Char × List Char)
  | [], cs => some ([],cs)
  | _ :: _, [] => none
  | w :: ws, c :: cs => if same c = w then (word? same ws cs).map fun found => (c :: found.1,found.2) else none

def oneOf? (same : Char → Char) (words : List String) (cs : List Char) : Option (List Char × List Char) :=
  words.findSome? fun word => word? same word.toList cs

/-! ### The patterns -/

/-- `(?i)(bearer|basic)\s+[^\s,;]+`, replaced by `\1 [REDACTED]`. -/
def authorization : Matcher := fun _ cs => match oneOf? foldCase ["bearer","basic"] cs with
  | none => none
  | some (scheme,rest) =>
    let spaces := rest.takeWhile isSpace
    let value := (rest.dropWhile isSpace).takeWhile fun c => !(isSpace c || c = ',' || c = ';')
    if spaces = [] ∨ value = [] then none
    else some ⟨scheme ++ ' ' :: REDACTION_MARKER,scheme.length + spaces.length + value.length⟩

/-- `token|secret|password|api[_-]?key`. -/
def assignedWords : List String := ["token","secret","password","api_key","api-key","apikey"]

/-- `(?i)(token|secret|password|api[_-]?key)(\s*[=:]\s*)[^\s,;&]+`, replaced by `\1\2[REDACTED]`. -/
def assignment : Matcher := fun _ cs => match oneOf? foldCase assignedWords cs with
  | none => none
  | some (key,rest) =>
    let spaces := rest.takeWhile isSpace
    match rest.dropWhile isSpace with
    | [] => none
    | sign :: rest =>
      let more := rest.takeWhile isSpace
      let value := (rest.dropWhile isSpace).takeWhile fun c => !(isSpace c || c = ',' || c = ';' || c = '&')
      if (sign ≠ '=' ∧ sign ≠ ':') ∨ value = [] then none
      else
        let head := key ++ spaces ++ sign :: more
        some ⟨head ++ REDACTION_MARKER,head.length + value.length⟩

/-- Prefix, characters behind it, and the least number of them, of a bare token other than `sk-`. -/
def tokenShapes : List (String × (Char → Bool) × ℕ) :=
  [("xai-",isAlphanum,40),("gsk_",isAlphanum,40),("hf_",isAlphanum,30),("glpat-",isTokenChar,20),
    ("sk_test_",isAlphanum,16),("sk_live_",isAlphanum,16),("rk_test_",isAlphanum,16),
    ("rk_live_",isAlphanum,16)]

def shape? (cs : List Char) (shape : String × (Char → Bool) × ℕ) : Option ℕ :=
  match word? id shape.1.toList cs with
  | none => none
  | some (start,rest) =>
    let run := rest.takeWhile shape.2.1
    if shape.2.2 ≤ run.length then some (start.length + run.length) else none

/-- The length of an `sk-` token at the front: a run with a digit, or of letters and digits. -/
def skToken? (cs : List Char) : Option ℕ := match word? id "sk-".toList cs with
  | none => none
  | some (start,rest) =>
    let run := rest.takeWhile isTokenChar
    let plain := rest.takeWhile isAlphanum
    if run.any Char.isDigit = true ∧ 16 ≤ run.length then some (start.length + run.length)
    else if 16 ≤ plain.length then some (start.length + plain.length)
    else none

/-- `BARE_API_TOKEN_RE`, replaced by the marker. -/
def bareToken : Matcher := fun before cs =>
  if before.any isWord then none
  else ((skToken? cs).or (tokenShapes.findSome? (shape? cs))).map fun length => ⟨REDACTION_MARKER,length⟩

/-- `(https?://)[^/@\s]+@`, replaced by `\1[REDACTED]@`. -/
def userInfo : Matcher := fun _ cs => match oneOf? id ["https://","http://"] cs with
  | none => none
  | some (scheme,rest) =>
    let user := rest.takeWhile fun c => !(c = '/' || c = '@' || isSpace c)
    if user = [] ∨ (rest.drop user.length).head? ≠ some '@' then none
    else some ⟨scheme ++ REDACTION_MARKER ++ ['@'],scheme.length + user.length + 1⟩

/-! ### Texts and values -/

def redactChars (text : List Char) : List Char := sub userInfo (sub bareToken (sub assignment (sub authorization text)))

def redactSecrets (text : String) : String := String.ofList (redactChars text.toList)

/-- `(?i)(token|secret|password|api[_-]?key|authorization|auth)$`, found at the end of a key or before a
newline that ends it. -/
def secretKey (key : String) : Bool :=
  let ends := fun cs : List Char => (assignedWords ++ ["authorization","auth"]).any fun word =>
    word.toList.reverse.isPrefixOf (cs.reverse.map foldCase)
  let cs := key.toList
  ends cs || (cs.getLast? = some '\n' && ends cs.dropLast)

mutual

def redactMapping : Json → Json
  | .scalar (.str s) => .str (redactSecrets s)
  | .scalar s => .scalar s
  | .arr xs => .arr (redactList xs)
  | .obj fields => .obj (redactFields fields)

def redactList : List Json → List Json
  | [] => []
  | x :: xs => redactMapping x :: redactList xs

def redactFields : List (String × Json) → List (String × Json)
  | [] => []
  | (k,v) :: rest => (k,if secretKey k then .str (String.ofList REDACTION_MARKER) else redactMapping v) :: redactFields rest

end

end Verdict.Memory

/-! ## Sanitised events

`sanitize_event` redacts the JSON form of an event and constructs the event again, with its
digests computed anew. Field by field this is the event with every text redacted.
-/
namespace Verdict.Memory
open JsonCodec
open Raising
open Substitute (sub_ne_nil)
variable {sha : Sha}

section
variable (sha)

def sanitizeEvent (e : LifecycleEvent sha) : Except EventError (LifecycleEvent sha) :=
  fromDict sha (Dict.put "idempotency_key" (.str "") (Dict.put "content_hash" (.str "") (redactFields e.toDict)))

end

variable (i : EventIdentity)

def redactIdentity : EventIdentity where
  sourceHarness := redactSecrets i.sourceHarness
  project := redactSecrets i.project
  sessionId := redactSecrets i.sessionId
  parentSessionId := i.parentSessionId.map redactSecrets
  attemptId := i.attemptId.map redactSecrets
  sourceEventId := i.sourceEventId.map redactSecrets
  tenant := redactSecrets i.tenant
  workspace := redactSecrets i.workspace
  sourceAgent := redactSecrets i.sourceAgent

def redactArgs (a : EventArgs) : EventArgs where
  kind := redactSecrets a.kind
  content := redactSecrets a.content
  identity := redactIdentity a.identity
  createdAt := a.createdAt
  observedAt := a.observedAt
  scope := redactSecrets a.scope
  memoryKind := redactSecrets a.memoryKind
  sensitivity := redactSecrets a.sensitivity
  trust := redactSecrets a.trust
  classification := redactSecrets a.classification
  derivedFrom := a.derivedFrom.map redactSecrets
  provenance := redactFields a.provenance
  payload := redactFields a.payload
  metadata := redactFields a.metadata
  revision := redactSecrets a.revision
  schemaVersion := redactSecrets a.schemaVersion
  protocolVersion := redactSecrets a.protocolVersion
  deadlineAt := a.deadlineAt

/-! ### Reading what was not sorted -/

theorem numberCodec_exact (n : Number) : numberCodec.decode (numberCodec.encode n) = some n := dif_pos n.isNumber

variable (time : Option Number)

theorem clock_exact : clock.decode (clock.encode time) = some time := by
  cases time with
  | none => rfl
  | some n =>
    have hread : clock.decode (clock.encode (some n)) = (numberCodec.decode (numberCodec.encode n)).map some :=
      if_neg (numberCodec_ne_null n)
    rw [hread,numberCodec_exact]
    rfl

theorem listString_exact (xs : List String) : (xs.map string.encode).mapM string.decode = some xs := by
  rw [List.mapM_map]
  exact (mapM_some (fun _ => rfl) xs).trans (congrArg some (List.map_id xs))

section
variable {α : Type} {es : List (String × Option Json)} (hnodup : (es.map Prod.fst).Nodup)
include hnodup

variable {c : Codec α} {key : String} {a : α}

theorem need_kept (hexact : ∀ a, c.decode (c.encode a) = some a) (i : ℕ)
    (h : es[i]? = some (field key c a)) : need c key (record es) = some a := by
  rw [need,lookup_record hnodup (List.mem_of_getElem? h)]
  exact hexact a

theorem find_kept (hexact : ∀ a, c.decode (c.encode a) = some a) (i : ℕ)
    (h : es[i]? = some (field key c a)) : find c key (record es) = some (some a) := by
  rw [find,lookup_record hnodup (List.mem_of_getElem? h)]
  simp only [hexact,Option.map_some]

variable (i : ℕ)

theorem needText_kept {a : String} (h : es[i]? = some (field key string a)) :
    needText key (record es) = .ok a := by
  rw [needText,need_kept hnodup (fun _ => rfl) i h]
  rfl

theorem readText_kept {default : String} {a : String} (h : es[i]? = some (field key string a)) :
    readText key default (record es) = .ok a := by
  rw [readText,find_kept hnodup (fun _ => rfl) i h]
  rfl

theorem readId_kept {a : Option String} (h : es[i]? = some (field key nullableString a)) :
    readId key (record es) = .ok a := by
  rw [readId,find_kept hnodup (fun o => by cases o <;> rfl) i h]
  rfl

theorem readClock_kept {a : Option Number} (h : es[i]? = some (field key clock a)) :
    readClock key (record es) = .ok a := by
  rw [readClock,find_kept hnodup clock_exact i h]
  rfl

theorem readObject_kept {a : Fields} (h : es[i]? = some (field key object a)) :
    readObject key (record es) = .ok a := by
  rw [readObject,find_kept hnodup (fun _ => rfl) i h]
  rfl

end

def entryNames : List String :=
  ["schema_version","protocol_version","kind","content","content_hash","identity","created_at","observed_at","scope",
    "memory_kind","sensitivity","trust","classification","derived_from","provenance","payload","metadata","revision",
    "idempotency_key","deadline_at"]

theorem readIdentity_kept : readIdentity i.toDict = .ok i := by
  have hnodup : (i.entries.map Prod.fst).Nodup := by
    show identityFields.Nodup
    decide
  rw [readIdentity,EventIdentity.toDict]
  simp only [bind,Except.bind,needText_kept hnodup 0 rfl,needText_kept hnodup 1 rfl,needText_kept hnodup 2 rfl,
    readId_kept hnodup 3 rfl,readId_kept hnodup 4 rfl,readId_kept hnodup 5 rfl,readText_kept hnodup 6 rfl,
    readText_kept hnodup 7 rfl,readText_kept hnodup 8 rfl]
  rfl

theorem readArgs_kept (a : EventArgs) : readArgs a.toDict = .ok a := by
  have hnodup : (a.entries.map Prod.fst).Nodup := by
    show entryNames.Nodup
    decide
  have hderived : readDerivedFrom a.toDict = .ok a.derivedFrom := by
    rw [readDerivedFrom,EventArgs.toDict,
      lookup_record hnodup (List.mem_of_getElem? (show a.entries[13]? = some (field "derived_from" _ a.derivedFrom) from rfl))]
    exact congrArg typed (listString_exact a.derivedFrom)
  rw [readArgs,hderived,EventArgs.toDict]
  simp only [bind,Except.bind,need_kept hnodup (c := object) (fun _ => rfl) 5 rfl,typed,readIdentity_kept,
    needText_kept hnodup 2 rfl,needText_kept hnodup 3 rfl,need_kept hnodup numberCodec_exact 6 rfl,
    readText_kept hnodup 4 rfl,readClock_kept hnodup 7 rfl,readText_kept hnodup 8 rfl,readText_kept hnodup 9 rfl,
    readText_kept hnodup 10 rfl,readText_kept hnodup 11 rfl,readText_kept hnodup 12 rfl,readObject_kept hnodup 14 rfl,
    readObject_kept hnodup 15 rfl,readObject_kept hnodup 16 rfl,readText_kept hnodup 17 rfl,readText_kept hnodup 0 rfl,
    readText_kept hnodup 1 rfl,readText_kept hnodup 18 rfl,readClock_kept hnodup 19 rfl]
  rfl

/-! ### Field by field -/

theorem redactMapping_id (o : Option String) :
    redactMapping (nullableString.encode o) = nullableString.encode (o.map redactSecrets) := by
  cases o <;> rfl

theorem redactMapping_number (n : Number) : redactMapping (numberCodec.encode n) = numberCodec.encode n := by
  obtain ⟨s,h⟩ := n
  cases s with
  | str s => cases h
  | _ => rfl

theorem redactMapping_clock : redactMapping (clock.encode time) = clock.encode time := by
  cases time with
  | none => rfl
  | some n => exact redactMapping_number n

theorem redactMapping_texts (xs : List String) :
    redactMapping ((JsonCodec.list string).encode xs) = (JsonCodec.list string).encode (xs.map redactSecrets) := by
  show Json.arr (redactList (xs.map string.encode)) = Json.arr ((xs.map redactSecrets).map string.encode)
  congr 1
  induction xs with
  | nil => rfl
  | cons x xs ih => exact congrArg (Json.str (redactSecrets x) :: ·) ih

theorem known_not_secret : ∀ key ∈ entryNames ++ identityFields, secretKey key = false := by decide +kernel

theorem redactFields_identity : redactFields i.toDict = (redactIdentity i).toDict := by
  have hkey : ∀ key ∈ identityFields, secretKey key = false :=
    fun key h => known_not_secret key (List.mem_append_right _ h)
  simp only [identityFields,List.forall_mem_cons] at hkey
  obtain ⟨h0,h1,h2,h3,h4,h5,h6,h7,h8,-⟩ := hkey
  simp only [EventIdentity.toDict,EventIdentity.entries,record,field,List.filterMap_cons,Option.map_some,
    List.filterMap_nil,redactFields,h0,h1,h2,h3,h4,h5,h6,h7,h8,Bool.false_eq_true,if_false,redactMapping_id]
  rfl

theorem redactFields_toDict (a : EventArgs) :
    Dict.put "idempotency_key" (.str "") (Dict.put "content_hash" (.str "") (redactFields a.toDict)) = (redactArgs a).toDict := by
  have hkey : ∀ key ∈ entryNames, secretKey key = false := fun key h => known_not_secret key (List.mem_append_left _ h)
  have hobject : ∀ fs : Fields, redactMapping (object.encode fs) = object.encode (redactFields fs) := fun _ => rfl
  simp only [entryNames,List.forall_mem_cons] at hkey
  obtain ⟨h0,h1,h2,h3,h4,h5,h6,h7,h8,h9,h10,h11,h12,h13,h14,h15,h16,h17,h18,h19,-⟩ := hkey
  simp only [EventArgs.toDict,EventArgs.entries,record,field,List.filterMap_cons,Option.map_some,
    List.filterMap_nil,redactFields,h0,h1,h2,h3,h4,h5,h6,h7,h8,h9,h10,h11,h12,h13,h14,h15,h16,h17,h18,h19,
    Bool.false_eq_true,if_false,redactMapping_number,redactMapping_clock,redactMapping_texts,hobject,redactFields_identity]
  rfl

/-! ### The event that comes out -/

theorem redactChars_ne_nil {text : List Char} (h : text ≠ []) : redactChars text ≠ [] := by
  have hmarked : ∀ front back : List Char, front ++ (REDACTION_MARKER ++ back) ≠ [] :=
    fun front back => List.append_ne_nil_of_right_ne_nil _ (List.append_ne_nil_of_left_ne_nil (by decide) _)
  refine sub_ne_nil (fun before cs found hfound => ?_) (sub_ne_nil (fun before cs found hfound => ?_)
    (sub_ne_nil (fun before cs found hfound => ?_) (sub_ne_nil (fun before cs found hfound => ?_) h)))
  · unfold userInfo at hfound
    split at hfound
    · cases hfound
    · dsimp only at hfound
      split at hfound
      · cases hfound
      · cases hfound
        simp
  · unfold bareToken at hfound
    split at hfound
    · cases hfound
    · obtain ⟨_,-,rfl⟩ := Option.map_eq_some_iff.mp hfound
      exact List.cons_ne_nil _ _
  · unfold assignment at hfound
    split at hfound
    · cases hfound
    · dsimp only at hfound
      split at hfound
      · cases hfound
      · split at hfound
        · cases hfound
        · cases hfound
          simp
  · unfold authorization at hfound
    split at hfound
    · cases hfound
    · dsimp only at hfound
      split at hfound
      · cases hfound
      · cases hfound
        simp

theorem redactSecrets_ne_empty {text : String} (h : text ≠ "") : redactSecrets text ≠ "" := by
  intro hempty
  refine redactChars_ne_nil (fun hnil => h (String.toList_inj.mp hnil)) (?_ : redactChars text.toList = [])
  simpa [redactSecrets] using congrArg String.toList hempty

theorem redactSecrets_fixed : ∀ text ∈ [LIFECYCLE_EVENT_SCHEMA,SHARED_MEMORY_PROTOCOL_VERSION,"source","derived"] ++
    allowedEventKinds.map EventKind.text, redactSecrets text = text := by decide +kernel

theorem canonKind_fixed : ∀ kind ∈ allowedEventKinds.map EventKind.text, canonKind kind = kind := by decide +kernel

theorem construct_unkeyed {a : EventArgs} (hallowed : Allowed (canonKind a.kind)) (hschema : a.schemaVersion = LIFECYCLE_EVENT_SCHEMA)
    (hprotocol : a.protocolVersion = SHARED_MEMORY_PROTOCOL_VERSION)
    (hrequired : a.content ≠ "" ∧ a.identity.project ≠ "" ∧ a.identity.sessionId ≠ "")
    (hclassified : a.classification = "source" ∨ a.classification = "derived") (hhash : a.contentHash = "") (hkey : a.idempotencyKey = "") :
    ∃ r : LifecycleEvent sha, r.toEventArgs = {a with kind := canonKind a.kind, contentHash := sha.text a.content} ∧
      construct sha a = (r.derivedKey sha).map fun key => {r with idempotencyKey := key} := by
  obtain ⟨r,hr,hcheck⟩ : ∃ r : LifecycleEvent sha, r.toEventArgs = {a with kind := canonKind a.kind, contentHash := sha.text a.content} ∧
      check sha a = .ok r := by
    refine ⟨{a with
      kind := canonKind a.kind, contentHash := sha.text a.content
      allowed := hallowed, schema := hschema, protocol := hprotocol, required := hrequired, classified := hclassified, hashed := rfl},rfl,?_⟩
    rw [check,dif_neg (not_not.mpr hallowed),dif_neg (not_not.mpr hschema),dif_neg (not_not.mpr hprotocol),
      dif_neg (not_not.mpr hrequired),dif_neg (not_not.mpr hclassified),if_neg fun h => h.1 hhash]
  have hblank : r.idempotencyKey = "" := (congrArg EventArgs.idempotencyKey hr).trans hkey
  refine ⟨r,hr,?_⟩
  rw [construct,hcheck,Except.bind,withKey,if_neg (not_not.mpr hblank)]

/-- No check can refuse an event because it was redacted: sanitizing raises only where no key can be derived from the
redacted event, and otherwise gives this event with that key. -/
theorem sanitizeEvent_exact (e : LifecycleEvent sha) : ∃ r : LifecycleEvent sha, r.toEventArgs =
    {redactArgs e.toEventArgs with kind := e.kind, contentHash := sha.text (redactSecrets e.content)} ∧
    sanitizeEvent sha e = (r.derivedKey sha).map fun key => {r with idempotencyKey := key} := by
  have hfixed : ∀ text, text ∈ [LIFECYCLE_EVENT_SCHEMA,SHARED_MEMORY_PROTOCOL_VERSION,"source","derived"] → redactSecrets text = text :=
    fun text h => redactSecrets_fixed text (List.mem_append_left _ h)
  have hkind : canonKind (redactArgs e.toEventArgs).kind = e.kind := by
    rw [redactArgs,redactSecrets_fixed _ (List.mem_append_right _ e.allowed),canonKind_fixed _ e.allowed]
  have hclassified : redactSecrets e.classification = e.classification := by
    rcases e.classified with h | h <;> rw [h,hfixed _ (by simp)]
  have hread : sanitizeEvent sha e = construct sha (redactArgs e.toEventArgs) := by
    rw [sanitizeEvent,redactFields_toDict,fromDict,readArgs_kept,Except.bind]
  obtain ⟨r,hr,hconstruct⟩ := construct_unkeyed (a := redactArgs e.toEventArgs) (hkind ▸ e.allowed)
    ((hfixed _ (by simp [e.schema])).trans e.schema) ((hfixed _ (by simp [e.protocol])).trans e.protocol)
    ⟨redactSecrets_ne_empty e.required.1,redactSecrets_ne_empty e.required.2.1,redactSecrets_ne_empty e.required.2.2⟩
    (e.classified.imp hclassified.trans hclassified.trans) rfl rfl
  refine ⟨r,?_,hread.trans hconstruct⟩
  rw [hr,hkind]
  rfl

end Verdict.Memory

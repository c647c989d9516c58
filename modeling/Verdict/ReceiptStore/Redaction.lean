import Mathlib.Data.List.Infix
import Verdict.Basics.Json
import Verdict.Contracts.Path

/-! # Redaction of receipt payloads

`redact_sensitive_dict` replaces the values of sensitive and raw keys and rewrites secrets
and URLs inside texts. The three substitutions are written as scanners: each pattern has at
most one match at a position, since no part of it can give back a character that the next
part takes. Case folding of keys enters as `lower`.
-/
namespace Verdict.ReceiptStore
open Path (isSpace)

def redacted : String := "[REDACTED]"

def sensitiveKeyParts : List String :=
  ["api_key","apikey","secret","password","passwd","token","credential","authorization","auth","account_id",
   "private_key","access_key","client_secret"]

def rawKeyParts : List String :=
  ["prompt","messages","tool_arg","arguments","completion","output","transcript","request_body","response_body"]

/-- Sensitive parts match whole key segments. -/
def keyMatchesParts (lower : String → String) (name : String) (parts : List String) : Bool :=
  let folded := (lower name).toList.map fun c => if c = '-' then '_' else c
  let segments := (folded.splitOn '_').filter (· ≠ [])
  parts.any (fun part => decide (folded = part.toList) || segments.contains part.toList
    || segments.contains (part.toList ++ ['s']))

section

/-- A letter of a pattern under `(?i)`; three letters have further case variants. -/
def sameLetter (p c : Char) : Bool :=
  c = p || c = p.toUpper || (p = 'i' && (c = 'İ' || c = 'ı')) || (p = 'k' && c = '\u212A') || (p = 's' && c = 'ſ')

def dropWord : List Char → List Char → Option (List Char)
  | [],cs => some cs
  | _ :: _,[] => none
  | p :: ps,c :: cs => if sameLetter p c then dropWord ps cs else none

variable (cs : List Char)

/-- What follows the first group of `_SECRET_TEXT`. -/
def secretLead : Option (List Char) :=
  match dropWord "bearer".toList cs with
  | some rest => if rest.head?.any isSpace then some (rest.dropWhile isSpace) else none
  | none =>
    match ["api_key","api-key","apikey","secret","password","token"].findSome? (fun w => dropWord w.toList cs) with
    | some rest =>
      let sep := rest.dropWhile isSpace
      if sep.head? = some ':' ∨ sep.head? = some '=' then some (sep.tail.dropWhile isSpace) else none
    | none => none

/-- What follows `https?://`. -/
def schemeLead : Option (List Char) :=
  match dropWord "https://".toList cs with
  | some rest => some rest
  | none => dropWord "http://".toList cs

/-- The replacement of a match that keeps what stands in front of `rest` and drops `value`. -/
def replaceAfter (cs rest : List Char) (value : List Char) (mark : String) : List Char × ℕ :=
  let kept := cs.take (cs.length - rest.length)
  (kept ++ mark.toList,kept.length + value.length)

def secretMatch : Option (List Char × ℕ) :=
  (secretLead cs).bind (fun rest =>
    let value := rest.takeWhile fun c => !isSpace c && c ≠ ',' && c ≠ ';'
    if value = [] then none else some (replaceAfter cs rest value redacted))

/-- `_URL_WITH_CREDENTIALS`: the text up to the `@` has a colon with something on either side. -/
def credentialsMatch : Option (List Char × ℕ) :=
  (schemeLead cs).bind (fun rest =>
    let run := rest.takeWhile fun c => !isSpace c && c ≠ '/' && c ≠ '@'
    if (rest.drop run.length).head? = some '@' ∧ ':' ∈ (run.drop 1).dropLast then
      some (replaceAfter cs rest (run ++ ['@']) (redacted ++ "@")) else none)

def queryMatch : Option (List Char × ℕ) :=
  (schemeLead cs).bind (fun rest =>
    let host := rest.takeWhile fun c => !isSpace c && c ≠ '/' && c ≠ '?' && c ≠ '#'
    let path := rest.drop host.length
    let query := if path.head? = some '/' then path.dropWhile (fun c => !isSpace c && c ≠ '?' && c ≠ '#') else path
    let value := query.tail.takeWhile fun c => !isSpace c && c ≠ '#'
    if host ≠ [] ∧ query.head? = some '?' ∧ value ≠ [] then
      some (replaceAfter cs query ('?' :: value) ("?" ++ redacted)) else none)

/-- `pattern.sub`, after `skip` characters of a match: from left to right, without overlap. -/
def subScan (find : List Char → Option (List Char × ℕ)) : ℕ → List Char → List Char
  | _,[] => []
  | skip + 1,_ :: cs => subScan find skip cs
  | 0,c :: cs => match find (c :: cs) with
    | some (replacement,taken) => replacement ++ subScan find (taken - 1) cs
    | none => c :: subScan find 0 cs

end

def redactText (lower : String → String) (value : String) : String :=
  let folded := (lower value).toList
  let mentions (word : String) : Bool := word.toList <:+: folded
  let cs := value.toList
  let cs := if ["bearer","key","secret","token","password"].any mentions then subScan secretMatch 0 cs else cs
  let cs := if mentions "http" then subScan queryMatch 0 (subScan credentialsMatch 0 cs) else cs
  String.ofList cs

section
variable (lower : String → String) (allowlist : List String)

def allowed (path key : String) : Bool := allowlist.contains path || allowlist.contains key

/-- `path.rsplit(".", 1)[-1]`. -/
def lastField (path : String) : String :=
  String.ofList (path.toList.reverse.takeWhile (· ≠ '.')).reverse

def childPath (path name : String) : String := if path = "" then name else path ++ "." ++ name
def itemPath (path : String) (index : ℕ) : String := path ++ "[" ++ toString index ++ "]"

mutual

def redactValue (path : String) : Json → Json
  | .obj fields => .obj (redactFields path fields)
  | .arr xs => .arr (redactItems path 0 xs)
  | .scalar (.str s) => if allowed allowlist path (lastField path) then .str s else .str (redactText lower s)
  | .scalar s => .scalar s

def redactItems (path : String) : ℕ → List Json → List Json
  | _,[] => []
  | index,x :: xs => redactValue (itemPath path index) x :: redactItems path (index + 1) xs

def redactFields (path : String) : List (String × Json) → List (String × Json)
  | [] => []
  | (name,item) :: rest =>
    let clean := if (keyMatchesParts lower name sensitiveKeyParts || keyMatchesParts lower name rawKeyParts)
        && !allowed allowlist (childPath path name) name then .str redacted
      else redactValue (childPath path name) item
    (name,clean) :: redactFields path rest

end

def redactSensitiveDict (fields : List (String × Json)) : List (String × Json) := redactFields lower allowlist "" fields

end
end Verdict.ReceiptStore

/-! ## What redaction leaves as it is

A text in which no word of the secret pattern stands, and no `@` and no `?`, passes every
substitution. So does an object of such texts under keys that are neither sensitive nor raw.
-/
namespace Verdict.ReceiptStore
open Path (isSpace)

/-- The words of the first group of `_SECRET_TEXT`. -/
def secretWords : List String := ["bearer","api_key","api-key","apikey","secret","password","token"]

structure Inert (s : String) : Prop where
  words : ∀ w ∈ secretWords, ∀ t, t <:+ s.toList → dropWord w.toList t = none
  noUser : '@' ∉ s.toList
  noQuery : '?' ∉ s.toList

variable {w t rest : List Char}

theorem dropWord_suffix (h : dropWord w t = some rest) : rest <:+ t := by
  induction w generalizing t with
  | nil =>
    cases h
    exact List.suffix_refl _
  | cons p ps ih =>
    cases t with
    | nil => cases h
    | cons c cs =>
      rw [dropWord] at h
      split at h
      · exact (ih h).trans (List.suffix_cons c cs)
      · cases h

theorem dropWord_letters (h : dropWord w t = some rest) : ∀ p ∈ w, ∃ c ∈ t, sameLetter p c = true := by
  induction w generalizing t with
  | nil => exact fun p hp => absurd hp List.not_mem_nil
  | cons q ps ih =>
    cases t with
    | nil => cases h
    | cons c cs =>
      rw [dropWord] at h
      split at h
      · rename_i hsame
        intro p hp
        rcases List.mem_cons.mp hp with rfl | hp
        · exact ⟨c,List.mem_cons_self,hsame⟩
        · obtain ⟨d,hd,hletter⟩ := ih h p hp
          exact ⟨d,List.mem_cons_of_mem c hd,hletter⟩
      · cases h

theorem inert_of_alphabet (alphabet : List Char) {s : String} (h : ∀ c ∈ s.toList, c ∈ alphabet)
    (hwords : (secretWords.all fun w => w.toList.any fun p => alphabet.all fun c => !sameLetter p c) = true)
    (huser : '@' ∉ alphabet) (hquery : '?' ∉ alphabet) : Inert s := by
  refine ⟨fun w hw t ht => ?_,fun hmem => huser (h _ hmem),fun hmem => hquery (h _ hmem)⟩
  cases hdrop : dropWord w.toList t with
  | none => rfl
  | some rest =>
    obtain ⟨p,hp,hmissing⟩ := List.any_eq_true.mp (List.all_eq_true.mp hwords w hw)
    obtain ⟨c,hc,hsame⟩ := dropWord_letters hdrop p hp
    have hno := List.all_eq_true.mp hmissing c (h c (ht.subset hc))
    rw [hsame] at hno
    cases hno

/-! ### The substitutions -/

theorem subScan_none {find : List Char → Option (List Char × ℕ)} {cs : List Char} (h : ∀ t, t <:+ cs → find t = none) :
    subScan find 0 cs = cs := by
  induction cs with
  | nil => rfl
  | cons c cs ih =>
    rw [subScan,h _ (List.suffix_refl _)]
    exact congrArg (c :: ·) (ih fun t ht => h t (ht.trans (List.suffix_cons c cs)))

theorem secretMatch_none (h : ∀ w ∈ secretWords, dropWord w.toList t = none) : secretMatch t = none := by
  have hbearer : dropWord "bearer".toList t = none := h _ List.mem_cons_self
  have hrest : ["api_key","api-key","apikey","secret","password","token"].findSome? (fun w => dropWord w.toList t) = none :=
    List.findSome?_eq_none_iff.mpr fun w hw => h w (List.mem_cons_of_mem _ hw)
  rw [secretMatch,secretLead,hbearer]
  simp only
  rw [hrest]
  rfl

theorem schemeLead_suffix (h : schemeLead t = some rest) : rest <:+ t := by
  rw [schemeLead] at h
  split at h
  · rename_i found hfound
    cases h
    exact dropWord_suffix hfound
  · exact dropWord_suffix h

theorem credentialsMatch_none (h : '@' ∉ t) : credentialsMatch t = none := by
  rw [credentialsMatch]
  cases hlead : schemeLead t with
  | none => rfl
  | some rest =>
    refine if_neg fun hmatch => h ?_
    exact (schemeLead_suffix hlead).subset (List.drop_subset _ _ (List.mem_of_mem_head? hmatch.1))

theorem queryMatch_none (h : '?' ∉ t) : queryMatch t = none := by
  rw [queryMatch]
  cases hlead : schemeLead t with
  | none => rfl
  | some rest =>
    refine if_neg fun hmatch => h ((schemeLead_suffix hlead).subset ?_)
    have hmem := List.mem_of_mem_head? hmatch.2.1
    split at hmem
    · exact List.drop_subset _ _ ((List.dropWhile_suffix _).subset hmem)
    · exact List.drop_subset _ _ hmem

theorem Inert.redactText {s : String} (h : Inert s) (lower : String → String) : redactText lower s = s := by
  have hsecret : subScan secretMatch 0 s.toList = s.toList :=
    subScan_none fun t ht => secretMatch_none fun w hw => h.words w hw t ht
  have hcredentials : subScan credentialsMatch 0 s.toList = s.toList :=
    subScan_none fun t ht => credentialsMatch_none fun hmem => h.noUser (ht.subset hmem)
  have hquery : subScan queryMatch 0 s.toList = s.toList :=
    subScan_none fun t ht => queryMatch_none fun hmem => h.noQuery (ht.subset hmem)
  have hfirst : ∀ b : Bool, (if b then subScan secretMatch 0 s.toList else s.toList) = s.toList := by
    intro b
    rw [hsecret,ite_self]
  have hsecond : ∀ b : Bool, (if b then subScan queryMatch 0 (subScan credentialsMatch 0 s.toList) else s.toList) = s.toList := by
    intro b
    rw [hcredentials,hquery,ite_self]
  unfold ReceiptStore.redactText
  show String.ofList (if _ then subScan queryMatch 0 (subScan credentialsMatch 0 (if _ then _ else _)) else (if _ then _ else _)) = s
  rw [hfirst,hsecond,String.ofList_toList]

/-! ### Objects -/

section
variable (lower : String → String)

def PlainKey (name : String) : Prop :=
  keyMatchesParts lower name sensitiveKeyParts = false ∧ keyMatchesParts lower name rawKeyParts = false

mutual

def Untouched : Json → Prop
  | .obj fields => UntouchedFields fields
  | .arr xs => UntouchedItems xs
  | .scalar (.str s) => Inert s
  | .scalar _ => True

def UntouchedItems : List Json → Prop
  | [] => True
  | x :: xs => Untouched x ∧ UntouchedItems xs

def UntouchedFields : List (String × Json) → Prop
  | [] => True
  | (name,item) :: rest => PlainKey lower name ∧ Untouched item ∧ UntouchedFields rest

end

variable {lower} (allowlist : List String)

mutual

theorem redactValue_untouched (path : String) : (j : Json) → Untouched lower j → redactValue lower allowlist path j = j
  | .obj fields, h => congrArg Json.obj (redactFields_untouched path fields h)
  | .arr xs, h => congrArg Json.arr (redactItems_untouched path 0 xs h)
  | .scalar s, h => by
    cases s with
    | str s =>
      rw [redactValue]
      split
      · rfl
      · rw [Inert.redactText h]
    | _ => rfl

theorem redactItems_untouched (path : String) (index : ℕ) :
    (xs : List Json) → UntouchedItems lower xs → redactItems lower allowlist path index xs = xs
  | [], _ => rfl
  | x :: xs, h => by
    rw [redactItems,redactValue_untouched _ x h.1,redactItems_untouched path (index + 1) xs h.2]

theorem redactFields_untouched (path : String) :
    (fields : List (String × Json)) → UntouchedFields lower fields → redactFields lower allowlist path fields = fields
  | [], _ => rfl
  | (name,item) :: rest, h => by
    have hkey : (keyMatchesParts lower name sensitiveKeyParts || keyMatchesParts lower name rawKeyParts) = false := by
      rw [h.1.1,h.1.2]
      rfl
    rw [redactFields,hkey,redactValue_untouched _ item h.2.1,redactFields_untouched path rest h.2.2]
    rfl

end

theorem untouchedItems_of_forall {xs : List Json} (h : ∀ x ∈ xs, Untouched lower x) : UntouchedItems lower xs := by
  induction xs with
  | nil => exact trivial
  | cons x xs ih => exact ⟨h x List.mem_cons_self,ih fun y hy => h y (List.mem_cons_of_mem x hy)⟩

variable {fields : List (String × Json)}

theorem untouchedFields_of_forall (h : ∀ e ∈ fields, PlainKey lower e.1 ∧ Untouched lower e.2) :
    UntouchedFields lower fields := by
  induction fields with
  | nil => exact trivial
  | cons e rest ih =>
    obtain ⟨hkey,hitem⟩ := h e List.mem_cons_self
    exact ⟨hkey,hitem,ih fun f hf => h f (List.mem_cons_of_mem e hf)⟩

theorem redactSensitiveDict_untouched (h : UntouchedFields lower fields) :
    redactSensitiveDict lower allowlist fields = fields := redactFields_untouched allowlist "" fields h

end

/-- `str.lower` leaves a text of small letters, digits and underscores. -/
def KeepsSmall (lower : String → String) : Prop :=
  ∀ s : String, (∀ c ∈ s.toList, c.isLower ∨ c.isDigit ∨ c = '_') → lower s = s

theorem plainKey_of_small {lower : String → String} (hlower : KeepsSmall lower) {name : String}
    (hsmall : ∀ c ∈ name.toList, c.isLower ∨ c.isDigit ∨ c = '_') (h : PlainKey id name) : PlainKey lower name := by
  rw [PlainKey,keyMatchesParts,keyMatchesParts,hlower name hsmall]
  exact h

end Verdict.ReceiptStore

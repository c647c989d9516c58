import Verdict.Memory.Sanitize

/-! # Patterns of a context pack

`sanitize_injection_patterns` and `_SECRET_PATTERNS`. Letters compare without case where the
pattern says so; which characters are word characters is left open beyond what the patterns need.
-/
namespace Verdict.Context
open Memory (foldCase word?)
open Path (isSpace)
open Substitute

abbrev Text := List Char

/-- `\w`: letters, digits and the underscore are word characters, blanks and the other characters of ASCII are not. -/
structure WordClass where
  isWord : Char → Bool
  folded : ∀ c, (foldCase c).isAlphanum = true → isWord c = true
  underscore : isWord '_' = true
  blank : ∀ c, isSpace c = true → isWord c = false
  ascii : ∀ c, c.toNat < 128 → c.isAlphanum = false → c ≠ '_' → isWord c = false

theorem isUpper_eq (c : Char) : c.isUpper = decide (c.val ≥ 'A'.val ∧ c.val ≤ 'Z'.val) := rfl

theorem isLower_eq (c : Char) : c.isLower = (decide (c.val ≥ 'a'.val) && decide (c.val ≤ 'z'.val)) := rfl

theorem isAlpha_eq (c : Char) : c.isAlpha = (c.isUpper || c.isLower) := rfl

variable {c : Char}

theorem toLower_of_not_upper (h : ¬ (c.val ≥ 'A'.val ∧ c.val ≤ 'Z'.val)) : c.toLower = c := dif_neg h

theorem foldCase_of_not_alphanum (h : c.isAlphanum = false) (hc : c ≠ 'ſ' ∧ c ≠ '\u212A' ∧ c ≠ 'İ' ∧ c ≠ 'ı') :
    foldCase c = c := by
  obtain ⟨hs,hk,hi,hj⟩ := hc
  have hupper : ¬ (c.val ≥ 'A'.val ∧ c.val ≤ 'Z'.val) := by
    simp only [Char.isAlphanum,isAlpha_eq,isUpper_eq,Bool.or_eq_false_iff,decide_eq_false_iff_not] at h
    exact h.1.1
  rw [foldCase,if_neg hs,if_neg hk,if_neg (by simp [hi,hj]),toLower_of_not_upper hupper]

theorem not_alphanum_of_isSpace (h : isSpace c = true) : c.isAlphanum = false := by
  simp only [isSpace,Bool.or_eq_true,Bool.and_eq_true,decide_eq_true_eq,beq_iff_eq] at h
  simp only [Char.isAlphanum,isAlpha_eq,isUpper_eq,isLower_eq,Char.isDigit,Bool.or_eq_false_iff,decide_eq_false_iff_not,
    Bool.and_eq_false_iff,ge_iff_le,UInt32.le_iff_toNat_le]
  have : c.val.toNat = c.toNat := rfl
  simp only [this]
  simp
  omega

theorem ne_of_isSpace (h : isSpace c = true) : c ≠ 'ſ' ∧ c ≠ '\u212A' ∧ c ≠ 'İ' ∧ c ≠ 'ı' ∧ c ≠ '_' := by
  refine ⟨?_,?_,?_,?_,?_⟩ <;> rintro rfl <;> revert h <;> decide

/-- The letters and digits of ASCII, the underscore, and the letters that compare equal to one of ASCII. -/
def asciiWords : WordClass where
  isWord := fun c => (foldCase c).isAlphanum || c = '_'
  folded := fun c h => by rw [h]; rfl
  underscore := by decide
  blank := fun c h => by
    obtain ⟨hs,hk,hi,hj,hu⟩ := ne_of_isSpace h
    have halnum := not_alphanum_of_isSpace h
    rw [foldCase_of_not_alphanum halnum ⟨hs,hk,hi,hj⟩,halnum]
    simp [hu]
  ascii := fun c hc halnum hu => by
    have hne : c ≠ 'ſ' ∧ c ≠ '\u212A' ∧ c ≠ 'İ' ∧ c ≠ 'ı' := by
      refine ⟨?_,?_,?_,?_⟩ <;> rintro rfl <;> revert hc <;> decide
    rw [foldCase_of_not_alphanum halnum hne,halnum]
    simp [hu]

section
variable (W : WordClass)

/-- `(?i)\bSystem:\s*` and its like, replaced by `System (quoted): `. -/
def role (name : String) : Matcher := fun before cs =>
  if before.any W.isWord then none
  else match word? foldCase ((name ++ ":").toList.map Char.toLower) cs with
    | none => none
    | some (word,rest) => some ⟨(name ++ " (quoted): ").toList,word.length + (rest.takeWhile isSpace).length⟩

/-- The patterns of `sanitize_injection_patterns` with their replacements, in order. -/
def controls : List Matcher :=
  [literal "<system>".toList "&lt;system&gt;".toList, literal "</system>".toList "&lt;/system&gt;".toList,
   literal "[INST]".toList "\\[INST\\]".toList,
   literal "[/INST]".toList "\\[/INST\\]".toList,
   role W "System",
   role W "User",
   role W "Assistant"]

def sanitizeInjectionPatterns (text : Text) : Text := (controls W).foldl (fun t m => sub m t) text

end

/-! ### Secrets -/

section
variable (W : WordClass)

/-- `api[_-]?key|access[_-]?token|client[_-]?secret|password`. -/
def assignedNames : List (String × String) := [("api","key"),("access","token"),("client","secret")]

/-- One of `_`, `-` or nothing, between two words. -/
def afterJoiner : Text → Text
  | c :: cs => if c = '_' ∨ c = '-' then cs else c :: cs
  | [] => []

variable (cs : Text)

def afterNames : List Text :=
  ((word? foldCase "password".toList cs).map Prod.snd).toList ++ assignedNames.flatMap fun name =>
    ((word? foldCase name.1.toList cs).bind fun first => (word? foldCase name.2.toList (afterJoiner first.2)).map Prod.snd).toList

/-- `\s*[:=]\s*\S+`. -/
def assigns : Bool :=
  match cs.dropWhile isSpace with
  | sign :: value => (sign = ':' || sign = '=') && !(value.dropWhile isSpace).isEmpty
  | [] => false

/-- `(?i)\b(?:...)\s*[:=]\s*\S+`. -/
def assignedSecret : Pattern := fun before cs => !before.any W.isWord && (afterNames cs).any assigns

def isBearerChar (c : Char) : Bool := (foldCase c).isAlphanum || "._~+/=-".toList.contains c

/-- `(?i)\bbearer\s+[a-z0-9._~+/=-]{16,}`. -/
def bearerToken : Pattern := fun before cs => !before.any W.isWord && match word? foldCase "bearer".toList cs with
  | some (_,rest) => rest.head?.any isSpace && decide (16 ≤ ((rest.dropWhile isSpace).takeWhile isBearerChar).length)
  | none => false

/-- `\bsk-[A-Za-z0-9]{20,}\b`. -/
def skKey : Pattern := fun before cs => !before.any W.isWord && match word? id "sk-".toList cs with
  | some (_,rest) => decide (20 ≤ (rest.takeWhile Char.isAlphanum).length) && !(rest.dropWhile Char.isAlphanum).head?.any W.isWord
  | none => false

/-- `[^\s/@]`. -/
def isUserChar (c : Char) : Bool := !(isSpace c || c = '/' || c = '@')

/-- `[^\s/@]*@`. -/
def closesUser : Bool := (cs.dropWhile isUserChar).head? = some '@'

/-- `[^\s/@]+@`. -/
def password : Text → Bool
  | [] => false
  | c :: cs => isUserChar c && closesUser cs

/-- `[^\s/@]*:[^\s/@]+@`. -/
def userColon : Text → Bool
  | [] => false
  | c :: cs => (c = ':' && password cs) || (isUserChar c && userColon cs)

/-- `(?i)https?://[^\s/@]+:[^\s/@]+@`. -/
def credentialUrl : Pattern := fun _ cs => ["https://","http://"].any fun scheme => match word? foldCase scheme.toList cs with
  | some (_,c :: rest) => isUserChar c && userColon rest
  | _ => false

def secretPatterns : List Pattern := [assignedSecret W,bearerToken W,skKey W,credentialUrl]

/-- `_safe_content` lets the text through. -/
def safeContent (content : Text) : Bool := (secretPatterns W).all fun p => !found p none content

end

end Verdict.Context

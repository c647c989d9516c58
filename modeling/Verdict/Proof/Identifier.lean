import Verdict.Basics.JsonCodec
import Verdict.ReceiptStore.Redaction

/-! # Identifiers and digests

What the producers of proof receipts and claims accept as a bounded identifier and as a
digest. Both pass the redaction of the receipt store as they are.
-/
namespace Verdict.Proof
open JsonCodec
open ReceiptStore (dropWord sameLetter Inert secretWords inert_of_alphabet)

/-- The words of `_SENSITIVE`, with each spelling of an optional separator. -/
def sensitiveWords : List String :=
  ["api_key","api-key","apikey","authorization","bearer","password","secret","token","private_key","private-key","privatekey",
   "raw_prompt","raw-prompt","rawprompt","raw_completion","raw-completion","rawcompletion","messages","tool_arguments",
   "tool-arguments","toolarguments","email","phone","address"]

variable (s : String)

/-- `_SENSITIVE.search`. -/
def sensitive : Bool := s.toList.tails.any fun t => sensitiveWords.any fun w => (dropWord w.toList t).isSome

def isIdChar (c : Char) : Bool := c.isAlphanum || "._:/-".toList.contains c

/-- `_ID.fullmatch`. -/
def matchesId : Bool := match s.toList with
  | [] => false
  | c :: cs => c.isAlphanum && decide (cs.length ≤ 127) && cs.all isIdChar

def hexDigits : List Char := "0123456789abcdef".toList

/-- `_DIGEST.fullmatch`. -/
def matchesDigest : Bool :=
  decide (s.toList.take 7 = "sha256:".toList) && decide ((s.toList.drop 7).length = 64) && (s.toList.drop 7).all hexDigits.contains

/-- A text that `_id` returns. -/
structure Identifier where
  text : String
  bounded : matchesId text = true
  plain : sensitive text = false
  deriving DecidableEq

/-- A text that `_digest` returns. -/
structure Digest where
  text : String
  shaped : matchesDigest text = true

/-- `_id`. -/
def Identifier.of : Option Identifier :=
  if h : matchesId s = true ∧ sensitive s = false then some ⟨s,h.1,h.2⟩ else none

def Digest.of : Option Digest := if h : matchesDigest s = true then some ⟨s,h⟩ else none

theorem Identifier.of_text (i : Identifier) : Identifier.of i.text = some i := dif_pos ⟨i.bounded,i.plain⟩

theorem Digest.of_text (d : Digest) : Digest.of d.text = some d := dif_pos d.shaped

theorem Identifier.text_of {s : String} {i : Identifier} (h : Identifier.of s = some i) : i.text = s := by
  rw [Identifier.of] at h
  split at h
  · cases h
    rfl
  · cases h

def identifierCodec : Codec Identifier where
  encode i := .str i.text
  decode
    | .str s => Identifier.of s
    | _ => none
  settled := id
  roundTrip := Identifier.of_text

def digestCodec : Codec Digest where
  encode d := .str d.text
  decode
    | .str s => Digest.of s
    | _ => none
  settled := id
  roundTrip := Digest.of_text

/-! ### Blanks -/

theorem isSpace_of_alphanum {c : Char} (h : c.isAlphanum = true) : Path.isSpace c = false := by
  have h : ((decide (65 ≤ c.val ∧ c.val ≤ 90) || decide (97 ≤ c.val) && decide (c.val ≤ 122)) ||
      decide (48 ≤ c.val) && decide (c.val ≤ 57)) = true := h
  simp only [Bool.or_eq_true,Bool.and_eq_true,decide_eq_true_eq,UInt32.le_iff_toNat_le] at h
  have hcode : c.toNat = c.val.toNat := rfl
  change ((65 ≤ c.toNat ∧ c.toNat ≤ 90) ∨ (97 ≤ c.toNat ∧ c.toNat ≤ 122)) ∨ (48 ≤ c.toNat ∧ c.toNat ≤ 57) at h
  simp only [Path.isSpace,Bool.or_eq_false_iff,Bool.and_eq_false_iff,decide_eq_false_iff_not,beq_eq_false_iff_ne]
  omega

theorem strip_of_matchesId {s : String} (h : matchesId s = true) : Path.strip s.toList ≠ [] := by
  rw [matchesId] at h
  cases hs : s.toList with
  | nil =>
    rw [hs] at h
    cases h
  | cons c cs =>
    rw [hs] at h
    simp only [Bool.and_eq_true] at h
    exact Path.strip_ne_nil List.mem_cons_self (isSpace_of_alphanum h.1.1)

theorem strip_of_matchesDigest {s : String} (h : matchesDigest s = true) : Path.strip s.toList ≠ [] := by
  simp only [matchesDigest,Bool.and_eq_true,decide_eq_true_eq] at h
  have hmem : 's' ∈ s.toList.take 7 := by
    rw [h.1.1]
    decide
  exact Path.strip_ne_nil (List.mem_of_mem_take hmem) (by decide)

/-! ### Redaction -/

theorem matchesId_chars {s : String} (h : matchesId s = true) : ∀ c ∈ s.toList, isIdChar c = true := by
  rw [matchesId] at h
  cases hs : s.toList with
  | nil => exact fun c hc => absurd hc List.not_mem_nil
  | cons c cs =>
    rw [hs] at h
    simp only [Bool.and_eq_true] at h
    intro d hd
    rcases List.mem_cons.mp hd with rfl | hd
    · rw [isIdChar,h.1.1]
      rfl
    · exact List.all_eq_true.mp h.2 d hd

theorem dropWord_of_plain {s : String} (h : sensitive s = false) {w : String} (hw : w ∈ sensitiveWords) {t : List Char}
    (ht : t <:+ s.toList) : dropWord w.toList t = none := by
  have hnone := List.any_eq_false.mp h t ((List.mem_tails t s.toList).mpr ht)
  rw [Bool.not_eq_true] at hnone
  exact Option.not_isSome_iff_eq_none.mp (List.any_eq_false.mp hnone w hw)

theorem Identifier.inert (i : Identifier) : Inert i.text := by
  have hwords : ∀ w ∈ secretWords, w ∈ sensitiveWords := by decide
  have hchars := matchesId_chars i.bounded
  exact ⟨fun w hw t ht => dropWord_of_plain i.plain (hwords w hw) ht,fun hmem => absurd (hchars _ hmem) (by decide),
    fun hmem => absurd (hchars _ hmem) (by decide)⟩

theorem Digest.inert (d : Digest) : Inert d.text := by
  have hshaped := d.shaped
  simp only [matchesDigest,Bool.and_eq_true,decide_eq_true_eq] at hshaped
  obtain ⟨⟨htake,-⟩,hall⟩ := hshaped
  refine inert_of_alphabet ("sha256:".toList ++ hexDigits) (fun c hc => ?_) (by decide +kernel) (by decide) (by decide)
  rw [← List.take_append_drop 7 d.text.toList,htake] at hc
  rcases List.mem_append.mp hc with hlead | hhex
  · exact List.mem_append_left _ hlead
  · exact List.mem_append_right _ (List.contains_iff_mem.mp (List.all_eq_true.mp hall c hhex))

end Verdict.Proof

import Mathlib.Data.List.TakeWhile
import Mathlib.Data.Nat.Digits.Defs

/-! # Numerals of JSON

A numeral is read as far as it goes. What is written for an integer, and every numeral with a
fraction or an exponent, is read back whole when no further part of a numeral follows.
-/
namespace Verdict.JsonNumeral

open Char (isDigit)

/-- `NUMBER_RE`: the parts of a numeral as they are written. -/
structure Numeral where
  negative : Bool
  whole : List Char
  fraction : Option (List Char) := none
  exponent : Option (Char × Option Char × List Char) := none

namespace Numeral

def signText (n : Numeral) : List Char := if n.negative then ['-'] else []

def fractionText (n : Numeral) : List Char := match n.fraction with
  | none => []
  | some ds => '.' :: ds

def exponentText (n : Numeral) : List Char := match n.exponent with
  | none => []
  | some (mark,sign,ds) => mark :: (sign.toList ++ ds)

def text (n : Numeral) : List Char := n.signText ++ (n.whole ++ (n.fractionText ++ n.exponentText))

def isFloat (n : Numeral) : Bool := n.fraction.isSome || n.exponent.isSome

def Digits (ds : List Char) : Prop := ds ≠ [] ∧ ∀ c ∈ ds, c.isDigit = true

instance (ds : List Char) : Decidable (Digits ds) := inferInstanceAs (Decidable (_ ∧ _))

structure Valid (n : Numeral) : Prop where
  whole : Digits n.whole ∧ (n.whole.head? = some '0' → n.whole = ['0'])
  fraction : ∀ ds ∈ n.fraction, Digits ds
  exponent : ∀ e ∈ n.exponent, (e.1 = 'e' ∨ e.1 = 'E') ∧ (∀ c ∈ e.2.1, c = '-' ∨ c = '+') ∧ Digits e.2.2

end Numeral

def scanWhole : List Char → Option (List Char × List Char)
  | [] => none
  | c :: s =>
    if c = '0' then some (['0'],s)
    else if c.isDigit then some ((c :: s).takeWhile isDigit,(c :: s).dropWhile isDigit)
    else none

def scanFraction : List Char → Option (List Char) × List Char
  | [] => (none,[])
  | c :: s =>
    if c = '.' ∧ s.takeWhile isDigit ≠ [] then (some (s.takeWhile isDigit),s.dropWhile isDigit)
    else (none,c :: s)

def scanSign : List Char → Option Char × List Char
  | [] => (none,[])
  | c :: s => if c = '-' ∨ c = '+' then (some c,s) else (none,c :: s)

def scanExponent : List Char → Option (Char × Option Char × List Char) × List Char
  | [] => (none,[])
  | c :: s =>
    let (sign,r) := scanSign s
    if (c = 'e' ∨ c = 'E') ∧ r.takeWhile isDigit ≠ [] then
      (some (c,sign,r.takeWhile isDigit),r.dropWhile isDigit)
    else (none,c :: s)

def scanMinus : List Char → Bool × List Char
  | [] => (false,[])
  | c :: s => if c = '-' then (true,s) else (false,c :: s)

/-- `match_number`. -/
def scanNumeral (s : List Char) : Option (Numeral × List Char) :=
  let (negative,s) := scanMinus s
  (scanWhole s).map fun (whole,s) =>
    let (fraction,s) := scanFraction s
    let (exponent,s) := scanExponent s
    (⟨negative,whole,fraction,exponent⟩,s)

def Ends (s : List Char) : Prop := ∀ c ∈ s.head?, c.isDigit = false ∧ c ≠ '.' ∧ c ≠ 'e' ∧ c ≠ 'E'

theorem ends_nil : Ends [] := fun _ h => nomatch h

theorem ends_cons {c : Char} {s : List Char} (h : c.isDigit = false ∧ c ≠ '.' ∧ c ≠ 'e' ∧ c ≠ 'E') : Ends (c :: s) :=
  fun _ hc => Option.some.inj hc ▸ h

section
variable {ds rest : List Char}

theorem takeWhile_digits (hds : ∀ c ∈ ds, c.isDigit = true) (hrest : ∀ c ∈ rest.head?, c.isDigit = false) :
    (ds ++ rest).takeWhile isDigit = ds := by
  rw [List.takeWhile_append_of_pos hds]
  cases rest with
  | nil => exact List.append_nil ds
  | cons c rest => rw [List.takeWhile_cons_of_neg (ne_true_of_eq_false (hrest c rfl)),List.append_nil]

theorem dropWhile_digits (hds : ∀ c ∈ ds, c.isDigit = true) (hrest : ∀ c ∈ rest.head?, c.isDigit = false) :
    (ds ++ rest).dropWhile isDigit = rest := by
  rw [List.dropWhile_append_of_pos hds]
  cases rest with
  | nil => rfl
  | cons c rest => rw [List.dropWhile_cons_of_neg (ne_true_of_eq_false (hrest c rfl))]

theorem scanWhole_append (hds : Numeral.Digits ds) (hzero : ds.head? = some '0' → ds = ['0'])
    (hrest : ∀ c ∈ rest.head?, c.isDigit = false) : scanWhole (ds ++ rest) = some (ds,rest) := by
  obtain ⟨hne,hdigits⟩ := hds
  cases ds with
  | nil => exact absurd rfl hne
  | cons d ds =>
    by_cases hd : d = '0'
    · cases hzero (congrArg some hd)
      rfl
    · rw [List.cons_append,scanWhole,if_neg hd,if_pos (hdigits d List.mem_cons_self),← List.cons_append,
        takeWhile_digits hdigits hrest,dropWhile_digits hdigits hrest]

theorem scanFraction_append (hds : Numeral.Digits ds) (hrest : ∀ c ∈ rest.head?, c.isDigit = false) :
    scanFraction ('.' :: (ds ++ rest)) = (some ds,rest) := by
  rw [scanFraction,takeWhile_digits hds.2 hrest,dropWhile_digits hds.2 hrest,if_pos ⟨rfl,hds.1⟩]

variable {s : List Char}

theorem scanFraction_none (h : ∀ c ∈ s.head?, c ≠ '.') : scanFraction s = (none,s) := by
  cases s with
  | nil => rfl
  | cons c s => exact if_neg fun hc => h c rfl hc.1

variable {sign : Option Char}

theorem scanSign_append (hsign : ∀ c ∈ sign, c = '-' ∨ c = '+') (hds : Numeral.Digits ds) :
    scanSign (sign.toList ++ (ds ++ rest)) = (sign,ds ++ rest) := by
  cases sign with
  | some c => exact if_pos (hsign c rfl)
  | none =>
    obtain ⟨hne,hdigits⟩ := hds
    cases ds with
    | nil => exact absurd rfl hne
    | cons d ds =>
      refine if_neg fun hd => ?_
      have hdigit := hdigits d List.mem_cons_self
      rcases hd with rfl | rfl <;> exact absurd hdigit (by decide)

theorem scanExponent_append {mark : Char} (hmark : mark = 'e' ∨ mark = 'E')
    (hsign : ∀ c ∈ sign, c = '-' ∨ c = '+') (hds : Numeral.Digits ds) (hrest : ∀ c ∈ rest.head?, c.isDigit = false) :
    scanExponent (mark :: (sign.toList ++ (ds ++ rest))) = (some (mark,sign,ds),rest) := by
  rw [scanExponent,scanSign_append hsign hds]
  simp only [takeWhile_digits hds.2 hrest,dropWhile_digits hds.2 hrest]
  exact if_pos ⟨hmark,hds.1⟩

theorem scanExponent_none (h : ∀ c ∈ s.head?, c ≠ 'e' ∧ c ≠ 'E') : scanExponent s = (none,s) := by
  cases s with
  | nil => rfl
  | cons c s => exact if_neg fun hc => hc.1.elim (h c rfl).1 (h c rfl).2

end

namespace Numeral
variable {n : Numeral} {rest : List Char}

theorem Valid.exponent_head (hn : n.Valid) (hrest : Ends rest) :
    ∀ c ∈ (n.exponentText ++ rest).head?, c.isDigit = false ∧ c ≠ '.' := by
  unfold exponentText
  split
  · exact fun c hc => ⟨(hrest c hc).1,(hrest c hc).2.1⟩
  · rename_i mark sign ds he
    rintro c hc
    cases hc
    rcases (hn.exponent _ he).1 with h | h <;> rw [show mark = _ from h] <;> decide

theorem Valid.fraction_head (hn : n.Valid) (hrest : Ends rest) :
    ∀ c ∈ (n.fractionText ++ (n.exponentText ++ rest)).head?, c.isDigit = false := by
  unfold fractionText
  split
  · exact fun c hc => (hn.exponent_head hrest c hc).1
  · rintro c hc
    cases hc
    rfl

theorem Valid.scanFraction (hn : n.Valid) (hrest : Ends rest) :
    JsonNumeral.scanFraction (n.fractionText ++ (n.exponentText ++ rest)) = (n.fraction,n.exponentText ++ rest) := by
  have hhead := hn.exponent_head hrest
  unfold fractionText
  split
  · rename_i hf
    rw [hf]
    exact scanFraction_none fun c hc => (hhead c hc).2
  · rename_i ds hf
    rw [hf]
    exact scanFraction_append (hn.fraction ds hf) fun c hc => (hhead c hc).1

theorem Valid.scanExponent (hn : n.Valid) (hrest : Ends rest) :
    JsonNumeral.scanExponent (n.exponentText ++ rest) = (n.exponent,rest) := by
  unfold exponentText
  split
  · rename_i he
    rw [he]
    exact scanExponent_none fun c hc => (hrest c hc).2.2
  · rename_i mark sign ds he
    obtain ⟨hmark,hsign,hds⟩ := hn.exponent _ he
    rw [he,List.cons_append,List.append_assoc]
    exact scanExponent_append hmark hsign hds fun c hc => (hrest c hc).1

theorem Valid.scanMinus (hn : n.Valid) (rest : List Char) :
    JsonNumeral.scanMinus (n.signText ++ (n.whole ++ rest)) = (n.negative,n.whole ++ rest) := by
  unfold signText
  obtain ⟨⟨hne,hdigits⟩,-⟩ := hn.whole
  cases hneg : n.negative with
  | true => rfl
  | false =>
    cases hw : n.whole with
    | nil => exact absurd hw hne
    | cons d ds =>
      refine if_neg fun hd => ?_
      have hdigit := hdigits d (hw ▸ List.mem_cons_self)
      rw [hd] at hdigit
      exact absurd hdigit (by decide)

theorem Valid.scanNumeral (hn : n.Valid) (hrest : Ends rest) : JsonNumeral.scanNumeral (n.text ++ rest) = some (n,rest) := by
  have htext : n.text ++ rest = n.signText ++ (n.whole ++ (n.fractionText ++ (n.exponentText ++ rest))) := by
    rw [text,List.append_assoc,List.append_assoc,List.append_assoc]
  rw [JsonNumeral.scanNumeral,htext,hn.scanMinus]
  simp only [scanWhole_append hn.whole.1 hn.whole.2 (hn.fraction_head hrest),Option.map_some,hn.scanFraction hrest,
    hn.scanExponent hrest]

theorem Valid.mem_text (hn : n.Valid) {c : Char} (h : c ∈ n.text) : c.isDigit = true ∨ c ∈ ['-','+','.','e','E'] := by
  simp only [text,List.mem_append] at h
  rcases h with h | h | h | h
  · unfold signText at h
    split at h
    · rw [List.mem_singleton.mp h]
      exact .inr (by decide)
    · exact absurd h List.not_mem_nil
  · exact .inl (hn.whole.1.2 c h)
  · unfold fractionText at h
    split at h
    · exact absurd h List.not_mem_nil
    · rename_i ds hf
      rcases List.mem_cons.mp h with rfl | h
      · exact .inr (by decide)
      · exact .inl ((hn.fraction ds hf).2 c h)
  · unfold exponentText at h
    split at h
    · exact absurd h List.not_mem_nil
    · rename_i mark sign ds he
      obtain ⟨hmark,hsign,hds⟩ := hn.exponent _ he
      rcases List.mem_cons.mp h with rfl | h
      · rcases hmark with rfl | rfl <;> exact .inr (by decide)
      · rcases List.mem_append.mp h with h | h
        · rcases hsign c (Option.mem_toList.mp h) with rfl | rfl <;> exact .inr (by decide)
        · exact .inl (hds.2 c h)

theorem Valid.text_eq_cons (hn : n.Valid) : ∃ c s, n.text = c :: s ∧ (c = '-' ∨ c.isDigit = true) := by
  unfold text signText
  obtain ⟨⟨hne,hdigits⟩,-⟩ := hn.whole
  cases n.negative with
  | true => exact ⟨'-',_,rfl,.inl rfl⟩
  | false =>
    cases hw : n.whole with
    | nil => exact absurd hw hne
    | cons d ds => exact ⟨d,_,rfl,.inr (hdigits d (hw ▸ List.mem_cons_self))⟩

end Numeral

/-! ### Integers -/

/-- `int.__repr__`. -/
def ofInt (n : ℤ) : Numeral := {negative := decide (n < 0), whole := Nat.toDigits 10 n.natAbs}

def toInt (n : Numeral) : ℤ :=
  let magnitude : ℤ := Nat.ofDigitChars 10 n.whole 0
  if n.negative then -magnitude else magnitude

theorem head_toDigits (n : ℕ) : (Nat.toDigits 10 n).head? = some '0' → n = 0 := by
  induction n using Nat.strong_induction_on with
  | _ n ih =>
    intro h
    by_cases hn : n < 10
    · rw [Nat.toDigits_of_lt_base hn] at h
      have hdigit : ∀ m < 10, Nat.digitChar m = '0' → m = 0 := by decide
      exact hdigit n hn (Option.some.inj h)
    · rw [Nat.toDigits_of_base_le (by decide) (by omega),List.head?_append,
        Option.or_of_isSome (List.isSome_head?.mpr Nat.toDigits_ne_nil)] at h
      have hquot := ih (n / 10) (by omega) h
      omega

theorem valid_ofInt (n : ℤ) : (ofInt n).Valid where
  whole := by
    refine ⟨⟨Nat.toDigits_ne_nil,fun c hc => Nat.isDigit_of_mem_toDigits (by decide) (by decide) hc⟩,fun h => ?_⟩
    have hzero : n.natAbs = 0 := head_toDigits _ h
    rw [ofInt,hzero,Nat.toDigits_zero]
  fraction _ h := nomatch h
  exponent _ h := nomatch h

theorem toInt_ofInt (n : ℤ) : toInt (ofInt n) = n := by
  simp only [toInt,ofInt,Nat.ofDigitChars_ten_toDigits,decide_eq_true_eq]
  split <;> omega

end Verdict.JsonNumeral

import Mathlib.Data.Fin.Basic
import Mathlib.Data.List.Chain
import Mathlib.Data.Nat.Digits.Defs

/-! # Texts and how JSON writes them

A text is a sequence of code points, surrogates included. JSON with `ensure_ascii` writes a code
point outside ASCII as one or two `\u` escapes, and reads two escapes that make up a surrogate
pair as one code point: a text comes back with its surrogate pairs joined.
-/
namespace Verdict.PyText

open List (flatMap_cons length_cons mem_cons mem_pair)
open Nat (digitChar mod_lt)

abbrev CodePoint := Fin 0x110000

abbrev Text := List CodePoint

def codePoint (c : Char) : CodePoint := Fin.ofNat 0x110000 c.toNat

def lit (s : String) : Text := s.toList.map codePoint

/-! ### Surrogate pairs -/

def IsHigh (c : CodePoint) : Prop := 0xD800 ≤ c.val ∧ c.val ≤ 0xDBFF

def IsLow (c : CodePoint) : Prop := 0xDC00 ≤ c.val ∧ c.val ≤ 0xDFFF

instance (c : CodePoint) : Decidable (IsHigh c) := inferInstanceAs (Decidable (_ ∧ _))
instance (c : CodePoint) : Decidable (IsLow c) := inferInstanceAs (Decidable (_ ∧ _))

def joined (high low : CodePoint) : CodePoint :=
  Fin.ofNat 0x110000 (0x10000 + (high.val - 0xD800) * 1024 + (low.val - 0xDC00))

def join : Text → Text
  | a :: b :: rest => if IsHigh a ∧ IsLow b then joined a b :: join rest else a :: join (b :: rest)
  | [a] => [a]
  | [] => []

def Whole (t : Text) : Prop := t.IsChain fun a b => ¬ (IsHigh a ∧ IsLow b)

instance (t : Text) : Decidable (Whole t) := inferInstanceAs (Decidable (List.IsChain _ t))

variable {a : CodePoint} {t : Text}

theorem join_cons (h : ∀ b ∈ t.head?, ¬ (IsHigh a ∧ IsLow b)) : join (a :: t) = a :: join t := by
  cases t with
  | nil => rfl
  | cons b t => rw [join,if_neg (h b rfl)]

theorem length_join_le (t : Text) : (join t).length ≤ t.length := by
  fun_induction join t with
  | case1 a b rest hpair ih =>
    rw [length_cons,length_cons,length_cons]
    omega
  | case2 a b rest hpair ih =>
    rw [length_cons,length_cons]
    omega
  | case3 a => exact le_rfl
  | case4 => exact le_rfl

theorem join_eq_self_iff : join t = t ↔ Whole t := by
  unfold Whole
  fun_induction join t with
  | case1 a b rest hpair ih =>
    refine iff_of_false (fun h => ?_) fun h => (List.isChain_cons_cons.mp h).1 hpair
    have hlength := congrArg List.length h
    have hle := length_join_le rest
    rw [length_cons,length_cons,length_cons] at hlength
    omega
  | case2 a b rest hpair ih => rw [List.cons.injEq,ih,List.isChain_cons_cons,and_iff_right rfl,and_iff_right hpair]
  | case3 a => exact iff_of_true rfl (List.isChain_singleton a)
  | case4 => exact iff_of_true rfl List.isChain_nil

def units (c : CodePoint) : Text :=
  if c.val < 0x10000 then [c]
  else [Fin.ofNat 0x110000 (0xD800 + (c.val - 0x10000) / 1024),Fin.ofNat 0x110000 (0xDC00 + (c.val - 0x10000) % 1024)]

variable {n : ℕ}

theorem ofNat_val (h : n < 0x110000) : (Fin.ofNat 0x110000 n : CodePoint).val = n := Nat.mod_eq_of_lt h

variable {c u : CodePoint}

theorem units_lt (h : u ∈ units c) : u.val < 0x10000 := by
  have hc := c.isLt
  unfold units at h
  split at h
  · next hsmall => exact List.mem_singleton.mp h ▸ hsmall
  · rcases mem_pair.mp h with rfl | rfl
    · rw [ofNat_val (by omega)]
      omega
    · rw [ofNat_val (by omega)]
      omega

theorem head_units (h : ∀ b ∈ t.head?, ¬ (IsHigh a ∧ IsLow b)) :
    ∀ b ∈ (t.flatMap units).head?, ¬ (IsHigh a ∧ IsLow b) := by
  cases t with
  | nil => exact h
  | cons c t =>
    have hc := c.isLt
    rintro b hb ⟨hhigh,hlow⟩
    rw [flatMap_cons,units] at hb
    split at hb
    · cases hb
      exact h c rfl ⟨hhigh,hlow⟩
    · cases hb
      have hval := ofNat_val (n := 0xD800 + (c.val - 0x10000) / 1024) (by omega)
      have hle := hlow.1
      rw [hval] at hle
      omega

theorem join_pair (h : ¬ c.val < 0x10000) (t : Text) : join (units c ++ t) = c :: join t := by
  have hc := c.isLt
  have hhigh := ofNat_val (n := 0xD800 + (c.val - 0x10000) / 1024) (by omega)
  have hlow := ofNat_val (n := 0xDC00 + (c.val - 0x10000) % 1024) (by omega)
  have hpair : IsHigh (Fin.ofNat 0x110000 (0xD800 + (c.val - 0x10000) / 1024))
      ∧ IsLow (Fin.ofNat 0x110000 (0xDC00 + (c.val - 0x10000) % 1024)) := by
    unfold IsHigh IsLow
    rw [hhigh,hlow]
    omega
  have hback : joined (Fin.ofNat 0x110000 (0xD800 + (c.val - 0x10000) / 1024))
      (Fin.ofNat 0x110000 (0xDC00 + (c.val - 0x10000) % 1024)) = c := by
    refine Fin.ext ?_
    unfold joined
    rw [hhigh,hlow,ofNat_val (by omega)]
    omega
  rw [units,if_neg h]
  show join (_ :: _ :: t) = _
  rw [join,if_pos hpair,hback]

theorem units_small (h : c.val < 0x10000) : units c = [c] := if_pos h

theorem join_units (t : Text) : join (t.flatMap units) = join t := by
  fun_induction join t with
  | case1 a b rest hpair ih =>
    obtain ⟨hhigh,hlow⟩ := hpair
    rw [flatMap_cons,flatMap_cons,units_small (by unfold IsHigh at hhigh; omega),units_small (by unfold IsLow at hlow; omega)]
    show join (a :: b :: rest.flatMap units) = _
    rw [join,if_pos ⟨hhigh,hlow⟩,ih]
  | case2 a b rest hpair ih =>
    rw [flatMap_cons]
    by_cases hsmall : a.val < 0x10000
    · have hnext : ∀ d ∈ (b :: rest).head?, ¬ (IsHigh a ∧ IsLow d) := fun d hd => Option.some.inj hd ▸ hpair
      rw [units_small hsmall,List.singleton_append,join_cons (head_units hnext),ih]
    · rw [join_pair hsmall,ih]
  | case3 a =>
    rw [flatMap_cons,List.flatMap_nil]
    by_cases hsmall : a.val < 0x10000
    · rw [units_small hsmall]
      rfl
    · rw [join_pair hsmall]
      rfl
  | case4 => rfl

/-! ### Escapes -/

def hexDigits (n : ℕ) : List Char :=
  [digitChar (n / 4096 % 16),digitChar (n / 256 % 16),digitChar (n / 16 % 16),digitChar (n % 16)]

/-- `ESCAPE_DCT`, and `\uXXXX` for what is not printable ASCII. -/
def escapeUnit (c : CodePoint) : List Char :=
  if c = 0x22 then ['\\','"']
  else if c = 0x5C then ['\\','\\']
  else if c = 0x08 then ['\\','b']
  else if c = 0x0C then ['\\','f']
  else if c = 0x0A then ['\\','n']
  else if c = 0x0D then ['\\','r']
  else if c = 0x09 then ['\\','t']
  else if 0x20 ≤ c.val ∧ c.val ≤ 0x7E then [Char.ofNat c.val]
  else '\\' :: 'u' :: hexDigits c.val

/-- `encode_basestring_ascii`, without the quotes. -/
def escape (t : Text) : List Char := (t.flatMap units).flatMap escapeUnit

def unhex (c : Char) : Option ℕ :=
  if '0' ≤ c ∧ c ≤ '9' then some (c.toNat - 48)
  else if 'a' ≤ c ∧ c ≤ 'f' then some (c.toNat - 87)
  else if 'A' ≤ c ∧ c ≤ 'F' then some (c.toNat - 55)
  else none

def unhexDigits (a b c d : Char) : Option CodePoint := do
  let a ← unhex a
  let b ← unhex b
  let c ← unhex c
  let d ← unhex d
  return Fin.ofNat 0x110000 (((a * 16 + b) * 16 + c) * 16 + d)

/-- `BACKSLASH`. -/
def unescape (c : Char) : Option CodePoint :=
  if c = '"' then some 0x22 else if c = '\\' then some 0x5C else if c = '/' then some 0x2F
  else if c = 'b' then some 0x08 else if c = 'f' then some 0x0C else if c = 'n' then some 0x0A
  else if c = 'r' then some 0x0D else if c = 't' then some 0x09 else none

def scanUnits : List Char → Option (Text × List Char)
  | [] => none
  | '"' :: rest => some ([],rest)
  | '\\' :: 'u' :: a :: b :: c :: d :: rest => do
    let u ← unhexDigits a b c d
    let (t,rest) ← scanUnits rest
    return (u :: t,rest)
  | '\\' :: c :: rest => do
    let u ← unescape c
    let (t,rest) ← scanUnits rest
    return (u :: t,rest)
  | c :: rest =>
    -- a control character may not stand in a string
    if c.toNat < 0x20 then none
    else do
      let (t,rest) ← scanUnits rest
      return (codePoint c :: t,rest)

theorem scanUnits_plain {c : Char} (hquote : c ≠ '"') (hback : c ≠ '\\') (hcontrol : ¬ c.toNat < 0x20) (rest : List Char) :
    scanUnits (c :: rest) = (scanUnits rest).map fun p => (codePoint c :: p.1,p.2) := by
  rw [scanUnits]
  · rw [if_neg hcontrol]
    cases scanUnits rest <;> rfl
  · exact hquote
  · exact fun _ _ _ _ _ h => absurd h hback
  · exact fun _ _ h => absurd h hback

theorem unhex_digitChar : ∀ n < 16, unhex (digitChar n) = some n := by decide

theorem unhexDigits_hexDigits (h : u.val < 0x10000) : unhexDigits (digitChar (u.val / 4096 % 16))
    (digitChar (u.val / 256 % 16)) (digitChar (u.val / 16 % 16)) (digitChar (u.val % 16)) = some
    u := by
  have hdigit : ∀ n, unhex (digitChar (n % 16)) = some (n % 16) := fun n => unhex_digitChar _ (mod_lt n (by decide))
  have hsum : ((u.val / 4096 % 16 * 16 + u.val / 256 % 16) * 16 + u.val / 16 % 16) * 16 + u.val % 16 = u.val := by omega
  simp only [unhexDigits,hdigit,Option.bind_eq_bind,Option.bind_some,Option.pure_def,hsum]
  exact congrArg some (Fin.ext (ofNat_val u.isLt))

theorem toNat_ofNat (h : n < 0xD800) : (Char.ofNat n).toNat = n := by
  rw [Char.ofNat,dif_pos (.inl h)]
  rfl

theorem codePoint_ofNat (h : u.val < 0xD800) : codePoint (Char.ofNat u.val) = u := by
  refine Fin.ext ?_
  rw [codePoint,toNat_ofNat h,ofNat_val u.isLt]

theorem scanUnits_escapeUnit (h : u.val < 0x10000) (rest : List Char) :
    scanUnits (escapeUnit u ++ rest) = (scanUnits rest).map fun p => (u :: p.1,p.2) := by
  have hshort : ∀ {c : Char} {v : CodePoint}, c ≠ 'u' → unescape c = some v →
      scanUnits (['\\',c] ++ rest) = (scanUnits rest).map fun p => (v :: p.1,p.2) := by
    intro c v hc hv
    show scanUnits ('\\' :: c :: rest) = _
    rw [scanUnits,hv]
    · cases scanUnits rest <;> rfl
    · exact fun _ _ _ _ _ h => absurd h hc
  unfold escapeUnit
  split_ifs with hquote hback hb hf hn hr ht hprint
  · cases hquote
    exact hshort (by decide) rfl
  · cases hback
    exact hshort (by decide) rfl
  · cases hb
    exact hshort (by decide) rfl
  · cases hf
    exact hshort (by decide) rfl
  · cases hn
    exact hshort (by decide) rfl
  · cases hr
    exact hshort (by decide) rfl
  · cases ht
    exact hshort (by decide) rfl
  · have hcode : codePoint (Char.ofNat u.val) = u := codePoint_ofNat (by omega)
    rw [List.singleton_append,scanUnits_plain,hcode]
    · exact fun hc => hquote (hcode.symm.trans (congrArg codePoint hc))
    · exact fun hc => hback (hcode.symm.trans (congrArg codePoint hc))
    · rw [toNat_ofNat (by omega)]
      omega
  · show scanUnits ('\\' :: 'u' :: _ :: _ :: _ :: _ :: rest) = _
    rw [scanUnits,unhexDigits_hexDigits h]
    cases scanUnits rest <;> rfl

/-- Escapes that make up a surrogate pair are one code point. -/
def scanString (s : List Char) : Option (Text × List Char) := (scanUnits s).map fun p => (join p.1,p.2)

theorem scanUnits_escape {us : Text} (h : ∀ u ∈ us, u.val < 0x10000) (rest : List Char) :
    scanUnits (us.flatMap escapeUnit ++ '"' :: rest) = some (us,rest) := by
  induction us with
  | nil => rw [List.flatMap_nil,List.nil_append,scanUnits]
  | cons u us ih =>
    obtain ⟨hu,hus⟩ := List.forall_mem_cons.mp h
    rw [List.flatMap_cons,List.append_assoc,scanUnits_escapeUnit hu,ih hus]
    rfl

theorem scanString_escape (t : Text) (rest : List Char) : scanString (escape t ++ '"' :: rest) = some (join t,rest) := by
  have hunits : ∀ u ∈ t.flatMap units, u.val < 0x10000 := by
    intro u hu
    obtain ⟨c,-,hc⟩ := List.mem_flatMap.mp hu
    exact units_lt hc
  rw [scanString,escape,scanUnits_escape hunits,Option.map_some,join_units]

def Printable (c : Char) : Prop := 0x20 ≤ c.toNat ∧ c.toNat ≤ 0x7E

instance (c : Char) : Decidable (Printable c) := inferInstanceAs (Decidable (_ ∧ _))

theorem printable_digitChar : ∀ n < 16, Printable (digitChar n) := by decide

theorem printable_hexDigits {c : Char} (h : c ∈ hexDigits n) : Printable c := by
  simp only [hexDigits,mem_cons,List.not_mem_nil,or_false] at h
  rcases h with rfl | rfl | rfl | rfl
  all_goals exact printable_digitChar _ (mod_lt _ (by decide))

theorem printable_escape {c : Char} (h : c ∈ escape t) : Printable c := by
  obtain ⟨u,-,hc⟩ := List.mem_flatMap.mp h
  unfold escapeUnit at hc
  split_ifs at hc with hquote hback hb hf hn hr ht hprint
  · rcases mem_pair.mp hc with rfl | rfl <;> decide
  · rcases mem_pair.mp hc with rfl | rfl <;> decide
  · rcases mem_pair.mp hc with rfl | rfl <;> decide
  · rcases mem_pair.mp hc with rfl | rfl <;> decide
  · rcases mem_pair.mp hc with rfl | rfl <;> decide
  · rcases mem_pair.mp hc with rfl | rfl <;> decide
  · rcases mem_pair.mp hc with rfl | rfl <;> decide
  · rw [List.mem_singleton.mp hc,Printable,toNat_ofNat (by omega)]
    exact hprint
  · rcases mem_cons.mp hc with rfl | hc
    · decide
    · rcases mem_cons.mp hc with rfl | hc
      · decide
      · exact printable_hexDigits hc

end Verdict.PyText

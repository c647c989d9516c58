import Mathlib.Data.UInt

/-! # Decoding UTF-8 piece by piece

The decoder keeps what it knows about a character that has not arrived whole: how many bytes are
owed, the range of the next one, and the bits so far. It refuses a byte as soon as no character
can have it in that place, so that decoding a stream in two pieces is decoding it in one. What
`encode` makes of a text decodes to that text.
-/
namespace Verdict.Utf8

/-- Between two characters, or inside one with `owed + 1` bytes to come. -/
inductive State
  | start
  | inside (owed : ℕ) (low high : UInt8) (bits : ℕ)
  deriving DecidableEq

def lead (b : UInt8) : Option (State × List Char) :=
  if b < 0x80 then some (.start,[Char.ofNat b.toNat])
  else if b < 0xC2 then none
  else if b < 0xE0 then some (.inside 0 0x80 0xBF (b.toNat - 0xC0),[])
  else if b = 0xE0 then some (.inside 1 0xA0 0xBF 0,[])
  else if b = 0xED then some (.inside 1 0x80 0x9F 0xD,[])
  else if b < 0xF0 then some (.inside 1 0x80 0xBF (b.toNat - 0xE0),[])
  else if b = 0xF0 then some (.inside 2 0x90 0xBF 0,[])
  else if b < 0xF4 then some (.inside 2 0x80 0xBF (b.toNat - 0xF0),[])
  else if b = 0xF4 then some (.inside 2 0x80 0x8F 4,[])
  else none

def put : State → UInt8 → Option (State × List Char)
  | .start, b => lead b
  | .inside owed low high bits, b =>
    if low ≤ b ∧ b ≤ high then
      let bits := bits * 64 + (b.toNat - 0x80)
      match owed with
      | 0 => some (.start,[Char.ofNat bits])
      | owed + 1 => some (.inside owed 0x80 0xBF bits,[])
    else none

/-- `decoder.decode(chunk, final=False)`. -/
def decode : State → List UInt8 → Option (State × List Char)
  | s, [] => some (s,[])
  | s, b :: bs => do
    let (s,cs) ← put s b
    let (s,ds) ← decode s bs
    return (s,cs ++ ds)

/-- `decoder.decode(b"", final=True)`: no character may be left unfinished. -/
def finish : State → Option (List Char)
  | .start => some []
  | .inside _ _ _ _ => none

variable {s s' : State} {b : UInt8} {t : List Char}

@[simp] theorem decode_nil (s : State) : decode s [] = some (s,[]) := rfl

theorem decode_cons {bs : List UInt8} : decode s (b :: bs) = some
    (s',t) ↔ ∃ m cs ds, put s b = some (m,cs) ∧ decode m bs = some (s',ds) ∧ t = cs ++ ds := by
  simp only [decode,Option.bind_eq_bind,Option.bind_eq_some_iff,Option.pure_def,Option.some.injEq,Prod.exists,
    Prod.mk.injEq]
  constructor
  · rintro ⟨m,cs,hput,e,ds,hrest,rfl,rfl⟩
    exact ⟨m,cs,ds,hput,hrest,rfl⟩
  · rintro ⟨m,cs,ds,hput,hrest,rfl⟩
    exact ⟨m,cs,hput,s',ds,hrest,rfl,rfl⟩

variable {a : List UInt8}

theorem decode_append {b : List UInt8} : decode s (a ++ b) = some (s',t) ↔
    ∃ m ta tb, decode s a = some (m,ta) ∧ decode m b = some (s',tb) ∧ t = ta ++ tb := by
  induction a generalizing s t with
  | nil =>
    simp only [List.nil_append,decode_nil,Option.some.injEq,Prod.mk.injEq]
    constructor
    · intro h
      exact ⟨s,[],t,⟨rfl,rfl⟩,h,rfl⟩
    · rintro ⟨_,_,_,⟨rfl,rfl⟩,h,rfl⟩
      exact h
  | cons x a ih =>
    rw [List.cons_append,decode_cons]
    constructor
    · rintro ⟨m,cs,ds,hput,hrest,rfl⟩
      obtain ⟨n,ta,tb,ha,hb,rfl⟩ := ih.mp hrest
      exact ⟨n,cs ++ ta,tb,decode_cons.mpr ⟨m,cs,ta,hput,ha,rfl⟩,hb,(List.append_assoc _ _ _).symm⟩
    · rintro ⟨n,ta,tb,ha,hb,rfl⟩
      obtain ⟨m,cs,ds,hput,hrest,rfl⟩ := decode_cons.mp ha
      exact ⟨m,cs,ds ++ tb,hput,ih.mpr ⟨n,ds,tb,hrest,hb,rfl⟩,List.append_assoc _ _ _⟩

theorem decode_append_of {m : State} {b : List UInt8} {ta tb : List Char} (ha : decode s a = some (m,ta))
    (hb : decode m b = some (s',tb)) : decode s (a ++ b) = some (s',ta ++ tb) :=
  decode_append.mpr ⟨m,ta,tb,ha,hb,rfl⟩

/-! ### Encoding -/

variable (bits : ℕ)

def continuing : UInt8 := UInt8.ofNat (0x80 + bits % 64)

def encodeChar (c : Char) : List UInt8 :=
  let n := c.toNat
  if n < 0x80 then [UInt8.ofNat n]
  else if n < 0x800 then [UInt8.ofNat (0xC0 + n / 64),continuing n]
  else if n < 0x10000 then [UInt8.ofNat (0xE0 + n / 4096),continuing (n / 64),continuing n]
  else [UInt8.ofNat (0xF0 + n / 262144),continuing (n / 4096),continuing (n / 64),continuing n]

/-- `text.encode("utf-8")`. -/
def encode (text : List Char) : List UInt8 := text.flatMap encodeChar

variable {n : ℕ}

theorem toNat_ofNat_small (h : n < 256) : (UInt8.ofNat n).toNat = n := by
  rw [UInt8.toNat_ofNat']
  exact Nat.mod_eq_of_lt h

theorem continuing_toNat : (continuing bits).toNat = 0x80 + bits % 64 :=
  toNat_ofNat_small (by omega)

theorem put_continuing {low high : UInt8} (owed : ℕ) (hlow : low.toNat ≤ 0x80 + n % 64) (hhigh : 0x80 + n % 64 ≤ high.toNat) :
    put (.inside owed low high bits) (continuing n) = match owed with
      | 0 => some (.start,[Char.ofNat (bits * 64 + n % 64)])
      | owed + 1 => some (.inside owed 0x80 0xBF (bits * 64 + n % 64),[]) := by
  have hrange : low ≤ continuing n ∧ continuing n ≤ high := by
    rw [UInt8.le_iff_toNat_le,UInt8.le_iff_toNat_le,continuing_toNat]
    exact ⟨hlow,hhigh⟩
  have hbits : bits * 64 + (0x80 + n % 64 - 0x80) = bits * 64 + n % 64 := by omega
  cases owed <;> simp only [put,if_pos hrange,continuing_toNat,hbits]

theorem decode_last {bits : ℕ} (h : bits = n / 64) : decode (.inside 0 0x80 0xBF bits) [continuing n] = some (.start,[Char.ofNat n]) := by
  have hlow : (0x80 : UInt8).toNat ≤ 0x80 + n % 64 := Nat.le_add_right _ _
  have hhigh : 0x80 + n % 64 ≤ (0xBF : UInt8).toNat := by
    show 0x80 + n % 64 ≤ 191
    omega
  have hsum : bits * 64 + n % 64 = n := by omega
  have hput := put_continuing bits 0 hlow hhigh
  simp only [hsum] at hput
  exact decode_cons.mpr ⟨.start,[Char.ofNat n],[],hput,rfl,rfl⟩

theorem lt_iff (b : UInt8) (k : ℕ) (hk : k < 256) : b < UInt8.ofNat k ↔ b.toNat < k := by
  rw [UInt8.lt_iff_toNat_lt,toNat_ofNat_small hk]

theorem eq_iff (b : UInt8) (k : ℕ) (hk : k < 256) : b = UInt8.ofNat k ↔ b.toNat = k := by
  rw [← UInt8.toNat_inj,toNat_ofNat_small hk]

/-- `lead` by the value of the byte. -/
theorem lead_toNat (b : UInt8) : lead b = if b.toNat < 0x80 then some (.start,[Char.ofNat b.toNat])
    else if b.toNat < 0xC2 then none
    else if b.toNat < 0xE0 then some (.inside 0 0x80 0xBF (b.toNat - 0xC0),[])
    else if b.toNat = 0xE0 then some (.inside 1 0xA0 0xBF 0,[])
    else if b.toNat = 0xED then some (.inside 1 0x80 0x9F 0xD,[])
    else if b.toNat < 0xF0 then some (.inside 1 0x80 0xBF (b.toNat - 0xE0),[])
    else if b.toNat = 0xF0 then some (.inside 2 0x90 0xBF 0,[])
    else if b.toNat < 0xF4 then some (.inside 2 0x80 0xBF (b.toNat - 0xF0),[])
    else if b.toNat = 0xF4 then some (.inside 2 0x80 0x8F 4,[])
    else none := by
  have h80 := lt_iff b 0x80 (by decide)
  have hC2 := lt_iff b 0xC2 (by decide)
  have hE0 := lt_iff b 0xE0 (by decide)
  have hF0 := lt_iff b 0xF0 (by decide)
  have hF4 := lt_iff b 0xF4 (by decide)
  have eE0 := eq_iff b 0xE0 (by decide)
  have eED := eq_iff b 0xED (by decide)
  have eF0 := eq_iff b 0xF0 (by decide)
  have eF4 := eq_iff b 0xF4 (by decide)
  simp only [← h80,← hC2,← hE0,← hF0,← hF4,← eE0,← eED,← eF0,← eF4]
  rfl

theorem decode_two (hlow : 0x80 ≤ n) (hhigh : n < 0x800) :
    decode .start [UInt8.ofNat (0xC0 + n / 64),continuing n] = some (.start,[Char.ofNat n]) := by
  have hnat : (UInt8.ofNat (0xC0 + n / 64)).toNat = 0xC0 + n / 64 := toNat_ofNat_small (by omega)
  have hlead : lead (UInt8.ofNat (0xC0 + n / 64)) = some (.inside 0 0x80 0xBF (n / 64),[]) := by
    rw [lead_toNat,hnat,if_neg (by omega),if_neg (by omega),if_pos (by omega),Nat.add_sub_cancel_left]
  exact decode_cons.mpr ⟨_,[],[Char.ofNat n],hlead,decode_last rfl,rfl⟩

theorem decode_three (hlow : 0x800 ≤ n) (hhigh : n < 0x10000) (hvalid : n < 0xD800 ∨ 0xDFFF < n) :
    decode .start [UInt8.ofNat (0xE0 + n / 4096),continuing (n / 64),continuing n] = some (.start,[Char.ofNat n]) := by
  have hnat : (UInt8.ofNat (0xE0 + n / 4096)).toNat = 0xE0 + n / 4096 := toNat_ofNat_small (by omega)
  obtain ⟨low,high,hlead,hrange⟩ : ∃ low high, lead (UInt8.ofNat (0xE0 + n / 4096)) = some (.inside 1 low high (n / 4096),[]) ∧
      low.toNat ≤ 0x80 + n / 64 % 64 ∧ 0x80 + n / 64 % 64 ≤ high.toNat := by
    rw [lead_toNat,hnat,if_neg (by omega),if_neg (by omega),if_neg (by omega)]
    by_cases hE0 : n / 4096 = 0
    · refine ⟨0xA0,0xBF,by rw [if_pos (by omega),hE0],?_,?_⟩
      · show 160 ≤ _
        omega
      · show _ ≤ 191
        omega
    · rw [if_neg (by omega)]
      by_cases hED : n / 4096 = 13
      · refine ⟨0x80,0x9F,by rw [if_pos (by omega),hED],?_,?_⟩
        · show 128 ≤ _
          omega
        · show _ ≤ 159
          omega
      · refine ⟨0x80,0xBF,by rw [if_neg (by omega),if_pos (by omega),Nat.add_sub_cancel_left],?_,?_⟩
        · show 128 ≤ _
          omega
        · show _ ≤ 191
          omega
  have hput := put_continuing (n / 4096) 1 hrange.1 hrange.2
  have hsum : n / 4096 * 64 + n / 64 % 64 = n / 64 := by omega
  simp only [hsum] at hput
  exact decode_cons.mpr ⟨_,[],[Char.ofNat n],hlead,decode_cons.mpr ⟨_,[],[Char.ofNat n],hput,decode_last rfl,rfl⟩,rfl⟩

theorem decode_four (hlow : 0x10000 ≤ n) (hhigh : n < 0x110000) : decode .start
    [UInt8.ofNat (0xF0 + n / 262144),continuing (n / 4096),continuing (n / 64),continuing n] = some
    (.start,[Char.ofNat n]) := by
  have hnat : (UInt8.ofNat (0xF0 + n / 262144)).toNat = 0xF0 + n / 262144 := toNat_ofNat_small (by omega)
  obtain ⟨low,high,hlead,hrange⟩ : ∃ low high, lead (UInt8.ofNat (0xF0 + n / 262144)) = some (.inside 2 low high (n / 262144),[]) ∧
      low.toNat ≤ 0x80 + n / 4096 % 64 ∧ 0x80 + n / 4096 % 64 ≤ high.toNat := by
    rw [lead_toNat,hnat,if_neg (by omega),if_neg (by omega),if_neg (by omega),if_neg (by omega),if_neg (by omega),
      if_neg (by omega)]
    by_cases hF0 : n / 262144 = 0
    · refine ⟨0x90,0xBF,by rw [if_pos (by omega),hF0],?_,?_⟩
      · show 144 ≤ _
        omega
      · show _ ≤ 191
        omega
    · rw [if_neg (by omega)]
      by_cases hF4 : n / 262144 = 4
      · refine ⟨0x80,0x8F,by rw [if_neg (by omega),if_pos (by omega),hF4],?_,?_⟩
        · show 128 ≤ _
          omega
        · show _ ≤ 143
          omega
      · refine ⟨0x80,0xBF,by rw [if_pos (by omega),Nat.add_sub_cancel_left],?_,?_⟩
        · show 128 ≤ _
          omega
        · show _ ≤ 191
          omega
  have hput := put_continuing (n / 262144) 2 hrange.1 hrange.2
  have hsum : n / 262144 * 64 + n / 4096 % 64 = n / 4096 := by omega
  simp only [hsum] at hput
  have hlow' : (0x80 : UInt8).toNat ≤ 0x80 + n / 64 % 64 := Nat.le_add_right _ _
  have hhigh' : 0x80 + n / 64 % 64 ≤ (0xBF : UInt8).toNat := by
    show _ ≤ 191
    omega
  have hput' := put_continuing (n / 4096) 1 hlow' hhigh'
  have hsum' : n / 4096 * 64 + n / 64 % 64 = n / 64 := by omega
  simp only [hsum'] at hput'
  exact decode_cons.mpr ⟨_,[],[Char.ofNat n],hlead,decode_cons.mpr ⟨_,[],[Char.ofNat n],hput,
    decode_cons.mpr ⟨_,[],[Char.ofNat n],hput',decode_last rfl,rfl⟩,rfl⟩,rfl⟩

theorem decode_encodeChar (c : Char) : decode .start (encodeChar c) = some (.start,[c]) := by
  have hvalid : c.toNat < 0xD800 ∨ (0xDFFF < c.toNat ∧ c.toNat < 0x110000) := c.valid
  have hback : Char.ofNat c.toNat = c := Char.ofNat_toNat c
  by_cases h80 : c.toNat < 0x80
  · have hnat : (UInt8.ofNat c.toNat).toNat = c.toNat := toNat_ofNat_small (by omega)
    have hlead : lead (UInt8.ofNat c.toNat) = some (.start,[Char.ofNat c.toNat]) := by
      rw [lead_toNat,hnat,if_pos h80]
    rw [hback] at hlead
    rw [encodeChar,if_pos h80]
    exact decode_cons.mpr ⟨.start,[c],[],hlead,rfl,rfl⟩
  · by_cases h800 : c.toNat < 0x800
    · rw [encodeChar,if_neg h80,if_pos h800,decode_two (by omega) h800,hback]
    · by_cases h10000 : c.toNat < 0x10000
      · rw [encodeChar,if_neg h80,if_neg h800,if_pos h10000,decode_three (by omega) h10000 (hvalid.imp id And.left),hback]
      · rw [encodeChar,if_neg h80,if_neg h800,if_neg h10000,decode_four (by omega) (by omega),hback]

theorem decode_encode (text : List Char) : decode .start (encode text) = some (.start,text) := by
  induction text with
  | nil => rfl
  | cons c text ih => exact decode_append_of (decode_encodeChar c) ih

theorem encodeChar_small {c : Char} (hb : b.toNat < 0x80) (h : b ∈ encodeChar c) : c = Char.ofNat b.toNat := by
  have hbig : ∀ n, 0x80 ≤ (continuing n).toNat := fun n => by
    rw [continuing_toNat]
    exact Nat.le_add_right _ _
  have hvalid : c.toNat < 0xD800 ∨ (0xDFFF < c.toNat ∧ c.toNat < 0x110000) := c.valid
  have hback : Char.ofNat c.toNat = c := Char.ofNat_toNat c
  by_cases h80 : c.toNat < 0x80
  · rw [encodeChar,if_pos h80,List.mem_singleton] at h
    rw [h,toNat_ofNat_small (by omega),hback]
  · have hlarge : ∀ x ∈ encodeChar c, 0x80 ≤ x.toNat := by
      intro x hx
      by_cases h800 : c.toNat < 0x800
      · rw [encodeChar,if_neg h80,if_pos h800] at hx
        simp only [List.mem_cons,List.not_mem_nil,or_false] at hx
        rcases hx with rfl | rfl
        · rw [toNat_ofNat_small (by omega)]
          omega
        · exact hbig _
      · by_cases h10000 : c.toNat < 0x10000
        · rw [encodeChar,if_neg h80,if_neg h800,if_pos h10000] at hx
          simp only [List.mem_cons,List.not_mem_nil,or_false] at hx
          rcases hx with rfl | rfl | rfl
          · rw [toNat_ofNat_small (by omega)]
            omega
          · exact hbig _
          · exact hbig _
        · rw [encodeChar,if_neg h80,if_neg h800,if_neg h10000] at hx
          simp only [List.mem_cons,List.not_mem_nil,or_false] at hx
          rcases hx with rfl | rfl | rfl | rfl
          · rw [toNat_ofNat_small (by omega)]
            omega
          · exact hbig _
          · exact hbig _
          · exact hbig _
    exact absurd (hlarge b h) (Nat.not_le.mpr hb)

end Verdict.Utf8

/-! ## Text files and their lines

A text file is read as UTF-8 with every line end made a line feed, and cut into lines. Lines
without a break in them that were each written with a line feed are read as those lines.
-/
namespace Verdict.TextLines

def translated : List Char → List Char
  | [] => []
  | '\r' :: '\n' :: s => '\n' :: translated s
  | c :: s => (if c = '\r' then '\n' else c) :: translated s

/-- `path.read_text(encoding="utf-8")`. -/
def readText (raw : List UInt8) : Option (List Char) := do
  let (s,text) ← Utf8.decode .start raw
  let rest ← Utf8.finish s
  return translated (text ++ rest)

/-- The line boundaries of `splitlines`. -/
def lineBreak (c : Char) : Bool :=
  let n := c.toNat
  (10 ≤ n && n ≤ 13) || (28 ≤ n && n ≤ 30) || n == 0x85 || n == 0x2028 || n == 0x2029

/-- `text.splitlines()`; a carriage return stands alone once line ends are translated. -/
def splitlines : List Char → List (List Char)
  | [] => []
  | c :: s =>
    if lineBreak c then [] :: splitlines s
    else match splitlines s with
      | [] => [[c]]
      | l :: ls => (c :: l) :: ls

def ended (ls : List (List Char)) : List Char := ls.flatMap (· ++ ['\n'])

variable {s : List Char}

theorem translated_of_plain (h : ∀ c ∈ s, c ≠ '\r') : translated s = s := by
  fun_induction translated s with
  | case1 => rfl
  | case2 s ih => exact absurd rfl (h '\r' List.mem_cons_self)
  | case3 c s hpair ih =>
    obtain ⟨hc,hs⟩ := List.forall_mem_cons.mp h
    rw [if_neg hc,ih hs]

theorem readText_encode (h : ∀ c ∈ s, c ≠ '\r') : readText (Utf8.encode s) = some s := by
  simp only [readText,Utf8.decode_encode,Utf8.finish,Option.bind_eq_bind,Option.bind_some,Option.pure_def,List.append_nil,
    translated_of_plain h]

theorem splitlines_line {l : List Char} (h : ∀ c ∈ l, lineBreak c = false) (rest : List Char) :
    splitlines (l ++ '\n' :: rest) = l :: splitlines rest := by
  induction l with
  | nil => rfl
  | cons c l ih =>
    obtain ⟨hc,hl⟩ := List.forall_mem_cons.mp h
    rw [List.cons_append,splitlines,if_neg (ne_true_of_eq_false hc),ih hl]

theorem splitlines_ended {ls : List (List Char)} (h : ∀ l ∈ ls, ∀ c ∈ l, lineBreak c = false) : splitlines (ended ls) = ls := by
  induction ls with
  | nil => rfl
  | cons l ls ih =>
    obtain ⟨hl,hls⟩ := List.forall_mem_cons.mp h
    have hcons : ended (l :: ls) = l ++ '\n' :: ended ls := by
      rw [ended,List.flatMap_cons,List.append_assoc]
      rfl
    rw [hcons,splitlines_line hl,ih hls]

end Verdict.TextLines

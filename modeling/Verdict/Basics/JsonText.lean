import Verdict.Basics.Json
import Verdict.Basics.JsonNumeral
import Verdict.Basics.JsonValue

/-! # Writing JSON and reading it

The text that `json.dumps` makes of a value, with the smallest separators and in ASCII, and the
parser behind `json.loads`. Reading what was written gives the value with its surrogate pairs
joined. How a float is written and read is a parameter.
-/
namespace Verdict.JsonText
open PyText JsonNumeral JsonValue

structure FloatText (φ : Type) where
  finite : φ → Bool
  repr : φ → List Char
  parse : List Char → φ
  (nan inf negInf : φ)
  numeral : ∀ x, finite x = true → ∃ n : Numeral, n.Valid ∧ n.isFloat = true ∧ repr x = n.text
  parse_repr : ∀ x, finite x = true → parse (repr x) = x

variable {φ : Type} (F : FloatText φ)

def openBrace : Char := '\x7b'
def closeBrace : Char := '\x7d'

/-! ### Writing -/

def printLeaf : Leaf φ → List Char
  | .null => ['n','u','l','l']
  | .bool true => ['t','r','u','e']
  | .bool false => ['f','a','l','s','e']
  | .int n => (ofInt n).text
  | .float x => F.repr x
  | .str t => '"' :: (escape t ++ ['"'])

mutual

def print : Value φ → List Char
  | .leaf l => printLeaf F l
  | .arr xs => '[' :: (printItems xs ++ [']'])
  | .obj fs => openBrace :: (printFields fs ++ [closeBrace])

def printItems : List (Value φ) → List Char
  | [] => []
  | [x] => print x
  | x :: y :: xs => print x ++ ',' :: printItems (y :: xs)

def printFields : List (Text × Value φ) → List Char
  | [] => []
  | [(k,v)] => '"' :: (escape k ++ '"' :: ':' :: print v)
  | (k,v) :: e :: fs => '"' :: (escape k ++ '"' :: ':' :: (print v ++ ',' :: printFields (e :: fs)))

end

def maxDigits : ℕ := 4300

def fits : Leaf φ → Bool
  | .int n => decide ((Nat.toDigits 10 n.natAbs).length ≤ maxDigits)
  | _ => true

def FloatText.finiteLeaf : Leaf φ → Bool
  | .float x => F.finite x
  | _ => true

/-- `json.dumps(value, sort_keys=True, separators=(",", ":"))`. -/
def dumps (v : Value φ) : Option (List Char) :=
  if v.every fits (fun _ => true) then some (print F v.sorted) else none

/-! ### Reading -/

def space (c : Char) : Bool := c = ' ' || c = '\t' || c = '\n' || c = '\r'

def skip (s : List Char) : List Char := s.dropWhile space

def words : List (List Char × Value φ) :=
  [(['n','u','l','l'],.null),(['t','r','u','e'],.bool true),(['f','a','l','s','e'],.bool false),
    (['N','a','N'],.float F.nan),(['I','n','f','i','n','i','t','y'],.float F.inf),
    (['-','I','n','f','i','n','i','t','y'],.float F.negInf)]

def scanWord (s : List Char) : Option (Value φ × List Char) :=
  (words F).findSome? fun w => if w.1.isPrefixOf s then some (w.2,s.drop w.1.length) else none

def numeralValue (n : Numeral) : Option (Value φ) :=
  if n.isFloat then some (.float (F.parse n.text))
  else if maxDigits < n.whole.length then none
  else some (.int (toInt n))

def expect (c : Char) (s : List Char) : Option (List Char) :=
  if (skip s).head? = some c then some (skip s).tail else none

variable (close : Char)

def separator (s : List Char) : Option (Bool × List Char) :=
  match skip s with
  | [] => none
  | c :: s => if c = ',' then some (true,skip s) else if c = close then some (false,s) else none

def scanKey (s : List Char) : Option (Text × List Char) := do
  let s ← expect '"' s
  let (k,s) ← scanString s
  let s ← expect ':' s
  return (k,skip s)

mutual

/-- `scan_once`; the number bounds the calls. -/
def scanValue : ℕ → List Char → Option (Value φ × List Char)
  | 0, _ => none
  | _ + 1, [] => none
  | n + 1, c :: s =>
    if c = '"' then (scanString s).map (fun p => (.str p.1,p.2))
    else if c = '[' then
      if (skip s).head? = some ']' then some (.arr [],(skip s).tail)
      else (scanItems n (skip s)).map fun p => (.arr p.1,p.2)
    else if c = openBrace then
      if (skip s).head? = some closeBrace then some (.obj [],(skip s).tail)
      else (scanFields n (skip s)).map fun p => (.obj (Value.toDict p.1),p.2)
    else match scanNumeral (c :: s) with
      | some (m,s) => (numeralValue F m).map fun v => (v,s)
      | none => scanWord F (c :: s)

def scanItems : ℕ → List Char → Option (List (Value φ) × List Char)
  | 0, _ => none
  | n + 1, s => do
    let (x,s) ← scanValue n s
    let (more,s) ← separator ']' s
    if more then
      let (xs,s) ← scanItems n s
      return (x :: xs,s)
    else return ([x],s)

def scanFields : ℕ → List Char → Option (List (Text × Value φ) × List Char)
  | 0, _ => none
  | n + 1, s => do
    let (k,s) ← scanKey s
    let (v,s) ← scanValue n s
    let (more,s) ← separator closeBrace s
    if more then
      let (fs,s) ← scanFields n s
      return ((k,v) :: fs,s)
    else return ([(k,v)],s)

end

/-- `json.loads`. -/
def loads (s : List Char) : Option (Value φ) :=
  if s.head? = some '\uFEFF' then none
  else match scanValue F (2 * s.length) (skip s) with
    | some (v,rest) => if skip rest = [] then some v else none
    | none => none

/-! ### The round trip -/

variable {F}

/-- What can be written and read back: integers of few digits and finite floats. -/
structure Writable (F : FloatText φ) (v : Value φ) : Prop where
  fits : v.every fits (fun _ => true) = true
  finite : v.every F.finiteLeaf (fun _ => true) = true

theorem Writable.items {xs : List (Value φ)} (h : Writable F (.arr xs)) : ∀ x ∈ xs, Writable F x :=
  fun x hx => ⟨Value.every_arr.mp h.fits x hx,Value.every_arr.mp h.finite x hx⟩

theorem Writable.fields {fs : List (Text × Value φ)} (h : Writable F (.obj fs)) : ∀ e ∈ fs, Writable F e.2 :=
  fun e he => ⟨(Value.every_obj.mp h.fits).2 e he,(Value.every_obj.mp h.finite).2 e he⟩

variable {v : Value φ}

theorem Writable.sorted (h : Writable F v) : Writable F v.sorted :=
  ⟨(Value.every_sorted (fun _ _ _ => rfl) v).trans h.fits,(Value.every_sorted (fun _ _ _ => rfl) v).trans h.finite⟩

variable {c : Char}

theorem skip_cons (h : space c = false) (s : List Char) : skip (c :: s) = c :: s :=
  List.dropWhile_cons_of_neg (ne_true_of_eq_false h)

theorem separator_more (s : List Char) : separator close (',' :: s) = some (true,skip s) := rfl

theorem separator_close (hspace : space close = false) (hcomma : close ≠ ',') (s : List Char) :
    separator close (close :: s) = some (false,s) := by
  rw [separator,skip_cons hspace]
  simp only [if_neg hcomma,if_pos]

def Opens (s : List Char) : Prop := ∃ c r, s = c :: r ∧ space c = false ∧ c ≠ ']' ∧ c ≠ closeBrace

theorem opens_cons {r : List Char} (h : space c = false ∧ c ≠ ']' ∧ c ≠ closeBrace) : Opens (c :: r) := ⟨c,r,rfl,h⟩

variable {s : List Char}

theorem Opens.append (h : Opens s) (rest : List Char) : Opens (s ++ rest) := by
  obtain ⟨c,r,rfl,hc⟩ := h
  exact ⟨c,r ++ rest,rfl,hc⟩

theorem Opens.skip (h : Opens s) : JsonText.skip s = s := by
  obtain ⟨c,r,rfl,hc⟩ := h
  exact skip_cons hc.1 r

theorem digit_plain (h : c = '-' ∨ c.isDigit = true) :
    (space c = false ∧ c ≠ ']' ∧ c ≠ closeBrace) ∧ c ≠ '"' ∧ c ≠ '[' ∧ c ≠ openBrace := by
  rcases h with rfl | h
  · decide
  · have hne : ∀ d : Char, d.isDigit = false → c ≠ d := fun d hd hc => by
      rw [hc,hd] at h
      cases h
    refine ⟨⟨?_,hne _ (by decide),hne _ (by decide)⟩,hne _ (by decide),hne _ (by decide),hne _ (by decide)⟩
    simp only [space,hne ' ' (by decide),hne '\t' (by decide),hne '\n' (by decide),hne '\r' (by decide),decide_false,
      Bool.or_false]

variable {n : Numeral}

theorem opens_text (h : n.Valid) : Opens n.text := by
  obtain ⟨c,s,hs,hc⟩ := h.text_eq_cons
  rw [hs]
  exact opens_cons (digit_plain hc).1

theorem opens_print (h : Writable F v) : Opens (print F v) := by
  cases v with
  | leaf l =>
    cases l with
    | null => exact opens_cons (by decide)
    | bool b => cases b <;> exact opens_cons (by decide)
    | int n => exact opens_text (valid_ofInt n)
    | float x =>
      obtain ⟨n,hn,-,hrepr⟩ := F.numeral x h.finite
      rw [print,printLeaf,hrepr]
      exact opens_text hn
    | str t => exact opens_cons (by decide)
  | arr xs => exact opens_cons (by decide)
  | obj fs => exact opens_cons (by decide)

variable {rest : List Char}

theorem scanValue_numeral {m : Numeral} (hm : m.Valid) (hrest : Ends rest) (n : ℕ) :
    scanValue F (n + 1) (m.text ++ rest) = (numeralValue F m).map (fun v => (v,rest)) := by
  have hscan := hm.scanNumeral hrest
  obtain ⟨c,s,hs,hc⟩ := hm.text_eq_cons
  obtain ⟨-,hquote,hopen,hbrace⟩ := digit_plain hc
  rw [hs,List.cons_append] at hscan ⊢
  rw [scanValue,if_neg hquote,if_neg hopen,if_neg hbrace,hscan]

variable {l : Leaf φ}

theorem scanValue_leaf (h : Writable F (.leaf l)) (hrest : Ends rest) (n : ℕ) :
    scanValue F (n + 1) (printLeaf F l ++ rest) = some (Value.back (.leaf l),rest) := by
  cases l with
  | null => rfl
  | bool b => cases b <;> rfl
  | int k =>
    rw [printLeaf,scanValue_numeral (valid_ofInt k) hrest,numeralValue]
    have hwhole : ¬ maxDigits < (ofInt k).whole.length := Nat.not_lt.mpr (of_decide_eq_true h.fits)
    rw [if_neg (show ¬ (ofInt k).isFloat = true from Bool.false_ne_true),if_neg hwhole,toInt_ofInt]
    rfl
  | float x =>
    obtain ⟨m,hm,hfloat,hrepr⟩ := F.numeral x h.finite
    rw [printLeaf,hrepr,scanValue_numeral hm hrest,numeralValue,if_pos hfloat,← hrepr,F.parse_repr x h.finite]
    rfl
  | str t =>
    rw [printLeaf,List.cons_append,List.append_assoc,scanValue,if_pos rfl,List.singleton_append,scanString_escape]
    rfl

theorem scanKey_print (k : Text) (h : Opens s) : scanKey ('"' :: (escape k ++ '"' :: ':' :: s)) = some (join k,s) := by
  have hquote : expect '"' ('"' :: (escape k ++ '"' :: ':' :: s)) = some (escape k ++ '"' :: ':' :: s) := rfl
  have hcolon : expect ':' (':' :: s) = some s := rfl
  simp only [scanKey,hquote,Option.bind_eq_bind,Option.bind_some,scanString_escape,hcolon,h.skip]
  rfl

theorem Opens.head (h : Opens s) : s.head? ≠ some ']' ∧ s.head? ≠ some closeBrace := by
  obtain ⟨c,r,rfl,-,hbracket,hbrace⟩ := h
  exact ⟨fun he => hbracket (Option.some.inj he),fun he => hbrace (Option.some.inj he)⟩

theorem opens_printItems {x : Value φ} (h : Writable F x) (xs : List (Value φ)) : Opens (printItems F (x :: xs)) := by
  cases xs with
  | nil => exact opens_print h
  | cons y ys => exact (opens_print h).append _

theorem opens_printFields (F : FloatText φ) (e : Text × Value φ) (fs : List (Text × Value φ)) : Opens (printFields F (e :: fs)) := by
  obtain ⟨k,v⟩ := e
  cases fs <;> exact opens_cons (by decide)

mutual

theorem scanValue_print : (v : Value φ) → Writable F v → ∀ (n : ℕ) (rest : List Char), Ends rest → 2 * (print F v).length ≤ n →
    scanValue F n (print F v ++ rest) = some (v.back,rest)
  | .leaf l, h, n, rest, hrest, hn => by
    obtain ⟨c,r,hs,-⟩ := opens_print h
    rw [hs,List.length_cons] at hn
    obtain ⟨m,rfl⟩ : ∃ m, n = m + 1 := ⟨n - 1,by omega⟩
    rw [print]
    exact scanValue_leaf h hrest m
  | .arr [], _, n, rest, _, hn => by
    obtain ⟨m,rfl⟩ : ∃ m, n = m + 1 := ⟨n - 1,by simp only [print,List.length_cons] at hn; omega⟩
    rfl
  | .arr (x :: xs), h, n, rest, _, hn => by
    simp only [print,List.length_cons,List.length_append,List.length_nil] at hn
    obtain ⟨m,rfl⟩ : ∃ m, n = m + 1 := ⟨n - 1,by omega⟩
    have hopens := (opens_printItems (h.items x List.mem_cons_self) xs).append (']' :: rest)
    have hitems := scanItems_print x xs h.items m rest (by omega)
    rw [print,List.cons_append,List.append_assoc,List.singleton_append,scanValue,if_neg (by decide),if_pos rfl,hopens.skip,
      if_neg hopens.head.1,hitems]
    rfl
  | .obj [], _, n, rest, _, hn => by
    obtain ⟨m,rfl⟩ : ∃ m, n = m + 1 := ⟨n - 1,by simp only [print,List.length_cons] at hn; omega⟩
    rfl
  | .obj (e :: fs), h, n, rest, _, hn => by
    simp only [print,List.length_cons,List.length_append,List.length_nil] at hn
    obtain ⟨m,rfl⟩ : ∃ m, n = m + 1 := ⟨n - 1,by omega⟩
    have hopens := (opens_printFields F e fs).append (closeBrace :: rest)
    have hfields := scanFields_print e fs h.fields m rest (by omega)
    rw [print,List.cons_append,List.append_assoc,List.singleton_append,scanValue,if_neg (by decide),if_neg (by decide),
      if_pos rfl,hopens.skip,if_neg hopens.head.2,hfields]
    rfl

theorem scanItems_print : (x : Value φ) → (xs : List (Value φ)) → (∀ y ∈ x :: xs, Writable F y) → ∀ (n : ℕ) (rest : List Char),
    2 * (printItems F (x :: xs)).length + 1 ≤ n →
    scanItems F n (printItems F (x :: xs) ++ ']' :: rest) = some (Value.backItems (x :: xs),rest)
  | x, [], h, n, rest, hn => by
    rw [printItems] at hn ⊢
    obtain ⟨m,rfl⟩ : ∃ m, n = m + 1 := ⟨n - 1,by omega⟩
    have hvalue := scanValue_print x (h x List.mem_cons_self) m (']' :: rest) (ends_cons (by decide)) (by omega)
    simp only [scanItems,hvalue,Option.bind_eq_bind,Option.bind_some,separator_close ']' rfl (by decide)]
    rfl
  | x, y :: ys, h, n, rest, hn => by
    obtain ⟨hx,hys⟩ := List.forall_mem_cons.mp h
    rw [printItems] at hn ⊢
    rw [List.length_append,List.length_cons] at hn
    obtain ⟨m,rfl⟩ : ∃ m, n = m + 1 := ⟨n - 1,by omega⟩
    have hopens := (opens_printItems (hys y List.mem_cons_self) ys).append (']' :: rest)
    have hvalue := scanValue_print x hx m (',' :: (printItems F (y :: ys) ++ ']' :: rest)) (ends_cons (by decide)) (by omega)
    have hitems := scanItems_print y ys hys m rest (by omega)
    rw [List.append_assoc,List.cons_append]
    simp only [scanItems,hvalue,Option.bind_eq_bind,Option.bind_some,separator_more,hopens.skip,if_pos,hitems]
    rfl

theorem scanFields_print : (e : Text × Value φ) → (fs : List (Text × Value φ)) → (∀ d ∈ e :: fs, Writable F d.2) →
    ∀ (n : ℕ) (rest : List Char), 2 * (printFields F (e :: fs)).length + 1 ≤ n →
    scanFields F n (printFields F (e :: fs) ++ closeBrace :: rest) = some (Value.backFields (e :: fs),rest)
  | (k,v), [], h, n, rest, hn => by
    have hv : Writable F v := h (k,v) List.mem_cons_self
    rw [printFields] at hn ⊢
    simp only [List.length_cons,List.length_append] at hn
    obtain ⟨m,rfl⟩ : ∃ m, n = m + 1 := ⟨n - 1,by omega⟩
    have hkey := scanKey_print k ((opens_print hv).append (closeBrace :: rest))
    have hvalue := scanValue_print v hv m (closeBrace :: rest) (ends_cons (by decide)) (by omega)
    simp only [List.cons_append,List.append_assoc]
    simp only [scanFields,hkey,hvalue,Option.bind_eq_bind,Option.bind_some,separator_close closeBrace rfl (by decide)]
    rfl
  | (k,v), d :: ds, h, n, rest, hn => by
    obtain ⟨hv,hds⟩ := List.forall_mem_cons.mp h
    rw [printFields] at hn ⊢
    simp only [List.length_cons,List.length_append] at hn
    obtain ⟨m,rfl⟩ : ∃ m, n = m + 1 := ⟨n - 1,by omega⟩
    have hopens := (opens_printFields F d ds).append (closeBrace :: rest)
    have hkey := scanKey_print k ((opens_print hv).append (',' :: (printFields F (d :: ds) ++ closeBrace :: rest)))
    have hvalue := scanValue_print v hv m (',' :: (printFields F (d :: ds) ++ closeBrace :: rest)) (ends_cons (by decide)) (by omega)
    have hfields := scanFields_print d ds hds m rest (by omega)
    simp only [List.cons_append,List.append_assoc]
    simp only [scanFields,hkey,hvalue,Option.bind_eq_bind,Option.bind_some,separator_more,hopens.skip,if_pos,hfields]
    rfl

end

/-! ### The letters written -/

theorem printable_digit (h : c.isDigit = true) : Printable c := by
  obtain ⟨hlow,hhigh⟩ := Bool.and_eq_true_iff.mp h
  have hle : 48 ≤ c.toNat := UInt32.le_iff_toNat_le.mp (of_decide_eq_true hlow)
  have hge : c.toNat ≤ 57 := UInt32.le_iff_toNat_le.mp (of_decide_eq_true hhigh)
  exact ⟨by omega,by omega⟩

theorem printable_text (h : n.Valid) (hc : c ∈ n.text) : Printable c := by
  rcases h.mem_text hc with hd | hd
  · exact printable_digit hd
  · simp only [List.mem_cons,List.not_mem_nil,or_false] at hd
    rcases hd with rfl | rfl | rfl | rfl | rfl <;> decide

theorem printable_quoted {t : Text} (h : c ∈ '"' :: (escape t ++ ['"'])) : Printable c := by
  rcases List.mem_cons.mp h with rfl | h
  · decide
  · rcases List.mem_append.mp h with h | h
    · exact printable_escape h
    · rw [List.mem_singleton.mp h]
      decide

theorem printable_of_all (h : s.all (fun c => decide (Printable c)) = true) : ∀ c ∈ s, Printable c :=
  fun c hc => of_decide_eq_true (List.all_eq_true.mp h c hc)

theorem printable_leaf (h : Writable F (.leaf l)) : ∀ c ∈ printLeaf F l, Printable c := by
  cases l with
  | null => exact printable_of_all rfl
  | bool b =>
    cases b
    · exact printable_of_all rfl
    · exact printable_of_all rfl
  | int n => exact fun c => printable_text (valid_ofInt n)
  | float x =>
    obtain ⟨n,hn,-,hrepr⟩ := F.numeral x h.finite
    rw [printLeaf,hrepr]
    exact fun c => printable_text hn
  | str t => exact fun c => printable_quoted

mutual

theorem printable_print : (v : Value φ) → Writable F v → ∀ c ∈ print F v, Printable c
  | .leaf l, h => by
    rw [print]
    exact printable_leaf h
  | .arr xs, h => by
    have hitems := printable_printItems xs h.items
    rw [print,List.forall_mem_cons,List.forall_mem_append,List.forall_mem_singleton]
    exact ⟨by decide,hitems,by decide⟩
  | .obj fs, h => by
    have hfields := printable_printFields fs h.fields
    rw [print,List.forall_mem_cons,List.forall_mem_append,List.forall_mem_singleton]
    exact ⟨by decide,hfields,by decide⟩

theorem printable_printItems : (xs : List (Value φ)) → (∀ x ∈ xs, Writable F x) → ∀ c ∈ printItems F xs, Printable c
  | [], _ => fun _ hc => absurd hc List.not_mem_nil
  | [x], h => by
    rw [printItems]
    exact printable_print x (h x List.mem_cons_self)
  | x :: y :: xs, h => by
    obtain ⟨hx,hxs⟩ := List.forall_mem_cons.mp h
    have hitems := printable_printItems (y :: xs) hxs
    rw [printItems,List.forall_mem_append,List.forall_mem_cons]
    exact ⟨printable_print x hx,by decide,hitems⟩

theorem printable_printFields : (fs : List (Text × Value φ)) → (∀ e ∈ fs, Writable F e.2) → ∀ c ∈ printFields F fs, Printable c
  | [], _ => fun _ hc => absurd hc List.not_mem_nil
  | [(k,v)], h => by
    have hv : Writable F v := h (k,v) List.mem_cons_self
    rw [printFields,List.forall_mem_cons,List.forall_mem_append,List.forall_mem_cons,List.forall_mem_cons]
    exact ⟨by decide,fun c => printable_escape,by decide,by decide,printable_print v hv⟩
  | (k,v) :: e :: fs, h => by
    obtain ⟨hv,hfs⟩ := List.forall_mem_cons.mp h
    have hfields := printable_printFields (e :: fs) hfs
    rw [printFields,List.forall_mem_cons,List.forall_mem_append,List.forall_mem_cons,List.forall_mem_cons,
      List.forall_mem_append,List.forall_mem_cons]
    exact ⟨by decide,fun c => printable_escape,by decide,by decide,printable_print v hv,by decide,hfields⟩

end

/-! ### Whole texts -/

theorem loads_print (h : Writable F v) : loads F (print F v) = some v.back := by
  have hscan := scanValue_print v h (2 * (print F v).length) [] ends_nil le_rfl
  rw [List.append_nil] at hscan
  have hmark : (print F v).head? ≠ some '\uFEFF' := fun hhead =>
    absurd (printable_print v h _ (List.mem_of_head? hhead)) (by decide)
  rw [loads,if_neg hmark,(opens_print h).skip,hscan]
  rfl

/-- What `json.dumps` writes of a value with finite floats, `json.loads` reads. -/
theorem loads_dumps (hfinite : v.every F.finiteLeaf (fun _ => true) = true) {text : List Char}
    (h : dumps F v = some text) : loads F text = some v.sorted.back ∧ ∀ c ∈ text, Printable c := by
  obtain ⟨hfits,hprint⟩ := Option.ite_none_right_eq_some.mp h
  cases hprint
  have hv : Writable F v.sorted := Writable.sorted ⟨hfits,hfinite⟩
  exact ⟨loads_print hv,printable_print v.sorted hv⟩

/-! ### Floats without a fraction -/

inductive WholeFloat
  | whole (n : ℤ)
  | nan | inf | negInf

def wholeNumeral (n : ℤ) : Numeral := {ofInt n with fraction := some ['0']}

theorem valid_wholeNumeral (n : ℤ) : (wholeNumeral n).Valid where
  whole := (valid_ofInt n).whole
  fraction _ hds := Option.some.inj hds ▸ ⟨List.cons_ne_nil _ _,fun _ hc => List.mem_singleton.mp hc ▸ rfl⟩
  exponent _ h := nomatch h

/-- Floats without a fraction, written as `2.0`. -/
def wholeFloats : FloatText WholeFloat where
  finite
    | .whole _ => true
    | _ => false
  repr
    | .whole n => (wholeNumeral n).text
    | .nan => ['n','a','n']
    | .inf => ['i','n','f']
    | .negInf => ['-','i','n','f']
  parse s := match scanNumeral s with
    | some (n,_) => .whole (toInt n)
    | none => .nan
  nan := .nan
  inf := .inf
  negInf := .negInf
  numeral x hx := by
    cases x with
    | whole n => exact ⟨wholeNumeral n,valid_wholeNumeral n,rfl,rfl⟩
    | nan => cases hx
    | inf => cases hx
    | negInf => cases hx
  parse_repr x hx := by
    cases x with
    | whole n =>
      have hscan := (valid_wholeNumeral n).scanNumeral ends_nil
      rw [List.append_nil] at hscan
      simp only [hscan]
      exact congrArg WholeFloat.whole (toInt_ofInt n)
    | nan => cases hx
    | inf => cases hx
    | negInf => cases hx

/-! ### The library -/

/-- `json.dumps` of a value whose fields are sorted, and `json.loads` with the text of its error. -/
structure Library where
  dumps : Json → List Char
  loads : List Char → Except String Json

def Library.read (lib : Library) (text : List Char) : Option Json := (lib.loads text).toOption

mutual

def valueOf : Json → Option (Value WholeFloat)
  | .scalar .null => some .null
  | .bool b => some (.bool b)
  | .int n => some (.int n)
  | .float q => if q.den = 1 then some (.float (.whole q.num)) else none
  | .str s => some (.str (lit s))
  | .scalar _ => none
  | .arr xs => (valuesOf xs).map .arr
  | .obj fs => (membersOf fs).map .obj

def valuesOf : List Json → Option (List (Value WholeFloat))
  | [] => some []
  | x :: xs => do return (← valueOf x) :: (← valuesOf xs)

def membersOf : List (String × Json) → Option (List (Text × Value WholeFloat))
  | [] => some []
  | (k,v) :: fs => do return (lit k,← valueOf v) :: (← membersOf fs)

end

def stringOf (t : Text) : Option String :=
  (t.mapM fun c : CodePoint => if c.val.isValidChar then some (Char.ofNat c.val) else none).map String.ofList

mutual

def jsonOf : Value WholeFloat → Option Json
  | .null => some (.scalar .null)
  | .bool b => some (.bool b)
  | .int n => some (.int n)
  | .float (.whole n) => some (.float n)
  | .float _ => none
  | .str t => (stringOf t).map .str
  | .arr xs => (jsonsOf xs).map .arr
  | .obj fs => (fieldsOf fs).map .obj

def jsonsOf : List (Value WholeFloat) → Option (List Json)
  | [] => some []
  | x :: xs => do return (← jsonOf x) :: (← jsonsOf xs)

def fieldsOf : List (Text × Value WholeFloat) → Option (List (String × Json))
  | [] => some []
  | (k,v) :: fs => do return (← stringOf k,← jsonOf v) :: (← fieldsOf fs)

end

/-- The smallest separators and ASCII, on values whose floats have no fraction. -/
def compact : Library where
  dumps j := ((valueOf j).bind (dumps wholeFloats)).getD []
  loads s := match (loads wholeFloats s).bind jsonOf with
    | some j => .ok j
    | none => .error "Expecting value"

theorem compact_reads {j : Json} {v : Value WholeFloat} (hv : valueOf j = some v)
    (hfinite : v.every wholeFloats.finiteLeaf (fun _ => true) = true) (hfits : v.every fits (fun _ => true) = true)
    (hback : jsonOf v.sorted.back = some j) : compact.loads (compact.dumps j) = .ok j := by
  have hdumps : dumps wholeFloats v = some (print wholeFloats v.sorted) := if_pos hfits
  have htext : compact.dumps j = print wholeFloats v.sorted := by
    show ((valueOf j).bind (dumps wholeFloats)).getD [] = _
    rw [hv,Option.bind_some,hdumps,Option.getD_some]
  have hread : (loads wholeFloats (compact.dumps j)).bind jsonOf = some j := by
    rw [htext,(loads_dumps hfinite hdumps).1,Option.bind_some,hback]
  show (match (loads wholeFloats (compact.dumps j)).bind jsonOf with
    | some j => Except.ok j
    | none => .error "Expecting value") = .ok j
  rw [hread]

end Verdict.JsonText

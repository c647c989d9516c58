import Mathlib.Data.List.Basic

/-! # Replacing matches in a text

`re.sub` with a pattern that matches in at most one way at a position: the text is scanned from
the left, the first match is replaced, and the scan goes on behind it. A match may look at the
character before it.
-/
namespace Verdict.Substitute

structure Match where
  out : List Char
  length : ℕ

abbrev Matcher := Option Char → List Char → Option Match

def scan (m : Matcher) : ℕ → Option Char → List Char → List Char
  | _, _, [] => []
  | n + 1, _, c :: cs => scan m n (some c) cs
  | 0, before, c :: cs => match m before (c :: cs) with
    | some found => found.out ++ scan m (found.length - 1) (some c) cs
    | none => c :: scan m 0 (some c) cs

/-- `pattern.sub(...)`. -/
def sub (m : Matcher) (text : List Char) : List Char := scan m 0 none text

/-- `pattern.search(...)`. -/
def occurs (m : Matcher) : Option Char → List Char → Bool
  | _, [] => false
  | before, c :: cs => (m before (c :: cs)).isSome || occurs m (some c) cs

variable {m : Matcher}
variable {text : List Char}

theorem scan_of_not_occurs {before : Option Char} (h : occurs m before text = false) :
    scan m 0 before text = text := by
  induction text generalizing before with
  | nil => rfl
  | cons c cs ih =>
    obtain ⟨hnone,hrest⟩ := Bool.or_eq_false_iff.mp h
    rw [scan,Option.isSome_eq_false_iff.mp hnone |> Option.isNone_iff_eq_none.mp]
    exact congrArg (c :: ·) (ih hrest)

theorem sub_of_not_occurs (h : occurs m none text = false) : sub m text = text := scan_of_not_occurs h

theorem sub_ne_nil (hout : ∀ before cs found, m before cs = some found → found.out ≠ []) (h : text ≠ []) :
    sub m text ≠ [] := by
  cases text with
  | nil => exact absurd rfl h
  | cons c cs =>
    rw [sub,scan]
    split
    · next found hfound => exact List.append_ne_nil_of_left_ne_nil (hout _ _ _ hfound) _
    · exact List.cons_ne_nil _ _

/-! ### A literal -/

/-- `text.replace(old, new)` for an `old` that is not empty. -/
def literal (old new : List Char) : Matcher := fun _ cs => if old <+: cs then some ⟨new,old.length⟩ else none

theorem scan_covered (before : Option Char) (text : List Char) : scan m text.length before text = [] := by
  induction text generalizing before with
  | nil => rfl
  | cons c cs ih => exact ih (some c)

variable {c : Char} {new : List Char}

theorem sub_literal_end {old front : List Char} (h : c ∉ front) :
    sub (literal (c :: old) new) (front ++ c :: old) = front ++ new := by
  have hscan : ∀ before, scan (literal (c :: old) new) 0 before (front ++ c :: old) = front ++ new := by
    induction front with
    | nil =>
      intro before
      rw [List.nil_append,List.nil_append,scan,literal,if_pos (List.prefix_refl _)]
      simp only [List.length_cons,Nat.add_sub_cancel]
      rw [scan_covered,List.append_nil]
    | cons d front ih =>
      intro before
      obtain ⟨hne,hfront⟩ := List.ne_and_not_mem_of_not_mem_cons h
      have hnot : ¬c :: old <+: d :: (front ++ c :: old) := fun hpre => hne (List.cons_prefix_cons.mp hpre).1
      rw [List.cons_append,List.cons_append,scan,literal,if_neg hnot]
      exact congrArg (d :: ·) (ih hfront (some d))
  exact hscan none

theorem sub_literal_of_not_mem {r : List Char} (h : c ∉ text) : sub (literal (c :: r) new) text = text := by
  refine sub_of_not_occurs ?_
  have hoccurs : ∀ before, occurs (literal (c :: r) new) before text = false := by
    induction text with
    | nil => exact fun _ => rfl
    | cons d text ih =>
      intro before
      obtain ⟨hne,htext⟩ := List.ne_and_not_mem_of_not_mem_cons h
      have hnot : ¬c :: r <+: d :: text := fun hpre => hne (List.cons_prefix_cons.mp hpre).1
      rw [occurs,literal,if_neg hnot]
      exact ih htext (some d)
  exact hoccurs none

/-! ### A text beside what replacing makes of it -/

abbrev Pattern := Option Char → List Char → Bool

/-- `pattern.search(...)` from a position on. -/
def found (p : Pattern) : Option Char → List Char → Bool
  | _, [] => false
  | before, c :: cs => p before (c :: cs) || found p (some c) cs

/-- Two texts run in parallel: a character is kept where `kept` says so, a stretch is swapped for another. The characters
before the positions stand in front. -/
inductive Aligned (swap : Option Char → List Char → List Char → Prop) (kept : Option Char → List Char → Prop) :
    Option Char → Option Char → List Char → List Char → Prop
  | nil (b b' : Option Char) : Aligned swap kept b b' [] []
  | keep {b b' : Option Char} {c : Char} {i o : List Char} : kept b (c :: i) → Aligned swap kept (some c) (some c) i o →
      Aligned swap kept b b' (c :: i) (c :: o)
  | swap {b b' : Option Char} {old new i o : List Char} : swap b old new → Aligned swap kept old.getLast? new.getLast? i o →
      Aligned swap kept b b' (old ++ i) (new ++ o)

theorem scan_skip (m : Matcher) (front rest : List Char) (before : Option Char) :
    scan m front.length before (front ++ rest) = scan m 0 (front.getLast?.or before) rest := by
  induction front generalizing before with
  | nil => rfl
  | cons c front ih =>
    refine (ih (some c)).trans ?_
    cases front with
    | nil => rfl
    | cons d front => rw [List.getLast?_cons_cons,List.getLast?_cons]; rfl

section
variable {swap : Option Char → List Char → List Char → Prop} {kept : Option Char → List Char → Prop} {p : Pattern}
  {b b' : Option Char} {i o : List Char}

theorem aligned_scan (hswap : ∀ before text found, m before text = some found →
      ∃ c old rest, text = c :: old ++ rest ∧ found.length = old.length + 1 ∧ swap before (c :: old) found.out)
    (hkept : ∀ before text, m before text = none → kept before text) (b b' : Option Char) (text : List Char) :
    Aligned swap kept b b' text (scan m 0 b text) := by
  induction hn : text.length using Nat.strongRecOn generalizing b b' text with
  | _ n ih =>
    cases text with
    | nil => exact .nil b b'
    | cons c cs =>
      rw [scan]
      cases hm : m b (c :: cs) with
      | none => exact .keep (hkept b _ hm) (ih cs.length (by simp [← hn]) _ _ cs rfl)
      | some f =>
        obtain ⟨d,old,rest,htext,hlength,hsw⟩ := hswap b _ f hm
        rw [List.cons_append,List.cons.injEq] at htext
        obtain ⟨rfl,rfl⟩ := htext
        simp only [hlength,Nat.add_sub_cancel]
        rw [scan_skip]
        have hlast : old.getLast?.or (some c) = (c :: old).getLast? := by
          cases old with
          | nil => rfl
          | cons e old => rw [List.getLast?_cons_cons,List.getLast?_cons]; rfl
        rw [hlast]
        have hshort : rest.length < n := by
          rw [← hn,List.length_cons,List.length_append]
          omega
        exact .swap hsw (ih rest.length hshort _ _ rest rfl)

variable {front text : List Char}

theorem found_append (h : found p (front.getLast?.or b) text = true) : found p b (front ++ text) = true := by
  induction front generalizing b with
  | nil => exact h
  | cons c front ih =>
    refine Bool.or_eq_true_iff.mpr (.inr (ih ?_))
    cases front with
    | nil => exact h
    | cons d front =>
      rw [List.getLast?_cons_cons,List.getLast?_cons] at h
      rw [List.getLast?_cons]
      exact h

theorem found_of_append (hnone : ∀ x y, front = x ++ y → y ≠ [] → ∀ before, p before (y ++ text) = false)
    (h : found p b (front ++ text) = true) : found p (front.getLast?.or b) text = true := by
  induction front generalizing b with
  | nil => exact h
  | cons c front ih =>
    rcases Bool.or_eq_true_iff.mp h with hp | hfound
    · exact absurd hp (by simp [show p b (c :: (front ++ text)) = false from hnone [] (c :: front) rfl (by simp) b])
    · have hrest := ih (fun x y hsplit => hnone (c :: x) y (by rw [hsplit]; rfl)) hfound
      cases front with
      | nil => exact hrest
      | cons d front =>
        rw [List.getLast?_cons] at hrest
        rw [List.getLast?_cons_cons,List.getLast?_cons]
        exact hrest

/-- What is found after replacing was found before: no match begins in what is put in, and a match at a kept character
goes back to one of the other pattern. `same` relates the characters before the two positions. -/
theorem found_of_aligned {q : Pattern} {same : Option Char → Option Char → Prop} (hsome : ∀ c, same (some c) (some c))
    (hswapped : ∀ b old new, swap b old new → old ≠ [] ∧ new ≠ [] ∧ same old.getLast? new.getLast? ∧
      ∀ x y, new = x ++ y → y ≠ [] → ∀ before text, p before (y ++ text) = false)
    (hkept : ∀ b b' c i o, same b b' → kept b (c :: i) → Aligned swap kept (some c) (some c) i o → p b' (c :: o) = true →
      q b (c :: i) = true)
    (h : Aligned swap kept b b' i o) (hsame : same b b') (hfound : found p b' o = true) : found q b i = true := by
  induction h with
  | nil => exact absurd hfound Bool.false_ne_true
  | keep hk hrest ih =>
    rcases Bool.or_eq_true_iff.mp hfound with hp | hlater
    · exact Bool.or_eq_true_iff.mpr (.inl (hkept _ _ _ _ _ hsame hk hrest hp))
    · exact Bool.or_eq_true_iff.mpr (.inr (ih (hsome _) hlater))
  | swap hsw hrest ih =>
    obtain ⟨hold,hnew,hlast,hnone⟩ := hswapped _ _ _ hsw
    have hlater := found_of_append (fun x y hsplit hy before => hnone x y hsplit hy before _) hfound
    rw [Option.or_of_isSome (by simpa using hnew)] at hlater
    refine found_append ?_
    rw [Option.or_of_isSome (by simpa using hold)]
    exact ih hlast hlater

theorem found_nothing (b : Option Char) (text : List Char) : found (fun _ _ => false) b text = false := by
  induction text generalizing b with
  | nil => rfl
  | cons c text ih => exact ih (some c)

theorem Aligned.cases_cons {c : Char} (h : Aligned swap kept b b' i (c :: o)) :
    (∃ i', i = c :: i' ∧ Aligned swap kept (some c) (some c) i' o) ∨ ∃ old new i' o', i = old ++ i' ∧ c :: o
    = new ++ o' ∧ swap b old new ∧ Aligned swap kept old.getLast? new.getLast? i' o' := by
  obtain ⟨text,htext⟩ : ∃ text, text = c :: o := ⟨_,rfl⟩
  rw [← htext] at h
  cases h with
  | nil => cases htext
  | keep hk hrest =>
    obtain ⟨rfl,rfl⟩ := List.cons.inj htext
    exact .inl ⟨_,rfl,hrest⟩
  | @swap _ _ old new i' o' hsw hrest => exact .inr ⟨old,new,i',o',rfl,htext.symm,hsw,hrest⟩

def finds (m : Matcher) : Pattern := fun before text => (m before text).isSome

theorem found_finds (m : Matcher) (before : Option Char) (text : List Char) : found (finds m) before text = occurs m before text := by
  induction text generalizing before with
  | nil => rfl
  | cons c text ih =>
    rw [found,occurs,ih]
    rfl

end

end Verdict.Substitute

/-! ## Matching a pattern by backtracking

`re` tries the ways to match a pattern one after another; the first that lets the rest of the
pattern match is taken. A pattern is read here as the list of its ends, in that order. What a
group covers is the text between the ends of two parts.
-/
namespace Verdict.Regex

structure Place where
  before : Option Char
  rest : List Char

inductive Pattern
  | empty
  | one (fits : Char → Bool)
  | between (fits : Option Char → Option Char → Bool)
  | seq (p q : Pattern)
  | alt (p q : Pattern)
  | most (p : Pattern)
  | fewest (p : Pattern)
  | notAhead (p : Pattern)

def most (step : Place → List Place) : ℕ → Place → List Place
  | 0,pl => [pl]
  | n + 1,pl => (step pl).flatMap (fun q => if q.rest.length < pl.rest.length then most step n q else []) ++ [pl]

def fewest (step : Place → List Place) : ℕ → Place → List Place
  | 0,pl => [pl]
  | n + 1,pl => pl :: (step pl).flatMap fun q => if q.rest.length < pl.rest.length then fewest step n q else []

def ends : Pattern → Place → List Place
  | .empty,pl => [pl]
  | .one fits,⟨_,c :: cs⟩ => if fits c then [⟨some c,cs⟩] else []
  | .one _,⟨_,[]⟩ => []
  | .between fits,pl => if fits pl.before pl.rest.head? then [pl] else []
  | .seq p q,pl => (ends p pl).flatMap (ends q)
  | .alt p q,pl => ends p pl ++ ends q pl
  | .most p,pl => most (ends p) pl.rest.length pl
  | .fewest p,pl => fewest (ends p) pl.rest.length pl
  | .notAhead p,pl => if (ends p pl).isEmpty then [pl] else []

/-! ### Patterns built from others -/

def word (same : Char → Char → Bool) : List Char → Pattern
  | [] => .empty
  | c :: cs => .seq (.one (same c)) (word same cs)

def some₁ (p : Pattern) : Pattern := .seq p (.most p)

def maybe (p : Pattern) : Pattern := .alt p .empty

def oneOf : List Pattern → Pattern
  | [] => .between fun _ _ => false
  | [p] => p
  | p :: ps => .alt p (oneOf ps)

def seqs : List Pattern → Pattern
  | [] => .empty
  | [p] => p
  | p :: ps => .seq p (seqs ps)

def border (isWord : Char → Bool) : Pattern := .between fun before after => before.any isWord != after.any isWord

/-! ### Groups -/

def covered (start stop : Place) : List Char := start.rest.take (start.rest.length - stop.rest.length)

def runs : List Pattern → Place → List (List (List Char) × Place)
  | [],pl => [([],pl)]
  | p :: ps,pl => (ends p pl).flatMap fun q => (runs ps q).map fun run => (covered pl q :: run.1,run.2)

variable (parts : List Pattern)

/-- `re.match(...)` at a place. -/
def matchAt (pl : Place) : Option (List (List Char) × Place) := (runs parts pl).head?

def Place.next : Place → Place
  | ⟨_,c :: cs⟩ => ⟨some c,cs⟩
  | pl => pl

def searchFrom (parts : List Pattern) : ℕ → Place → Option (List (List Char) × Place)
  | 0,pl => matchAt parts pl
  | n + 1,pl => (matchAt parts pl).orElse fun _ => searchFrom parts n pl.next

/-- `re.search(...)`: what the parts of the leftmost match cover. -/
def search (text : List Char) : Option (List (List Char)) :=
  (searchFrom parts text.length ⟨none,text⟩).map (·.1)

def occurs (p : Pattern) (text : List Char) : Bool := (search [p] text).isSome

def findFrom (parts : List Pattern) : ℕ → Place → List (List (List Char))
  | 0,_ => []
  | n + 1,pl => match searchFrom parts pl.rest.length pl with
    | none => []
    | some (groups,q) => groups :: if q.rest = [] then [] else findFrom parts n q

/-- `re.findall(...)` for a pattern that never matches nothing. -/
def findall (text : List Char) : List (List (List Char)) := findFrom parts text.length ⟨none,text⟩

/-- A pattern as what `re.sub` replaces by a fixed text. -/
def asMatcher (p : Pattern) (out : List Char) : Substitute.Matcher := fun before text =>
  (ends p ⟨before,text⟩).head?.map fun stop => ⟨out,text.length - stop.rest.length⟩

end Verdict.Regex

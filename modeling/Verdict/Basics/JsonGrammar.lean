import Mathlib.Algebra.BigOperators.Group.List.Basic
import Mathlib.Data.List.Infix
import Verdict.Basics.JsonNumeral

/-! # Counting brackets

A text is read from an opening bracket to the first place where as many have been closed as
opened. That place is the end of the text exactly when the count stays above zero inside it and
comes down to zero at its end.
-/
namespace Verdict.Brackets

section
variable {α : Type} [DecidableEq α] (opening closing : α)

def weight (a : α) : ℤ := if a = opening then 1 else if a = closing then -1 else 0

def depth (t : List α) : ℤ := (t.map (weight opening closing)).sum

def upToClose : ℤ → List α → Option (List α)
  | _, [] => none
  | d, a :: t =>
    if a = opening then (upToClose (d + 1) t).map (a :: ·)
    else if a = closing then
      if d - 1 = 0 then some [a] else (upToClose (d - 1) t).map (a :: ·)
    else (upToClose d t).map (a :: ·)

def ClosesFrom : ℤ → List α → Prop
  | d, [] => d = 0
  | d, a :: t => 0 < d ∧ ClosesFrom (d + weight opening closing a) t

def Balanced (t : List α) : Prop :=
  depth opening closing t = 0 ∧ ∀ p, p <+: t → p ≠ [] → p ≠ t → 0 < depth opening closing p

/-- No bracket of the text is closed before it is opened, and all are closed at its end. -/
def Level (t : List α) : Prop := depth opening closing t = 0 ∧ ∀ p, p <+: t → 0 ≤ depth opening closing p

end

variable {α : Type} [DecidableEq α] {opening closing a : α} {s t : List α} {d : ℤ}

theorem depth_cons (a : α) (t : List α) : depth opening closing (a :: t) = weight opening closing a + depth opening closing t := by
  rw [depth,List.map_cons,List.sum_cons,depth]

theorem depth_append (s t : List α) : depth opening closing (s ++ t) = depth opening closing s + depth opening closing t := by
  rw [depth,List.map_append,List.sum_append,depth,depth]

theorem closesFrom_iff : ClosesFrom opening closing d t ↔
    d + depth opening closing t = 0 ∧ ∀ p, p <+: t → p ≠ t → 0 < d + depth opening closing p := by
  induction t generalizing d with
  | nil =>
    simp only [ClosesFrom,depth,List.map_nil,List.sum_nil,add_zero,List.prefix_nil]
    exact ⟨fun h => ⟨h,fun p hp hne => absurd hp hne⟩,And.left⟩
  | cons a t ih =>
    rw [ClosesFrom,ih,depth_cons,← add_assoc]
    constructor
    · rintro ⟨hd,hend,hinside⟩
      refine ⟨hend,fun p hp hne => ?_⟩
      rcases List.prefix_cons_iff.mp hp with rfl | ⟨q,rfl,hq⟩
      · simpa [depth] using hd
      · rw [depth_cons,← add_assoc]
        exact hinside q hq fun heq => hne (heq ▸ rfl)
    · rintro ⟨hend,hinside⟩
      refine ⟨by simpa [depth] using hinside [] List.nil_prefix (List.cons_ne_nil a t).symm,hend,fun q hq hne => ?_⟩
      have hcons := hinside (a :: q) (List.cons_prefix_cons.mpr ⟨rfl,hq⟩) fun heq => hne (List.cons.inj heq).2
      rwa [depth_cons,← add_assoc] at hcons

theorem upToClose_append_iff (hd : 0 < d) (rest : List α) :
    upToClose opening closing d (t ++ rest) = some t ↔ ClosesFrom opening closing d t := by
  induction t generalizing d with
  | nil =>
    refine iff_of_false (fun h => ?_) (by simpa [ClosesFrom] using hd.ne')
    cases rest with
    | nil => cases h
    | cons a rest =>
      rw [List.nil_append,upToClose] at h
      split at h
      · simp at h
      · split at h
        · split at h <;> simp at h
        · simp at h
  | cons a t ih =>
    have hcons : ∀ e, (Option.map (a :: ·) (upToClose opening closing e (t ++ rest)) = some (a :: t)) ↔
        upToClose opening closing e (t ++ rest) = some t := fun e => by simp
    rw [List.cons_append,upToClose,ClosesFrom,and_iff_right hd,weight]
    split
    · rw [hcons,ih (by omega)]
    · split
      · split
        · next hone =>
          have hzero : d + -1 = 0 := hone
          rw [hzero]
          cases t with
          | nil => simp [ClosesFrom]
          | cons b t => simp [ClosesFrom]
        · next hmore => rw [hcons,ih (by omega),sub_eq_add_neg]
      · rw [hcons,ih hd,add_zero]

theorem upToClose_prefix {r : List α} (h : upToClose opening closing d t = some r) : r <+: t := by
  induction t generalizing d r with
  | nil => cases h
  | cons a t ih =>
    have hcons : ∀ e, Option.map (a :: ·) (upToClose opening closing e t) = some r → r <+: a :: t := by
      intro e he
      obtain ⟨q,hq,rfl⟩ := Option.map_eq_some_iff.mp he
      exact List.cons_prefix_cons.mpr ⟨rfl,ih hq⟩
    rw [upToClose] at h
    split at h
    · exact hcons _ h
    · split at h
      · split at h
        · cases h
          exact List.cons_prefix_cons.mpr ⟨rfl,List.nil_prefix⟩
        · exact hcons _ h
      · exact hcons _ h

theorem balanced_cons_iff : Balanced opening closing (opening :: t) ↔ ClosesFrom opening closing 1 t := by
  rw [closesFrom_iff,Balanced,depth_cons,weight,if_pos rfl]
  refine and_congr_right fun _ => ?_
  constructor
  · intro h p hp hne
    have hcons := h (opening :: p) (List.cons_prefix_cons.mpr ⟨rfl,hp⟩) (List.cons_ne_nil _ _) fun heq => hne (List.cons.inj heq).2
    rwa [depth_cons,weight,if_pos rfl] at hcons
  · intro h p hp hnil hne
    rcases List.prefix_cons_iff.mp hp with rfl | ⟨q,rfl,hq⟩
    · exact absurd rfl hnil
    · rw [depth_cons,weight,if_pos rfl]
      exact h q hq fun heq => hne (heq ▸ rfl)

/-! ### Level texts -/

theorem level_nil : Level opening closing ([] : List α) := by
  refine ⟨rfl,fun p hp => ?_⟩
  rw [List.prefix_nil.mp hp]
  exact le_refl 0

theorem Level.append (hs : Level opening closing s) (ht : Level opening closing t) : Level opening closing (s ++ t) := by
  refine ⟨by rw [depth_append,hs.1,ht.1,add_zero],fun p hp => ?_⟩
  rcases List.prefix_or_prefix_of_prefix hp (List.prefix_append s t) with hp | ⟨q,rfl⟩
  · exact hs.2 p hp
  · rw [depth_append,hs.1,zero_add]
    exact ht.2 q ((List.prefix_append_right_inj s).mp hp)

theorem level_of_not_mem (ho : opening ∉ t) (hc : closing ∉ t) : Level opening closing t := by
  have hzero : ∀ p, p ⊆ t → depth opening closing p = 0 := by
    intro p hp
    refine List.sum_eq_zero fun w hw => ?_
    obtain ⟨a,ha,rfl⟩ := List.mem_map.mp hw
    have hopen : a ≠ opening := fun heq => ho (heq ▸ hp ha)
    have hclose : a ≠ closing := fun heq => hc (heq ▸ hp ha)
    rw [weight,if_neg hopen,if_neg hclose]
  exact ⟨hzero t (List.Subset.refl t),fun p hp => (hzero p hp.subset).ge⟩

theorem Level.balanced (hne : opening ≠ closing) (h : Level opening closing t) :
    Balanced opening closing (opening :: (t ++ [closing])) := by
  rw [balanced_cons_iff,closesFrom_iff]
  have hlast : depth opening closing [closing] = -1 := by simp [depth,weight,hne.symm]
  refine ⟨by rw [depth_append,h.1,hlast]; rfl,fun p hp hproper => ?_⟩
  rcases List.prefix_concat_iff.mp hp with rfl | hp
  · exact absurd rfl hproper
  · have hnonneg := h.2 p hp
    omega

theorem Balanced.level (h : Balanced opening closing t) : Level opening closing t := by
  refine ⟨h.1,fun p hp => ?_⟩
  by_cases hnil : p = []
  · rw [hnil]
    exact le_refl 0
  by_cases hall : p = t
  · rw [hall,h.1]
  · exact (h.2 p hp hnil hall).le

end Verdict.Brackets

/-! ## The texts of JSON values

The grammar of JSON over texts. What the strings hold can be restricted, so that a property of
the strings of a text becomes one of the text by induction on its derivation.
-/
namespace Verdict.JsonGrammar
open JsonNumeral

abbrev Text := List Char

def isBlank (c : Char) : Bool := c = ' ' || c = '\t' || c = '\n' || c = '\r'

def isHex (c : Char) : Bool := c.isDigit || ('a' ≤ c && c ≤ 'f') || ('A' ≤ c && c ≤ 'F')

/-- What stands between the quotes of a string. -/
inductive Body : Text → Prop
  | nil : Body []
  | plain {c : Char} {t : Text} : c ≠ '"' → c ≠ '\\' → 0x20 ≤ c.toNat → Body t → Body (c :: t)
  | escape {c : Char} {t : Text} : c ∈ ['"','\\','/','b','f','n','r','t'] → Body t → Body ('\\' :: c :: t)
  | unicode {a b c d : Char} {t : Text} : [a,b,c,d].all isHex = true → Body t → Body ('\\' :: 'u' :: a :: b :: c :: d :: t)

inductive Kind
  | value
  | items
  | members

def quoted (body : Text) : Text := '"' :: (body ++ ['"'])

def Blank (t : Text) : Prop := t.all isBlank = true

def openBrace : Char := '\x7b'
def closeBrace : Char := '\x7d'

/-- The texts of a kind whose strings hold bodies with the property. -/
inductive Reads (P : Text → Prop) : Kind → Text → Prop
  | string {b : Text} : Body b → P b → Reads P .value (quoted b)
  | number {n : Numeral} : n.Valid → Reads P .value n.text
  | word {w : Text} : w ∈ ["true".toList,"false".toList,"null".toList] → Reads P .value w
  | emptyArray {w : Text} : Blank w → Reads P .value ('[' :: (w ++ [']']))
  | array {t : Text} : Reads P .items t → Reads P .value ('[' :: (t ++ [']']))
  | emptyObject {w : Text} : Blank w → Reads P .value (openBrace :: (w ++ [closeBrace]))
  | object {t : Text} : Reads P .members t → Reads P .value (openBrace :: (t ++ [closeBrace]))
  | item {w v w' : Text} : Blank w → Reads P .value v → Blank w' → Reads P .items (w ++ (v ++ w'))
  | itemsCons {w v w' t : Text} : Blank w → Reads P .value v → Blank w' → Reads P .items t → Reads P .items (w ++ (v ++ (w' ++ ',' :: t)))
  | member {w b w' u v u' : Text} : Blank w → Body b → P b → Blank w' → Blank u → Reads P .value v → Blank u' →
      Reads P .members (w ++ (quoted b ++ (w' ++ ':' :: (u ++ (v ++ u')))))
  | membersCons {w b w' u v u' t : Text} : Blank w → Body b → P b → Blank w' → Blank u → Reads P .value v → Blank u' →
      Reads P .members t → Reads P .members (w ++ (quoted b ++ (w' ++ ':' :: (u ++ (v ++ (u' ++ ',' :: t))))))

def Object (t : Text) : Prop := Reads (fun _ => True) .value t ∧ t.head? = some openBrace

/-! ### Numerals and blanks -/

variable {n : Numeral} {c : Char}

theorem mem_numeral (h : n.Valid) (hc : c ∈ n.text) : c.isDigit = true ∨ c ∈ ['-','+','.','e','E'] := by
  obtain ⟨⟨⟨-,hwhole⟩,-⟩,hfraction,hexponent⟩ := h
  simp only [Numeral.text,Numeral.signText,Numeral.fractionText,Numeral.exponentText,List.mem_append] at hc
  rcases hc with hc | hc | hc | hc
  · split at hc
    · exact .inr (by simp_all)
    · exact absurd hc List.not_mem_nil
  · exact .inl (hwhole c hc)
  · cases hf : n.fraction with
    | none => simp [hf] at hc
    | some ds =>
      rw [hf] at hc
      rcases List.mem_cons.mp hc with rfl | hc
      · exact .inr (by decide)
      · exact .inl ((hfraction ds hf).2 c hc)
  · cases he : n.exponent with
    | none => simp [he] at hc
    | some e =>
      obtain ⟨mark,sign,ds⟩ := e
      obtain ⟨hmark,hsign,-,hdigits⟩ := hexponent _ he
      rw [he] at hc
      rcases List.mem_cons.mp hc with rfl | hc
      · rcases hmark with hmark | hmark <;> exact .inr (by simp_all)
      · rcases List.mem_append.mp hc with hc | hc
        · rcases hsign c (by simpa using hc) with rfl | rfl <;> exact .inr (by decide)
        · exact .inl (hdigits c hc)

theorem not_mem_numeral (h : n.Valid) (hdigit : c.isDigit = false) (hmark : c ∉ ['-','+','.','e','E']) :
    c ∉ n.text := fun hc => (mem_numeral h hc).elim (fun hd => by rw [hdigit] at hd; cases hd) hmark

theorem not_mem_blank {w : Text} (h : Blank w) (hc : isBlank c = false) : c ∉ w := fun hmem => by
  rw [List.all_eq_true.mp h c hmem] at hc
  cases hc

theorem Reads.braced {P : Text → Prop} {t : Text} (h : Reads P .value t) (hhead : t.head? = some openBrace) :
    ∃ inner, t = openBrace :: (inner ++ [closeBrace]) ∧ (Blank inner ∨ Reads P .members inner) := by
  cases h with
  | string _ _ => exact absurd hhead (by simp [quoted]; decide)
  | number hn => exact absurd (List.mem_of_mem_head? hhead) (not_mem_numeral hn (by decide) (by decide))
  | word hw =>
    have hnone : ∀ w ∈ ["true".toList,"false".toList,"null".toList], w.head? ≠ some openBrace := by decide
    exact absurd hhead (hnone _ hw)
  | emptyArray _ => exact absurd hhead (by simp; decide)
  | array _ => exact absurd hhead (by simp; decide)
  | emptyObject hw => exact ⟨_,rfl,.inl hw⟩
  | object ht => exact ⟨_,rfl,.inr ht⟩

/-! ### Braces -/

section
open Brackets

abbrev LevelBraces (t : Text) : Prop := Level openBrace closeBrace t

theorem level_blank {w : Text} (h : Blank w) : LevelBraces w := level_of_not_mem (not_mem_blank h (by decide)) (not_mem_blank h (by decide))

theorem level_char {c : Char} (ho : c ≠ openBrace) (hc : c ≠ closeBrace) {t : Text} (h : LevelBraces t) : LevelBraces (c :: t) :=
  (level_of_not_mem (by simpa using ho.symm) (by simpa using hc.symm) : LevelBraces [c]).append h

theorem level_bracketed {a b : Char} (ha : a ≠ openBrace ∧ a ≠ closeBrace) (hb : b ≠ openBrace ∧ b ≠ closeBrace) {t : Text}
    (h : LevelBraces t) : LevelBraces (a :: (t ++ [b])) := level_char ha.1 ha.2 (h.append (level_char hb.1 hb.2 level_nil))

theorem Reads.level {k : Kind} {t : Text} (h : Reads LevelBraces k t) : LevelBraces t := by
  induction h with
  | string _ hp => exact level_bracketed (by decide) (by decide) hp
  | number hn => exact level_of_not_mem (not_mem_numeral hn (by decide) (by decide)) (not_mem_numeral hn (by decide) (by decide))
  | word hw =>
    have hnone : ∀ w ∈ ["true".toList,"false".toList,"null".toList], openBrace ∉ w ∧ closeBrace ∉ w := by decide
    exact level_of_not_mem (hnone _ hw).1 (hnone _ hw).2
  | emptyArray hw => exact level_bracketed (by decide) (by decide) (level_blank hw)
  | array _ ih => exact level_bracketed (by decide) (by decide) ih
  | emptyObject hw => exact ((level_blank hw).balanced (by decide)).level
  | object _ ih => exact (ih.balanced (by decide)).level
  | item hw _ hw' ih => exact (level_blank hw).append (ih.append (level_blank hw'))
  | itemsCons hw _ hw' _ ih iht => exact (level_blank hw).append (ih.append ((level_blank hw').append (level_char (c := ',') (by decide) (by decide) iht)))
  | member hw _ hp hw' hu _ hu' ih =>
    have hvalue := (level_blank hu).append (ih.append (level_blank hu'))
    exact (level_blank hw).append ((level_bracketed (by decide) (by decide) hp).append
      ((level_blank hw').append (level_char (by decide) (by decide) hvalue)))
  | membersCons hw _ hp hw' hu _ hu' _ ih iht =>
    have hvalue := (level_blank hu).append (ih.append ((level_blank hu').append (level_char (c := ',') (by decide) (by decide) iht)))
    exact (level_blank hw).append ((level_bracketed (by decide) (by decide) hp).append
      ((level_blank hw').append (level_char (by decide) (by decide) hvalue)))

theorem balanced_of_level {t : Text} (h : Reads LevelBraces .value t) (hhead : t.head? = some openBrace) :
    Balanced openBrace closeBrace t := by
  obtain ⟨inner,rfl,hinner⟩ := h.braced hhead
  refine Level.balanced (by decide) ?_
  rcases hinner with hblank | hmembers
  · exact level_blank hblank
  · exact hmembers.level

end
end Verdict.JsonGrammar

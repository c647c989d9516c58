import Verdict.Context.Patterns

/-! # What sanitising swaps

A pass of `sanitize_injection_patterns` swaps a control structure for its quoted form and keeps the
rest. Nothing that it puts in begins or completes a literal, so one that is read behind the pass
was there before it.
-/
namespace Verdict.Context
open Memory (foldCase word?)
open Path (isSpace)
open Substitute
open scoped Members
open List (all_eq_true cons_append getLast?_cons mem_cons mem_map not_mem_nil)

/-! ### What sanitising puts in -/

def tags : List (Text × Text) :=
  [("<system>".toList,"&lt;system&gt;".toList),("</system>".toList,"&lt;/system&gt;".toList),
   ("[INST]".toList,"\\[INST\\]".toList),("[/INST]".toList,"\\[/INST\\]".toList)]

def roleNames : List String := ["System","User","Assistant"]

def quoted (name : String) : Text := (name ++ " (quoted): ").toList

def replacements : List Text := tags.map Prod.snd ++ roleNames.map quoted

/-- What a pass takes out at a position, and what it puts in. -/
inductive Swap (W : WordClass) : Option Char → Text → Text → Prop
  | tag {before : Option Char} {old new : Text} : (old,new) ∈ tags → Swap W before old new
  | role {before : Option Char} {name : String} {word spaces : Text} : name ∈ roleNames → before.any W.isWord = false →
      word.map foldCase = name.toList.map Char.toLower → spaces.all isSpace = true →
      Swap W before (word ++ ':' :: spaces) (quoted name)

section
variable {same : Char → Char} {ws cs w rest : Text}

theorem word?_eq_some : word? same ws cs = some (w,rest) ↔ cs = w ++ rest ∧ w.map same = ws := by
  induction ws generalizing cs w with
  | nil =>
    rw [word?,Option.some.injEq,Prod.mk.injEq,List.map_eq_nil_iff]
    constructor
    · rintro ⟨rfl,rfl⟩
      exact ⟨rfl,rfl⟩
    · rintro ⟨rfl,rfl⟩
      exact ⟨rfl,rfl⟩
  | cons l ws ih =>
    cases cs with
    | nil =>
      rw [word?]
      refine iff_of_false (by simp) fun h => ?_
      obtain ⟨rfl,rfl⟩ := List.nil_eq_append_iff.mp h.1
      exact absurd h.2 (by simp)
    | cons c cs =>
      rw [word?]
      split
      · next hc =>
        simp only [Option.map_eq_some_iff,Prod.mk.injEq,Prod.exists]
        constructor
        · rintro ⟨w',rest',hword,rfl,rfl⟩
          obtain ⟨rfl,hmap⟩ := ih.mp hword
          exact ⟨rfl,by rw [List.map_cons,hc,hmap]⟩
        · rintro ⟨htext,hmap⟩
          cases w with
          | nil => cases hmap
          | cons d w =>
            obtain ⟨rfl,rfl⟩ := List.cons.inj htext
            exact ⟨w,rest,ih.mpr ⟨rfl,(List.cons.inj hmap).2⟩,rfl,rfl⟩
      · next hc =>
        refine iff_of_false (by simp) fun h => ?_
        cases w with
        | nil => cases h.2
        | cons d w =>
          obtain ⟨rfl,-⟩ := List.cons.inj h.1
          exact hc (List.cons.inj h.2).1

def clash (same : Char → Char) : Text → Text → Bool
  | l :: ls, c :: cs => same c != l || clash same ls cs
  | _, _ => false

theorem word?_of_clash (h : clash same ws cs = true) (more : Text) : word? same ws (cs ++ more) = none := by
  induction ws generalizing cs with
  | nil => cases cs <;> cases h
  | cons l ws ih =>
    cases cs with
    | nil => cases h
    | cons c cs =>
      rw [cons_append,word?]
      split
      · next hc =>
        rw [clash,hc] at h
        rw [ih (by simpa using h)]
        rfl
      · rfl

end

theorem isAlphanum_toLower {c : Char} (h : c.val ≥ 'A'.val ∧ c.val ≤ 'Z'.val) : c.toLower.isAlphanum = true := by
  have hlow : (65 : ℕ) ≤ c.val.toNat := UInt32.le_iff_toNat_le.mp h.1
  have hhigh : c.val.toNat ≤ 90 := UInt32.le_iff_toNat_le.mp h.2
  have hval : c.toLower.val.toNat = c.val.toNat + 32 := by
    have hlower : c.toLower.val = c.val + 32 := congrArg Char.val (dif_pos h)
    rw [hlower]
    rw [UInt32.toNat_add]
    change (c.val.toNat + 32) % 4294967296 = _
    omega
  have hlower : c.toLower.isLower = true := by
    have hbounds : 'a'.val ≤ c.toLower.val ∧ c.toLower.val ≤ 'z'.val := by
      constructor
      · refine UInt32.le_iff_toNat_le.mpr ?_
        rw [hval]
        change 97 ≤ _
        omega
      · refine UInt32.le_iff_toNat_le.mpr ?_
        rw [hval]
        change _ ≤ 122
        omega
    rw [isLower_eq]
    simpa using hbounds
  rw [Char.isAlphanum,isAlpha_eq,hlower,Bool.or_true,Bool.true_or]

variable {l : Char}

theorem eq_of_foldCase {c : Char} (h : foldCase c = l) (hl : l.isAlphanum = false) : c = l := by
  unfold foldCase at h
  split at h
  · exact absurd (h ▸ hl) (by decide)
  split at h
  · exact absurd (h ▸ hl) (by decide)
  split at h
  · exact absurd (h ▸ hl) (by decide)
  by_cases hupper : c.val ≥ 'A'.val ∧ c.val ≤ 'Z'.val
  · rw [← h,isAlphanum_toLower hupper] at hl
    cases hl
  · rwa [toLower_of_not_upper hupper] at h

theorem isAlphanum_foldCase {c : Char} (h : c.isAlphanum = true) : (foldCase c).isAlphanum = true := by
  by_contra hne
  have hsame := eq_of_foldCase (c := c) rfl (Bool.eq_false_iff.mpr hne)
  exact hne (hsame ▸ h)

variable {W : WordClass}
variable {old new text : Text} {before : Option Char} {f : Match}

theorem literal_match (h : literal old new before text = some f) :
    ∃ rest, text = old ++ rest ∧ f = ⟨new,old.length⟩ := by
  unfold literal at h
  split at h
  · next hpre =>
    obtain ⟨rest,hrest⟩ := hpre
    exact ⟨rest,hrest.symm,(Option.some.inj h).symm⟩
  · cases h

variable {name : String}

theorem role_match (h : role W name before text = some f) :
    before.any W.isWord = false ∧ ∃ word spaces rest, text = word ++ ':' :: spaces ++ rest ∧
      word.map foldCase = name.toList.map Char.toLower ∧ spaces.all isSpace = true ∧
      f = ⟨quoted name,(word ++ ':' :: spaces).length⟩ := by
  unfold role at h
  split at h
  · cases h
  · next hbefore =>
    split at h
    · cases h
    · next word rest hword =>
      obtain ⟨rfl,hmap⟩ := word?_eq_some.mp hword
      rw [String.toList_append,List.map_append] at hmap
      obtain ⟨letters,colon,rfl,hletters,hcolon⟩ := List.map_eq_append_iff.mp hmap
      obtain ⟨d,rfl,hd⟩ := List.map_eq_singleton_iff.mp (hcolon.trans (by decide : ":".toList.map Char.toLower = [':']))
      obtain rfl := eq_of_foldCase hd (by decide)
      refine ⟨Bool.eq_false_iff.mpr hbefore,letters,rest.takeWhile isSpace,rest.dropWhile isSpace,?_,hletters,List.all_takeWhile,?_⟩
      · rw [List.append_assoc,List.append_assoc,cons_append,cons_append,List.takeWhile_append_dropWhile,List.nil_append]
      · rw [← Option.some.inj h]
        simp only [quoted,List.length_append,List.length_cons,List.length_nil,Match.mk.injEq,true_and]
        omega

theorem tags_nonempty (h : (old,new) ∈ tags) : old ≠ [] := by
  have hall : ∀ e ∈ tags, e.1 ≠ [] := by decide
  exact hall _ h

theorem nonempty_of_role (hname : name ∈ roleNames) {word : Text}
    (hword : word.map foldCase = name.toList.map Char.toLower) : ∃ c rest, word = c :: rest := by
  refine List.exists_cons_of_ne_nil fun hnil => ?_
  rw [hnil] at hword
  revert hword
  simp only [roleNames,mem_cons,not_mem_nil,or_false] at hname
  rcases hname with rfl | rfl | rfl <;> decide

theorem swap_of_control {m : Matcher} (hm : m ∈ controls W) (h : m before text = some f) : ∃ c old rest,
    text = c :: old ++ rest ∧ f.length = old.length + 1 ∧ Swap W before (c :: old) f.out := by
  have htag : ∀ {old new}, (old,new) ∈ tags → m = literal old new →
      ∃ c old rest, text = c :: old ++ rest ∧ f.length = old.length + 1 ∧ Swap W before (c :: old) f.out := by
    rintro old new hmem rfl
    obtain ⟨rest,rfl,rfl⟩ := literal_match h
    obtain ⟨c,old,rfl⟩ := List.exists_cons_of_ne_nil (tags_nonempty hmem)
    exact ⟨c,old,rest,rfl,rfl,.tag hmem⟩
  have hrole : ∀ {name}, name ∈ roleNames → m = role W name →
      ∃ c old rest, text = c :: old ++ rest ∧ f.length = old.length + 1 ∧ Swap W before (c :: old) f.out := by
    rintro name hname rfl
    obtain ⟨hbefore,word,spaces,rest,rfl,hword,hspaces,rfl⟩ := role_match h
    obtain ⟨c,word,rfl⟩ := nonempty_of_role hname hword
    exact ⟨c,word ++ ':' :: spaces,rest,rfl,rfl,.role hname hbefore hword hspaces⟩
  simp only [controls,mem_cons,not_mem_nil,or_false] at hm
  rcases hm with h | h | h | h | h | h | h
  · exact htag (by decide) h
  · exact htag (by decide) h
  · exact htag (by decide) h
  · exact htag (by decide) h
  · exact hrole (by decide) h
  · exact hrole (by decide) h
  · exact hrole (by decide) h

/-! ### Literals beside a swap -/

def absent (same : Char → Char) (ws : Text) : Bool := replacements.all fun new => new.tails.all fun y => y = [] || clash same ws y

def solid (same : Char → Char) : Bool → Text → Bool
  | _, [] => true
  | behindWord, l :: ls => tags.all (fun e => clash same (l :: ls) e.2) &&
      (behindWord || roleNames.all fun name => clash same (l :: ls) (quoted name)) && solid same l.isAlphanum ls

theorem new_mem_replacements {b : Option Char} (h : Swap W b old new) : new ∈ replacements := by
  cases h with
  | tag hmem => exact List.mem_append_left _ (mem_map.mpr ⟨_,hmem,rfl⟩)
  | role hname => exact List.mem_append_right _ (mem_map.mpr ⟨_,hname,rfl⟩)

theorem word?_of_absent {same : Char → Char} {ws : Text} (h : absent same ws = true) {b : Option Char} {x y : Text}
    (hswap : Swap W b old new) (hsplit : new = x ++ y) (hy : y ≠ []) (more : Text) : word? same ws (y ++ more) = none := by
  have hnew := all_eq_true.mp h new (new_mem_replacements hswap)
  have htail := all_eq_true.mp hnew y ((List.mem_tails ..).mpr ⟨x,hsplit.symm⟩)
  rw [Bool.or_eq_true_iff,decide_eq_true_eq] at htail
  exact word?_of_clash (htail.resolve_left hy) more

theorem notWord_of_ascii {c : Char} (h : decide (c.toNat < 128) && !c.isAlphanum && decide (c ≠ '_')) : W.isWord c = false := by
  simp only [Bool.and_eq_true,decide_eq_true_eq,Bool.not_eq_true'] at h
  exact W.ascii c h.1.1 h.1.2 h.2

theorem swap_ends {b : Option Char} (h : Swap W b old new) :
    old ≠ [] ∧ new ≠ [] ∧ old.getLast?.any W.isWord = false ∧ new.getLast?.any W.isWord = false := by
  cases h with
  | tag hmem =>
    have hall : ∀ e ∈ tags, e.1 ≠ [] ∧ e.2 ≠ [] ∧ (∃ c, e.1.getLast? = some c ∧ (c = '>' ∨ c = ']')) ∧
        ∃ c, e.2.getLast? = some c ∧ (c = ';' ∨ c = ']') := by
      simp [tags]
    obtain ⟨hold,hnew,⟨c,hc,hcase⟩,⟨d,hd,hdcase⟩⟩ := hall _ hmem
    rw [hc,hd]
    refine ⟨hold,hnew,?_,?_⟩
    · rcases hcase with rfl | rfl <;> exact notWord_of_ascii (by decide)
    · rcases hdcase with rfl | rfl <;> exact notWord_of_ascii (by decide)
  | @role name word spaces hname _ _ hspaces =>
    have hlast : (quoted name).getLast? = some ' ' := by
      simp only [roleNames,mem_cons,not_mem_nil,or_false] at hname
      rcases hname with rfl | rfl | rfl <;> decide
    refine ⟨by simp,fun hnil => by simp [hnil] at hlast,?_,?_⟩
    · rw [List.getLast?_append_of_ne_nil _ (by simp)]
      cases hs : spaces.getLast? with
      | none =>
        obtain rfl := List.getLast?_eq_none_iff.mp hs
        exact notWord_of_ascii (by decide)
      | some s =>
        rw [getLast?_cons,hs]
        exact W.blank s (all_eq_true.mp hspaces s (List.mem_of_getLast? hs))
    · rw [hlast]
      exact notWord_of_ascii (by decide)

/-! ### Reading on beside a swap -/

variable {kept : Option Char → Text → Prop} {b b' : Option Char} {i o : Text} {same : Char → Char} {c : Char}

/-- The letters of the patterns compare by `foldCase` or as they are. -/
def Compares (same : Char → Char) : Prop := same = foldCase ∨ same = id

theorem isWord_of_same (hsame : Compares same) (h : (same c).isAlphanum = true) : W.isWord c = true := by
  rcases hsame with rfl | rfl
  · exact W.folded c h
  · exact W.folded c (isAlphanum_foldCase h)

theorem word?_aligned (hsame : Compares same) {ws w rest : Text} {behindWord : Bool} (hsolid : solid same behindWord ws = true)
    (hb : behindWord = true → b.any W.isWord = true) (h : Aligned (Swap W) kept b b i o) (hword : word? same ws o = some (w,rest)) :
    ∃ i', word? same ws i = some (w,i') ∧ Aligned (Swap W) kept (w.getLast?.or b) (w.getLast?.or b) i' rest := by
  induction ws generalizing b i o w behindWord with
  | nil =>
    obtain ⟨rfl,hmap⟩ := word?_eq_some.mp hword
    obtain rfl := List.map_eq_nil_iff.mp hmap
    exact ⟨i,rfl,h⟩
  | cons l ws ih =>
    obtain ⟨rfl,hmap⟩ := word?_eq_some.mp hword
    obtain ⟨c,w,rfl,hc,hw⟩ := List.map_eq_cons_iff.mp hmap
    rw [solid,Bool.and_eq_true,Bool.and_eq_true] at hsolid
    obtain ⟨⟨htags,hroles⟩,hsolid⟩ := hsolid
    rcases h.cases_cons with ⟨i₁,rfl,hrest⟩ | ⟨old,new,i₁,o₁,rfl,hnew,hswap,-⟩
    · obtain ⟨i',hi',halign⟩ := ih hsolid (fun hl => isWord_of_same hsame (hc ▸ hl)) hrest (word?_eq_some.mpr ⟨rfl,hw⟩)
      obtain ⟨rfl,-⟩ := word?_eq_some.mp hi'
      refine ⟨i',word?_eq_some.mpr ⟨rfl,hmap⟩,?_⟩
      rw [getLast?_cons]
      cases w with
      | nil => exact halign
      | cons d w => exact halign
    · have htext : c :: w ++ rest = new ++ o₁ := hnew
      rw [htext] at hword
      have hnone : word? same (l :: ws) (new ++ o₁) = none := by
        cases hswap with
        | tag hmem => exact word?_of_clash (all_eq_true.mp htags _ hmem) o₁
        | role hname hbefore =>
          rcases Bool.or_eq_true_iff.mp hroles with hbehind | hroles
          · exact absurd (hb hbehind) (by simp [hbefore])
          · exact word?_of_clash (all_eq_true.mp hroles _ hname) o₁
      rw [hnone] at hword
      cases hword

theorem word?_kept (hsame : Compares same) {ws w rest : Text} (hsolid : solid same l.isAlphanum ws = true)
    (h : Aligned (Swap W) kept (some c) (some c) i o) (hword : word? same (l :: ws) (c :: o) = some (w,rest)) :
    ∃ i', word? same (l :: ws) (c :: i) = some (w,i') ∧ w ≠ [] ∧ Aligned (Swap W) kept w.getLast? w.getLast? i' rest := by
  obtain ⟨htext,hmap⟩ := word?_eq_some.mp hword
  obtain ⟨d,w,rfl,hd,hw⟩ := List.map_eq_cons_iff.mp hmap
  obtain ⟨rfl,rfl⟩ := List.cons.inj htext
  obtain ⟨i',hi',halign⟩ := word?_aligned hsame hsolid (fun hl => isWord_of_same hsame (hd ▸ hl)) h (word?_eq_some.mpr ⟨rfl,hw⟩)
  obtain ⟨rfl,-⟩ := word?_eq_some.mp hi'
  refine ⟨i',word?_eq_some.mpr ⟨rfl,hmap⟩,by simp,?_⟩
  rw [getLast?_cons]
  cases w with
  | nil => exact halign
  | cons e w => exact halign

theorem swap_heads (h : Swap W b old new) : ∃ x xs y ys, old = x :: xs ∧ new = y :: ys ∧ isSpace x = false ∧
    y ∈ ['&','\\','S','U','A'] := by
  cases h with
  | tag hmem =>
    have hall : ∀ e ∈ tags, ∃ x ∈ e.1.head?, ∃ y ∈ e.2.head?, isSpace x = false ∧ y ∈ ['&','\\','S','U','A'] := by decide
    obtain ⟨x,hx,y,hy,hspace,hhead⟩ := hall _ hmem
    obtain ⟨xs,rfl⟩ := List.head?_eq_some_iff.mp hx
    obtain ⟨ys,rfl⟩ := List.head?_eq_some_iff.mp hy
    exact ⟨x,xs,y,ys,rfl,rfl,hspace,hhead⟩
  | @role name word spaces hname _ hword _ =>
    have hletters : ∃ l ls, name.toList.map Char.toLower = l :: ls ∧ l.isAlphanum = true ∧
        ∃ y ys, quoted name = y :: ys ∧ y ∈ ['&','\\','S','U','A'] := by
      simp only [roleNames,mem_cons,not_mem_nil,or_false] at hname
      rcases hname with rfl | rfl | rfl <;> exact ⟨_,_,rfl,by decide,_,_,rfl,by decide⟩
    obtain ⟨l,ls,hname,hl,y,ys,hnew,hy⟩ := hletters
    rw [hname] at hword
    obtain ⟨x,xs,rfl,hx,-⟩ := List.map_eq_cons_iff.mp hword
    refine ⟨x,xs ++ ':' :: spaces,y,ys,rfl,hnew,?_,hy⟩
    refine Bool.eq_false_iff.mpr fun hspace => ?_
    have hnot := W.blank x hspace
    rw [W.folded x (hx ▸ hl)] at hnot
    cases hnot

theorem aligned_nil_left (h : Aligned (Swap W) kept b b' [] o) : o = [] := by
  obtain ⟨i,hi⟩ : ∃ i : Text, i = [] := ⟨[],rfl⟩
  rw [← hi] at h
  cases h with
  | nil => rfl
  | keep => cases hi
  | swap hswap => exact absurd (List.append_eq_nil_iff.mp hi).1 (swap_ends hswap).1

theorem dropSpaces_aligned (h : Aligned (Swap W) kept b b' i o) :
    ∃ d d', Aligned (Swap W) kept d d' (i.dropWhile isSpace) (o.dropWhile isSpace) := by
  induction h with
  | nil => exact ⟨_,_,.nil none none⟩
  | @keep b b' c i o hk hrest ih =>
    cases hc : isSpace c with
    | true =>
      rw [List.dropWhile_cons_of_pos hc,List.dropWhile_cons_of_pos hc]
      exact ih
    | false =>
      rw [List.dropWhile_cons_of_neg (by simp [hc]),List.dropWhile_cons_of_neg (by simp [hc])]
      exact ⟨b,b',.keep hk hrest⟩
  | @swap b b' old new i o hswap hrest ih =>
    have hall : ∀ y ∈ ['&','\\','S','U','A'], isSpace y = false := by decide
    obtain ⟨x,xs,y,ys,rfl,rfl,hx,hy⟩ := swap_heads hswap
    have hy := hall y hy
    rw [cons_append,cons_append,List.dropWhile_cons_of_neg (by simp [hx]),List.dropWhile_cons_of_neg (by simp [hy])]
    exact ⟨b,b',.swap hswap hrest⟩

theorem kept_cons (h : Aligned (Swap W) kept b b' i (c :: o)) (hc : c ∉ ['&','\\','S','U','A']) :
    ∃ i', i = c :: i' ∧ Aligned (Swap W) kept (some c) (some c) i' o := by
  rcases h.cases_cons with hkept | ⟨old,new,i',o',rfl,htext,hswap,-⟩
  · exact hkept
  · obtain ⟨x,xs,y,ys,rfl,rfl,-,hy⟩ := swap_heads hswap
    exact absurd ((List.cons.inj htext).1 ▸ hy) hc

end Verdict.Context

import Mathlib.Data.List.DropRight
import Verdict.Basics.UnifiedDiff
import Verdict.Patch.Plain

/-! # Hunks that are counted again

What `_recount_hunks` makes of a hunk: the header in its long form, over the lines up to one
that looks like a header, without the blank ones at the end. Whoever reads the diff finds the
same change in it, when no line of the hunk looks like a header and none speaks of a missing
line feed.
-/
namespace Verdict.Patch
open GitPatch Path UnifiedDiff
open JsonNumeral (takeWhile_digits dropWhile_digits)
open JsonNumeral.Numeral (Digits)
open Edit (line)
open Option (bind_eq_some_iff bind_some map_some)

/-! ### Headers -/

section
variable {l t rest ds o n : Text} {r : Ranges}

def place (ds : Text) (count : ℕ) : ℕ := if count = 0 then Nat.ofDigitChars 10 ds 0 else Nat.ofDigitChars 10 ds 0 - 1

theorem isDigit_of_ascii {c : Char} (h : c.isDigit = true) : isDigit c = true := by
  obtain ⟨hlow,hhigh⟩ := Char.isDigit_iff_toNat.mp h
  have h0 : '0'.toNat = 48 := rfl
  have h9 : '9'.toNat = 57 := rfl
  exact List.any_eq_true.mpr ⟨0x30,List.mem_cons_self,decide_eq_true ⟨by omega,by omega⟩⟩

theorem digits_append (hds : Digits ds) (hrest : ∀ c ∈ rest.head?, isDigit c = false) : digits (ds ++ rest) = some (ds,rest) := by
  have hall : ∀ c ∈ ds, isDigit c = true := fun c hc => isDigit_of_ascii (hds.2 c hc)
  have htake : (ds ++ rest).takeWhile isDigit = ds := by
    rw [List.takeWhile_append_of_pos hall]
    cases rest with
    | nil => exact List.append_nil ds
    | cons c rest => rw [List.takeWhile_cons_of_neg (ne_true_of_eq_false (hrest c rfl)),List.append_nil]
  have hdrop : (ds ++ rest).dropWhile isDigit = rest := by
    rw [List.dropWhile_append_of_pos hall]
    cases rest with
    | nil => rfl
    | cons c rest => rw [List.dropWhile_cons_of_neg (ne_true_of_eq_false (hrest c rfl))]
  rw [digits,htake,if_neg hds.1,hdrop]

theorem readNumber_some {v : ℕ} (h : readNumber t = some (v,rest)) :
    ∃ ds, t = ds ++ rest ∧ Digits ds ∧ v = Nat.ofDigitChars 10 ds 0 := by
  unfold readNumber at h
  dsimp only at h
  split at h
  · cases h
  · rename_i hne
    obtain ⟨rfl,rfl⟩ := Prod.mk.inj (Option.some.inj h)
    exact ⟨_,List.takeWhile_append_dropWhile.symm,⟨hne,fun c hc => List.mem_takeWhile_imp hc⟩,rfl⟩

theorem readRange_some {start count : ℕ} (h : readRange t = some (start,count,rest)) (hrest : rest.head? = some ' ') :
    ∃ ds behind, digits t = some (ds,behind) ∧ skipCount behind = rest ∧ Digits ds ∧ start = place ds count := by
  have hblank : ∀ c ∈ rest.head?, isDigit c = false := by
    rw [hrest]
    rintro c ⟨⟩
    decide +kernel
  obtain ⟨⟨v,after⟩,hnumber,h⟩ := bind_eq_some_iff.mp h
  obtain ⟨ds,rfl,hds,rfl⟩ := readNumber_some hnumber
  dsimp only at h
  split at h
  · rename_i tail
    obtain ⟨⟨w,after⟩,hcount,hpair⟩ := Option.map_eq_some_iff.mp h
    obtain ⟨es,rfl,hes,rfl⟩ := readNumber_some hcount
    simp only [Prod.mk.injEq] at hpair
    obtain ⟨rfl,rfl,rfl⟩ := hpair
    refine ⟨ds,',' :: (es ++ after),digits_append hds ?_,?_,hds,rfl⟩
    · rintro c ⟨⟩
      decide +kernel
    · rw [skipCount,digits_append hes hblank]
      rfl
  · simp only [Option.some.injEq,Prod.mk.injEq] at h
    obtain ⟨rfl,rfl,rfl⟩ := h
    refine ⟨ds,after,digits_append hds hblank,?_,hds,rfl⟩
    unfold skipCount
    split
    · cases hrest
    · rfl

theorem expect_some {word : String} (h : UnifiedDiff.expect word t = some rest) : t = word.toList ++ rest := by
  unfold UnifiedDiff.expect at h
  split at h
  · rename_i hstarts
    obtain ⟨tail,rfl⟩ := startsWith_iff.mp hstarts
    rw [← String.length_toList,List.drop_left] at h
    rw [Option.some.inj h]
  · cases h

/-- A header that gives ranges is one to `_HUNK_RE`. -/
theorem hunkStarts_of_readHeader (h : readHeader l = some r) : ∃ o n, hunkStarts l = some (o,n) ∧ Digits o ∧ Digits n ∧
    r.oldAt = place o r.oldCount ∧ r.newAt = place n r.newCount := by
  obtain ⟨t1,h1,h⟩ := bind_eq_some_iff.mp h
  obtain ⟨⟨oldAt,oldCount,t2⟩,h2,h⟩ := bind_eq_some_iff.mp h
  obtain ⟨t3,h3,h⟩ := bind_eq_some_iff.mp h
  obtain ⟨⟨newAt,newCount,t4⟩,h4,h⟩ := bind_eq_some_iff.mp h
  obtain ⟨t5,h5,rfl⟩ := Option.map_eq_some_iff.mp h
  obtain ⟨o,behind,hdigits,hskip,ho,hold⟩ := readRange_some h2 (by rw [expect_some h3]; rfl)
  obtain ⟨n,behind',hdigits',hskip',hn,hnew⟩ := readRange_some h4 (by rw [expect_some h5]; rfl)
  refine ⟨o,n,?_,ho,hn,hold,hnew⟩
  change expect "@@ -" l = some t1 at h1
  change expect " +" t2 = some t3 at h3
  change expect " @@" t4 = some t5 at h5
  simp only [hunkStarts,h1,hdigits,hskip,h3,hdigits',hskip',h5,bind_some,map_some]

theorem number_natCast (k : ℕ) : number k = decimal k := by
  have hdigits : number k = Nat.toDigits 10 k := Nat.toList_repr
  rw [hdigits,decimal]

theorem readNumber_append (hds : Digits ds) (hrest : ∀ c ∈ rest.head?, c.isDigit = false) :
    readNumber (ds ++ rest) = some (Nat.ofDigitChars 10 ds 0,rest) := by
  simp only [readNumber,takeWhile_digits hds.2 hrest,dropWhile_digits hds.2 hrest,if_neg hds.1]

theorem readRange_long (hds : Digits ds) (count : ℕ) (hrest : ∀ c ∈ rest.head?, c.isDigit = false) :
    readRange (ds ++ ',' :: (decimal count ++ rest)) = some (place ds count,count,rest) := by
  rw [readRange,readNumber_append hds (by simp),bind_some]
  simp only [readNumber_decimal count hrest,map_some]
  rfl

theorem hunkHeader_eq (o n : Text) (old new : ℕ) : hunkHeader o old n new = "@@ -".toList ++ (o ++ ',' :: (decimal old ++
    (" +".toList ++ (n ++ ',' :: (decimal new ++ " @@".toList))))) := by
  have hcomma : ∀ t : Text, ",".toList ++ t = ',' :: t := fun _ => rfl
  unfold hunkHeader
  rw [number_natCast old,number_natCast new]
  simp only [List.append_assoc]
  rw [hcomma,hcomma]

theorem readHeader_hunkHeader (ho : Digits o) (hn : Digits n) (old new : ℕ) :
    readHeader (hunkHeader o old n new) = some ⟨place o old,old,place n new,new⟩ := by
  have hend : UnifiedDiff.expect " @@" " @@".toList = some [] := rfl
  have hold := fun t => @readRange_long (" +".toList ++ t) o ho old (by simp)
  have hnew := @readRange_long " @@".toList n hn new (by simp)
  rw [hunkHeader_eq]
  simp only [readHeader,expect_append,bind_some,hold,hnew,hend,map_some]

theorem hunkStarts_hunkHeader (ho : Digits o) (hn : Digits n) (old new : ℕ) :
    hunkStarts (hunkHeader o old n new) = some (o,n) := by
  have hexpect : ∀ (word : String) (t : Text), expect word (word.toList ++ t) = some t := expect_append
  have hdecimal : ∀ k, Digits (decimal k) := fun k =>
    ⟨Nat.toDigits_ne_nil,fun c hc => Nat.isDigit_of_mem_toDigits (by decide) (by decide) hc⟩
  have hcomma : ∀ t : Text, ∀ c ∈ (',' :: t).head?, isDigit c = false := by
    rintro t c ⟨⟩
    decide +kernel
  have hblank : ∀ (word : String) (t : Text), word.toList.head? = some ' ' → ∀ c ∈ (word.toList ++ t).head?, isDigit c = false := by
    intro word t hword c hc
    cases hlist : word.toList with
    | nil =>
      rw [hlist] at hword
      cases hword
    | cons d w =>
      rw [hlist] at hword hc
      cases hword
      cases hc
      decide +kernel
  have hlast := hblank " @@" [] rfl
  rw [List.append_nil] at hlast
  have hskip : ∀ (k : ℕ) (t : Text), (∀ c ∈ t.head?, isDigit c = false) → skipCount (',' :: (decimal k ++ t)) = t := by
    intro k t ht
    rw [skipCount,digits_append (hdecimal k) ht]
    rfl
  have hend : expect " @@" " @@".toList = some [] := rfl
  rw [hunkHeader_eq]
  simp only [hunkStarts,hexpect,bind_some,digits_append ho (hcomma _),hskip _ _ (hblank " +" _ rfl),
    digits_append hn (hcomma _),hskip _ _ hlast,hend,map_some]

theorem feedless_hunkHeader (ho : Digits o) (hn : Digits n) (old new : ℕ) : '\n' ∉ hunkHeader o old n new := by
  have hdigits : ∀ {ds : Text}, Digits ds → '\n' ∉ ds := fun hds h => absurd (hds.2 _ h) (by decide)
  rw [hunkHeader_eq]
  simp [hdigits ho,hdigits hn,not_mem_decimal]

end

/-! ### Bodies -/

section
variable {e : Edit} {es : List Edit} {rest out : List Text} {head : Text} {o n : Text} {fuel : ℕ}

/-- A line at the end of a hunk that `_recount_hunks` takes away. -/
def isEmptyLine (l : Text) : Bool := strip l = []

def core (es : List Edit) : List Edit := es.rdropWhile fun e => isEmptyLine e.line

def isContent (e : Edit) : Bool := !startsWith "--- " e.line && !startsWith "+++ " e.line

theorem isSpace_of_isEmptyLine {l : Text} (h : isEmptyLine l = true) : ∀ c ∈ l, isSpace c = true := by
  intro c hc
  by_contra hspace
  exact strip_ne_nil hc (Bool.eq_false_iff.mpr hspace) (of_decide_eq_true h)

theorem mark_of_isEmptyLine (h : isEmptyLine e.line = true) : e.mark = .same := by
  have hchar := isSpace_of_isEmptyLine h e.mark.char List.mem_cons_self
  cases hmark : e.mark with
  | same => rfl
  | del | ins =>
    rw [hmark] at hchar
    exact absurd hchar (by decide)

theorem endsHunk_line (h : isContent e = true) : endsHunk e.line = false := by
  obtain ⟨hold,hnew⟩ : startsWith "--- " e.line = false ∧ startsWith "+++ " e.line = false := by simpa [isContent] using h
  have hgit : startsWith "diff --git " e.line = false := by cases hmark : e.mark <;> simp [line,hmark,startsWith,Mark.char,List.isPrefixOf]
  have hstarts : hunkStarts e.line = none := by
    have hat : expect "@@ -" e.line = none := by
      cases hmark : e.mark <;> simp [line,hmark,expect,startsWith,Mark.char,List.isPrefixOf]
    rw [hunkStarts,hat,Option.bind_none]
  rw [endsHunk,hstarts,hgit,hold,hnew]
  rfl

theorem repair_lines (es : List Edit) : repairMissingHunkPrefixes (es.map line) = es.map line := by
  rw [repairMissingHunkPrefixes,List.map_map]
  refine List.map_congr_left fun e _ => if_pos ?_
  cases hmark : e.mark <;> simp [line,hmark,Mark.char]

theorem core_lines (es : List Edit) :
    ((es.map line).reverse.dropWhile isEmptyLine).reverse = (core es).map line := by
  rw [core,List.rdropWhile,← List.map_reverse,List.dropWhile_map,List.map_reverse]
  rfl

theorem countP_old (es : List Edit) : (es.map line).countP (fun l => l.head? ≠ some '+') = (olds es).length := by
  rw [List.countP_map,olds,List.length_map,List.countP_eq_length_filter]
  refine congrArg List.length (List.filter_congr fun e _ => ?_)
  cases hmark : e.mark <;> simp [line,hmark,Mark.char]

theorem countP_new (es : List Edit) : (es.map line).countP (fun l => l.head? ≠ some '-') = (news es).length := by
  rw [List.countP_map,news,List.length_map,List.countP_eq_length_filter]
  refine congrArg List.length (List.filter_congr fun e _ => ?_)
  cases hmark : e.mark <;> simp [line,hmark,Mark.char]

/-- What `_recount_hunks` makes of lines, with enough fuel. -/
def Recounts (ls out : List Text) : Prop := ∀ fuel, ls.length ≤ fuel → recountHunks fuel ls = out

theorem recounts_nil : Recounts [] [] := fun fuel _ => by cases fuel <;> rfl

theorem recounts_cons {l : Text} (hl : hunkStarts l = none) (h : Recounts rest out) : Recounts (l :: rest) (l :: out) := by
  intro fuel hfuel
  cases fuel with
  | zero => cases hfuel
  | succ fuel => rw [recountHunks,hl,h fuel (Nat.le_of_succ_le_succ hfuel)]

def Stops (ls : List Text) : Prop := ∀ l ∈ ls.head?, endsHunk l = true

theorem recounts_hunk (hhead : hunkStarts head = some (o,n)) (hes : ∀ e ∈ es, isContent e = true)
    (hstop : Stops rest) (h : Recounts rest out) : Recounts (head :: es.map line ++ rest)
    (hunkHeader o (olds (core es)).length n (news (core es)).length :: (core es).map line ++ out) := by
  intro fuel hfuel
  have hbody : ∀ l ∈ es.map line, (!endsHunk l) = true := by
    intro l hl
    obtain ⟨e,he,rfl⟩ := List.mem_map.mp hl
    rw [endsHunk_line (hes e he)]
    rfl
  have htake : (es.map line ++ rest).takeWhile (fun l => !endsHunk l) = es.map line := by
    rw [List.takeWhile_append_of_pos hbody]
    cases rest with
    | nil => exact List.append_nil _
    | cons l rest => rw [List.takeWhile_cons_of_neg (by rw [hstop l rfl]; decide),List.append_nil]
  have hdrop : (es.map line ++ rest).dropWhile (fun l => !endsHunk l) = rest := by
    rw [List.dropWhile_append_of_pos hbody]
    cases rest with
    | nil => rfl
    | cons l rest => rw [List.dropWhile_cons_of_neg (by rw [hstop l rfl]; decide)]
  cases fuel with
  | zero => cases hfuel
  | succ fuel =>
    have hrest : rest.length ≤ fuel := by
      rw [List.cons_append,List.length_cons,List.length_append] at hfuel
      omega
    have hcore : ((es.map line).reverse.dropWhile fun l => decide (strip l = [])).reverse = (core es).map line :=
      core_lines es
    rw [List.cons_append,recountHunks,hhead]
    simp only [htake,hdrop,hcore,repair_lines,countP_old,countP_new,h fuel hrest]

end

end Verdict.Patch

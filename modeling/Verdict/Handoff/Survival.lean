import Verdict.Handoff.Document

/-! # Handoffs that survive being written

A written document is read back line by line. An item cannot be taken for a title, since no
title has a dash, a digit or a colon in it, so every value comes back at its place. An empty list
comes back with its placeholder as an item, and an empty previous worker as `none`.
-/
namespace Verdict.Handoff
open Path (isSpace strip)
open scoped Members
open Char (ofNat toLower)
open HandoffDocument (lines ofStory shown)
open List (append_assoc cons_append cons_ne_nil foldl_append foldl_cons mem_append mem_cons_self
  mem_map nil_append not_mem_nil)
open Reading (read start take)
open TextLines (ended lineBreak)
open UnifiedDiff (decimal)
open Function (update)

/-- What is used of `str.lower`: ASCII is lowered letter by letter, and kept in longer texts. -/
structure Lowers (lower : Text → Text) : Prop where
  ascii : ∀ t, (∀ c ∈ t, c.toNat < 128) → lower t = t.map toLower
  member : ∀ t, ∀ c ∈ t, c.toNat < 128 → c.toLower ∈ lower t

structure Line (t : Text) : Prop where
  single : ∀ c ∈ t, lineBreak c = false
  stripped : strip t = t

instance (t : Text) : Decidable (Line t) :=
  decidable_of_iff ((∀ c ∈ t, lineBreak c = false) ∧ strip t = t) ⟨fun h => ⟨h.1,h.2⟩,fun h => ⟨h.1,h.2⟩⟩

structure SingleLines (d : HandoffDocument) : Prop where
  story : d.scalar .story ≠ []
  scalar : ∀ n, Line (d.scalar n)
  item : ∀ s, ∀ item ∈ d.items s, Line item ∧ item ≠ []

/-- The document is read back with every scalar and every list, and written again as it was. -/
def Survives (lower : Text → Text) (d : HandoffDocument) : Prop :=
  ∃ d', parseHandoff lower (renderHandoff d) = .ok d' ∧ d'.scalar = d.scalar ∧ d'.items = d.items ∧
    renderHandoff d' = renderHandoff d

def readItems (items : List Text) : List Text := if items = [] then ["(none)".toList] else items

variable {lower : Text → Text} {d : HandoffDocument} {t a : Text} {c : Char} {r : Reading}

/-! ### Headers -/

theorem isParenthetical_append (hc : isSpace c = false) (hopen : c ≠ '(') (ha : '(' ∉ a) (t : Text) :
    isParenthetical (a ++ c :: t) = false := by
  induction a with
  | nil =>
    rw [nil_append,isParenthetical,List.dropWhile_cons_of_neg (by simp [hc])]
    split
    · next h => exact absurd (List.cons.inj h).1 hopen
    · rfl
  | cons b a ih =>
    obtain ⟨hb,ha⟩ := List.ne_and_not_mem_of_not_mem_cons ha
    cases hspace : isSpace b with
    | true =>
      rw [isParenthetical] at ih ⊢
      rw [cons_append,List.dropWhile_cons_of_pos hspace]
      exact ih ha
    | false =>
      rw [cons_append,isParenthetical,List.dropWhile_cons_of_neg (by simp [hspace])]
      split
      · next h => exact absurd (List.cons.inj h).1.symm hb
      · rfl

theorem mem_dropParenthetical (hc : isSpace c = false) (hopen : c ≠ '(') (ha : '(' ∉ a) (t : Text) :
    c ∈ dropParenthetical (a ++ c :: t) := by
  induction a with
  | nil =>
    have hnot := isParenthetical_append hc hopen not_mem_nil t
    rw [nil_append] at hnot ⊢
    rw [dropParenthetical,hnot]
    exact mem_cons_self
  | cons b a ih =>
    have hnot := isParenthetical_append hc hopen ha t
    rw [cons_append] at hnot ⊢
    rw [dropParenthetical,hnot]
    exact List.mem_cons_of_mem _ (ih (List.not_mem_of_not_mem_cons ha))

def Foreign (c : Char) : Prop := c.toNat < 128 ∧ isSpace c = false ∧ c ≠ '(' ∧ ∀ e ∈ SECTION_ALIASES, c.toLower ∉ e.1

instance (c : Char) : Decidable (Foreign c) := inferInstanceAs (Decidable (_ ∧ _))

theorem mem_strip (h : c ∈ t) (hc : isSpace c = false) : c ∈ strip t :=
  List.mem_reverse.mpr (Path.mem_dropWhile (List.mem_reverse.mpr (Path.mem_dropWhile h hc)) hc)

theorem lookup_eq_none {β : Type} {xs : List (Text × β)} {k : Text} (h : ∀ e ∈ xs, e.1 ≠ k) : xs.lookup k = none := by
  rw [List.lookup_eq_none_iff]
  exact fun e he => by simpa using (h e he).symm

theorem matchSectionHeader_eq_none (hlower : Lowers lower) (hc : Foreign c) (ha : '(' ∉ a)
    (hfront : ∀ b, (a ++ [c]).head? = some b → isSpace b = false) (ht : t ≠ []) :
    matchSectionHeader lower (a ++ c :: t) = none := by
  obtain ⟨hsmall,hspace,hopen,hforeign⟩ := hc
  unfold matchSectionHeader
  split
  · have hlast : ∀ b, (a ++ [c]).getLast? = some b → isSpace b = false := by
      intro b hb
      rw [List.getLast?_concat,Option.some.injEq] at hb
      exact hb ▸ hspace
    obtain ⟨rest,hrest,-⟩ := Path.strip_append hfront hlast (by simp) t.dropLast
    have hshape : strip (a ++ c :: t).dropLast = a ++ c :: rest := by
      rw [List.dropLast_append_of_ne_nil (cons_ne_nil _ _),List.dropLast_cons_of_ne_nil ht]
      simpa using hrest
    have hmem := hlower.member _ c (mem_strip (mem_dropParenthetical hspace hopen ha rest) hspace) hsmall
    rw [hshape]
    exact lookup_eq_none fun e he heq => hforeign e he (heq ▸ hmem)
  · rfl

-- Facts about every label or title are decided in one go.
instance {p : Scalar → Prop} [DecidablePred p] : Decidable (∀ n, p n) :=
  decidable_of_iff (∀ n ∈ scalarNames, p n) ⟨fun h n => h n (by cases n <;> decide),fun h n _ => h n⟩

instance {p : Section → Prop} [DecidablePred p] : Decidable (∀ s, p s) :=
  decidable_of_iff (∀ s ∈ sectionNames, p s) ⟨fun h s => h s (by cases s <;> decide),fun h s _ => h s⟩

theorem title_facts : ∀ s : Section, (∀ c ∈ s.title, c.toNat < 128) ∧
    strip (dropParenthetical (strip (s.title ++ [':']).dropLast)) = s.title ∧
    SECTION_ALIASES.lookup (s.title.map toLower) = some s ∧
    ∀ c ∈ s.title ++ [':'], lineBreak c = false := by decide +kernel

theorem label_facts : ∀ n : Scalar, (∀ c ∈ n.label, c.toNat < 128) ∧
    strip (dropParenthetical (strip (n.label ++ [':']).dropLast)) = n.label ∧
    SECTION_ALIASES.lookup (n.label.map toLower) = none ∧ strip n.label = n.label ∧
    SCALAR_ALIASES.lookup (n.label.map toLower) = some n ∧ (':' ∉ n.label ∧ '(' ∉ n.label) ∧
    ∀ c ∈ n.label, lineBreak c = false := by decide +kernel

theorem matchSectionHeader_title (hlower : Lowers lower) (s : Section) : matchSectionHeader lower (s.title ++ [':']) = some s := by
  obtain ⟨hsmall,hbase,hlookup,-⟩ := title_facts s
  rw [matchSectionHeader,if_pos (List.getLast?_concat ..),hbase,hlower.ascii _ hsmall]
  exact hlookup

theorem matchSectionHeader_label (hlower : Lowers lower) (n : Scalar) : matchSectionHeader lower (n.label ++ [':']) = none := by
  obtain ⟨hsmall,hbase,hlookup,-⟩ := label_facts n
  rw [matchSectionHeader,if_pos (List.getLast?_concat ..),hbase,hlower.ascii _ hsmall]
  exact hlookup

/-! ### Lines of the first pass -/

variable {v : Text}

theorem strip_ended (hhead : ∀ c, a.head? = some c → isSpace c = false) (hne : a ≠ []) (hv : strip v = v) (hvne : v ≠ []) :
    strip (a ++ v) = a ++ v := by
  have hfront : ∀ c ∈ (a ++ v).head?, isSpace c = false := by
    rw [List.head?_append_of_ne_nil _ hne]
    exact hhead
  have hback : ∀ c ∈ (a ++ v).getLast?, isSpace c = false := by
    rw [List.getLast?_append_of_ne_nil _ hvne]
    exact fun c hc => Path.last_nonSpace hv hc
  simpa using Path.strip_spaces hfront hback (List.append_ne_nil_of_left_ne_nil hne v) fun c hc => absurd hc not_mem_nil

def Plain (c : Char) : Prop := c ≠ '#' ∧ isSpace c = false

instance (c : Char) : Decidable (Plain c) := inferInstanceAs (Decidable (_ ∧ _))

theorem Reading.read_of_plain (r : Reading) {raw : Text} (hc : Plain c) (hraw : strip raw = c :: t) :
    r.read lower raw = r.take lower (c :: t) := by
  have hhash : ¬ "# ".toList <+: c :: t := fun h => hc.1 (List.cons_prefix_cons.mp h).1.symm
  have htitle : c :: t ≠ HANDOFF_TITLE := fun h => hc.1 (List.cons.inj h).1
  rw [read,hraw,if_neg (not_or.mpr ⟨cons_ne_nil c t,not_or.mpr ⟨htitle,hhash⟩⟩)]

theorem Reading.read_blank (r : Reading) : r.read lower [] = r := rfl

theorem Reading.read_title (r : Reading) : r.read lower HANDOFF_TITLE = r := rfl

theorem plain_title (s : Section) : ∃ c t, s.title = c :: t ∧ Plain c := by
  cases s <;> exact ⟨_,_,rfl,by decide,by decide⟩

theorem plain_label (n : Scalar) : ∃ c t, n.label = c :: t ∧ Plain c := by
  cases n <;> exact ⟨_,_,rfl,by decide,by decide⟩

theorem Reading.read_header (hlower : Lowers lower) (r : Reading) (s : Section) :
    r.read lower (s.title ++ [':']) = {r with current := some s} := by
  obtain ⟨c,t,hs,hc⟩ := plain_title s
  have hstrip : strip (s.title ++ [':']) = c :: (t ++ [':']) := by
    rw [strip_ended (fun b hb => ?_) (by rw [hs]; exact cons_ne_nil _ _) (by decide) (by decide),hs,cons_append]
    rw [hs] at hb
    exact Option.some.inj hb ▸ hc.2
  have hheader := matchSectionHeader_title hlower s
  rw [hs,cons_append] at hheader
  rw [r.read_of_plain hc hstrip,take,hheader]

theorem partitionColon_append (ha : ':' ∉ a) (t : Text) : partitionColon (a ++ ':' :: t) = (a,t) := by
  have hall : ∀ c ∈ a, decide (c ≠ ':') = true := fun c hc => decide_eq_true fun h => ha (h ▸ hc)
  rw [partitionColon,List.takeWhile_append_of_pos hall,List.dropWhile_append_of_pos hall]
  simp

theorem colon_not_mem_label (n : Scalar) : ':' ∉ n.label ∧ '(' ∉ n.label := (label_facts n).2.2.2.2.2.1

theorem lookup_label (hlower : Lowers lower) (n : Scalar) : SCALAR_ALIASES.lookup (lower (strip n.label)) = some n := by
  obtain ⟨hsmall,-,-,hstrip,hlookup,-⟩ := label_facts n
  rw [hstrip,hlower.ascii _ hsmall]
  exact hlookup

theorem foreign_marks : Foreign ':' ∧ Foreign '-' ∧ ∀ k : Fin 10, Foreign (ofNat (k + 48)) := by decide +kernel

theorem head_label (n : Scalar) (t : Text) : ∀ b, (n.label ++ t).head? = some b → isSpace b = false := by
  obtain ⟨c,l,hn,hc⟩ := plain_label n
  intro b hb
  rw [hn] at hb
  exact Option.some.inj hb ▸ hc.2

theorem strip_scalarLine (hlower : Lowers lower) (n : Scalar) (hv : strip v = v) :
    ∃ w, strip (scalarLine n.label v) = n.label ++ ':' :: w ∧ strip w = v ∧ matchSectionHeader lower (n.label ++ ':' :: w) = none := by
  by_cases hne : v = []
  · subst hne
    have hblank : ∀ c ∈ [' '], isSpace c = true := by decide
    have hspaces := Path.strip_spaces (head_label n [':']) (by simp; decide) (by simp) hblank
    exact ⟨[],by simpa [scalarLine] using hspaces,rfl,matchSectionHeader_label hlower n⟩
  · have hkept := strip_ended (head_label n (':' :: [' '])) (by simp) hv hne
    have hspace : strip (' ' :: v) = v := by
      rw [strip,List.dropWhile_cons_of_pos (by decide)]
      exact hv
    refine ⟨' ' :: v,by simpa [scalarLine] using hkept,hspace,?_⟩
    exact matchSectionHeader_eq_none hlower foreign_marks.1 (colon_not_mem_label n).2 (head_label n [':']) (cons_ne_nil _ _)

theorem Reading.read_scalar (hlower : Lowers lower) (n : Scalar) (hv : strip v = v) (hcurrent : r.current = none) :
    r.read lower (scalarLine n.label v) = {r with scalars := update r.scalars n (some v)} := by
  obtain ⟨w,hstrip,hw,hheader⟩ := strip_scalarLine hlower n hv
  obtain ⟨c,t,hn,hc⟩ := plain_label n
  have hfront : n.label ++ ':' :: w = c :: (t ++ ':' :: w) := by rw [hn,cons_append]
  rw [r.read_of_plain hc (hstrip.trans hfront),← hfront,take,hheader,hcurrent]
  simp only [partitionColon_append (colon_not_mem_label n).1,lookup_label hlower,hw]
  rw [if_pos (by simp)]

/-! ### Items -/

structure Marked (line item : Text) : Prop where
  plain : ∃ c t, line = c :: t ∧ Plain c
  stripped : strip line = line
  unmarked : stripListMarker line = item
  untitled : ∀ lower, Lowers lower → matchSectionHeader lower line = none

variable {item : Text} {s : Section}

theorem Reading.read_item (hlower : Lowers lower) {line : Text} (h : Marked line item) (hne : item ≠ [])
    (hcurrent : r.current = some s) :
    r.read lower line = {r with sections := update r.sections s (r.sections s ++ [item])} := by
  obtain ⟨c,t,rfl,hc⟩ := h.plain
  rw [r.read_of_plain hc h.stripped,take,h.untitled lower hlower,hcurrent]
  simp only [h.unmarked]
  rw [if_neg hne]

theorem marked_bullet (hitem : strip item = item) (hne : item ≠ []) : Marked (bullet item) item where
  plain := ⟨'-',' ' :: item,rfl,by decide,by decide⟩
  stripped := strip_ended (a := ['-',' ']) (by simp; decide) (by simp) hitem hne
  unmarked := by
    rw [stripListMarker,if_pos (.inl ⟨item,rfl⟩)]
    exact hitem
  untitled lower hlower := matchSectionHeader_eq_none (a := []) hlower foreign_marks.2.1 (by simp) (by simp; decide) (cons_ne_nil _ _)

theorem digit_facts (h : c.isDigit = true) : Patch.isDigit c = true ∧ Plain c ∧ Foreign c ∧ c ≠ '-' ∧ c ≠ '*' := by
  have hall : ∀ k : Fin 10, Patch.isDigit (ofNat (k + 48)) = true ∧ Plain (ofNat (k + 48)) ∧
      Foreign (ofNat (k + 48)) ∧ ofNat (k + 48) ≠ '-' ∧ ofNat (k + 48) ≠ '*' := fun k =>
    have hshape : ∀ k : Fin 10, Patch.isDigit (ofNat (k + 48)) = true ∧ Plain (ofNat (k + 48)) ∧
        ofNat (k + 48) ≠ '-' ∧ ofNat (k + 48) ≠ '*' := by decide
    ⟨(hshape k).1,(hshape k).2.1,foreign_marks.2.2 k,(hshape k).2.2⟩
  obtain ⟨hlow,hhigh⟩ : 48 ≤ c.toNat ∧ c.toNat ≤ 57 := Char.isDigit_iff_toNat.mp h
  have hc := hall ⟨c.toNat - 48,by omega⟩
  rwa [show c.toNat - 48 + 48 = c.toNat by omega,Char.ofNat_toNat] at hc

theorem marked_numberedItem (hitem : strip item = item) (hne : item ≠ []) (idx : ℕ) : Marked (numberedItem item idx) item := by
  have hdigits : ∀ c ∈ decimal idx, c.isDigit = true := fun c hc =>
    Nat.isDigit_of_mem_toDigits (by decide) (by decide) hc
  obtain ⟨c,t,hidx⟩ : ∃ c t, decimal idx = c :: t := List.exists_cons_of_ne_nil Nat.toDigits_ne_nil
  have hall : ∀ c ∈ decimal idx, Patch.isDigit c = true := fun c hc => (digit_facts (hdigits c hc)).1
  obtain ⟨-,hplain,hforeign,hdash,hstar⟩ := digit_facts (hdigits c (by rw [hidx]; exact mem_cons_self))
  have hline : numberedItem item idx = c :: (t ++ '.' :: ' ' :: item) := by rw [numberedItem,hidx,cons_append]
  have hhead : ∀ b, (decimal idx ++ ['.',' ']).head? = some b → isSpace b = false := by
    intro b hb
    rw [hidx] at hb
    exact Option.some.inj hb ▸ hplain.2
  refine ⟨⟨c,_,hline,hplain⟩,?_,?_,fun lower hlower => ?_⟩
  · have hkept := strip_ended hhead (by simp) hitem hne
    rwa [append_assoc] at hkept
  · have hstart : item.dropWhile isSpace = item := by
      simpa using Path.dropWhile_front (fun b hb => Path.head_nonSpace hitem hb) hne []
    have hnumbered : numbered (numberedItem item idx) = some item := by
      rw [numbered,numberedItem,List.takeWhile_append_of_pos hall,List.dropWhile_append_of_pos hall,if_neg (by simp [hidx])]
      exact congrArg some hstart
    rw [stripListMarker,if_neg,hnumbered]
    · exact hitem
    · rw [hline]
      simp [hdash.symm,hstar.symm]
  · rw [hline]
    exact matchSectionHeader_eq_none (a := []) hlower hforeign (by simp) (by simpa using hplain.2) (by simp)

variable {items : List Text}

theorem forall₂_itemLines (h : ∀ item ∈ items, Line item ∧ item ≠ []) (isNumbered : Bool) :
    List.Forall₂ Marked (itemLines isNumbered items) (readItems items) := by
  have hbullet : ∀ item ∈ items, Marked (bullet item) item := fun item hitem =>
    marked_bullet (h item hitem).1.stripped (h item hitem).2
  have hnumbered : ∀ e ∈ items.zipIdx 1, Marked (numberedItem e.1 e.2) e.1 := fun e he =>
    have hmem := List.fst_mem_of_mem_zipIdx he
    marked_numberedItem (h e.1 hmem).1.stripped (h e.1 hmem).2 e.2
  unfold itemLines readItems
  split
  · exact .cons (marked_bullet (by decide) (by decide)) .nil
  · cases isNumbered with
    | true =>
      have hall : List.Forall₂ Marked ((items.zipIdx 1).map fun e => numberedItem e.1 e.2) ((items.zipIdx 1).map Prod.fst) :=
        List.forall₂_map_left_iff.mpr (List.forall₂_map_right_iff.mpr (List.forall₂_same.mpr hnumbered))
      rwa [List.zipIdx_map_fst] at hall
    | false => exact List.forall₂_map_left_iff.mpr (List.forall₂_same.mpr hbullet)

/-! ### The first pass -/

variable {ls : List Text}

theorem read_items (hlower : Lowers lower) (h : List.Forall₂ Marked ls items) (hne : ∀ item ∈ items, item ≠ [])
    (hcurrent : r.current = some s) :
    ls.foldl (read lower) r = {r with sections := update r.sections s (r.sections s ++ items)} := by
  induction h generalizing r with
  | nil => simp
  | cons hmark _ ih =>
    obtain ⟨hitem,hrest⟩ := List.forall_mem_cons.mp hne
    rw [foldl_cons,r.read_item hlower hmark hitem hcurrent]
    refine (ih hrest ?_).trans (by simp)
    exact hcurrent

theorem readItems_ne (h : ∀ item ∈ items, item ≠ []) : ∀ item ∈ readItems items, item ≠ [] := by
  unfold readItems
  split
  · simp
  · exact h

theorem read_section (hlower : Lowers lower) (h : ∀ item ∈ items, Line item ∧ item ≠ []) (s : Section)
    (isNumbered : Bool) (r : Reading) : (appendSection s.title items isNumbered).foldl (read lower) r =
    ⟨r.scalars,update r.sections s (r.sections s ++ readItems items),some s⟩ := by
  rw [appendSection,foldl_cons,foldl_append,r.read_header hlower s,
    read_items hlower (forall₂_itemLines h isNumbered) (readItems_ne fun item hitem => (h item hitem).2) rfl]
  rfl

theorem read_sections (hlower : Lowers lower) (hd : SingleLines d) (names : List Section) (hnodup : names.Nodup) (r : Reading) :
    ∃ last, (names.flatMap fun s => appendSection s.title (d.items s) (decide (s = .nextExactSteps))).foldl (read lower) r =
      ⟨r.scalars,fun s => if s ∈ names then r.sections s ++ readItems (d.items s) else r.sections s,last⟩ := by
  induction names generalizing r with
  | nil => exact ⟨r.current,by simp⟩
  | cons s names ih =>
    obtain ⟨hs,hnodup⟩ := List.nodup_cons.mp hnodup
    obtain ⟨last,hlast⟩ := ih hnodup ⟨r.scalars,update r.sections s (r.sections s ++ readItems (d.items s)),some s⟩
    refine ⟨last,?_⟩
    rw [List.flatMap_cons,foldl_append,read_section hlower (hd.item s),hlast,Reading.mk.injEq]
    refine ⟨rfl,funext fun s' => ?_,rfl⟩
    by_cases hs' : s' = s
    · subst hs'
      simp [hs]
    · simp [hs']

theorem shown_stripped (hd : SingleLines d) (n : Scalar) : strip (d.shown n) = d.shown n := by
  unfold shown
  split
  · split
    · decide
    · exact (hd.scalar _).stripped
  · exact (hd.scalar n).stripped

theorem read_scalars (hlower : Lowers lower) (hd : SingleLines d) (names : List Scalar) (hnodup : names.Nodup)
    (hcurrent : r.current = none) :
    (names.map fun n => scalarLine n.label (d.shown n)).foldl (read lower) r =
      {r with scalars := fun n => if n ∈ names then some (d.shown n) else r.scalars n} := by
  induction names generalizing r with
  | nil => simp
  | cons n names ih =>
    obtain ⟨hn,hnodup⟩ := List.nodup_cons.mp hnodup
    rw [List.map_cons,foldl_cons,r.read_scalar hlower n (shown_stripped hd n) hcurrent]
    refine (ih hnodup ?_).trans (Reading.mk.injEq .. |>.mpr ⟨funext fun n' => ?_,rfl,rfl⟩)
    · exact hcurrent
    by_cases hn' : n' = n
    · subst hn'
      simp [hn]
    · simp [hn']

theorem read_lines (hlower : Lowers lower) (hd : SingleLines d) :
    ∃ last, d.lines.foldl (read lower) start = ⟨fun n => some (d.shown n),fun s => readItems (d.items s),last⟩ := by
  obtain ⟨last,hlast⟩ := read_sections hlower hd sectionNames (by decide) ⟨fun n => some (d.shown n),fun _ => [],none⟩
  have hsection : ∀ s, s ∈ sectionNames := by intro s; cases s <;> decide
  have hscalar : ∀ n, n ∈ scalarNames := by intro n; cases n <;> decide
  refine ⟨last,?_⟩
  simp only [hsection,if_true,nil_append] at hlast
  rw [← hlast,lines,foldl_append,foldl_append,foldl_append]
  simp only [foldl_cons,List.foldl_nil,Reading.read_blank,Reading.read_title]
  rw [read_scalars hlower hd scalarNames (by decide) rfl]
  simp only [hscalar,if_true]
  rfl

/-! ### The text -/

def Single (l : Text) : Prop := ∀ c ∈ l, lineBreak c = false

variable {l : Text}

theorem Single.append {l' : Text} (h : Single l) (h' : Single l') : Single (l ++ l') := fun c hc =>
  (mem_append.mp hc).elim (h c) (h' c)

theorem Single.cons {l : Text} (hc : lineBreak c = false) (h : Single l) : Single (c :: l) :=
  List.forall_mem_cons.mpr ⟨hc,h⟩

theorem single_nil : Single [] := fun _ hc => absurd hc not_mem_nil

theorem single_shown (hd : SingleLines d) (n : Scalar) : Single (d.shown n) := by
  unfold shown
  split
  · split
    · unfold Single
      decide
    · exact (hd.scalar _).single
  · exact (hd.scalar n).single

theorem single_decimal (idx : ℕ) : Single (decimal idx) := by
  intro c hc
  obtain ⟨hlow,hhigh⟩ : 48 ≤ c.toNat ∧ c.toNat ≤ 57 :=
    Char.isDigit_iff_toNat.mp (Nat.isDigit_of_mem_toDigits (by decide) (by decide) hc)
  simp only [lineBreak,Bool.or_eq_false_iff,Bool.and_eq_false_iff,decide_eq_false_iff_not,beq_eq_false_iff_ne]
  omega

theorem single_itemLines (h : ∀ item ∈ items, Line item ∧ item ≠ []) (isNumbered : Bool) :
    ∀ l ∈ itemLines isNumbered items, Single l := by
  unfold itemLines
  split
  · unfold Single
    decide
  · split
    · rintro l hl
      obtain ⟨e,he,rfl⟩ := mem_map.mp hl
      have hitem := (h e.1 (List.fst_mem_of_mem_zipIdx he)).1.single
      exact (single_decimal e.2).append (.cons (by decide) (.cons (by decide) hitem))
    · rintro l hl
      obtain ⟨item,hitem,rfl⟩ := mem_map.mp hl
      exact .cons (by decide) (.cons (by decide) (h item hitem).1.single)

theorem single_label (n : Scalar) : Single n.label := (label_facts n).2.2.2.2.2.2

theorem single_title (s : Section) : Single (s.title ++ [':']) := (title_facts s).2.2.2

theorem single_lines (hd : SingleLines d) : ∀ l ∈ d.lines, Single l := by
  intro l hl
  simp only [lines,mem_append,mem_map,List.mem_flatMap,List.mem_cons,not_mem_nil,or_false,
    appendSection] at hl
  rcases hl with (((rfl | rfl) | ⟨n,-,rfl⟩) | rfl) | ⟨s,-,rfl | hl | rfl⟩
  · unfold Single
    decide
  · exact single_nil
  · exact (single_label n).append (.cons (by decide) (.cons (by decide) (single_shown hd n)))
  · exact single_nil
  · exact single_title s
  · exact single_itemLines (hd.item s) _ l hl
  · exact single_nil

theorem intercalate_blank (ls : List Text) : ['\n'].intercalate (ls ++ [[]]) = ended ls := by
  induction ls with
  | nil => rfl
  | cons l ls ih =>
    rw [cons_append,List.intercalate_cons_of_ne_nil (by simp),ih]
    rfl

theorem exists_last_marked (h : List.Forall₂ Marked ls items) (hne : items ≠ []) :
    ∃ front l item, ls = front ++ [l] ∧ Marked l item := by
  have hback := List.forall₂_reverse_iff.mpr h
  cases hls : ls.reverse with
  | nil =>
    rw [hls,List.forall₂_nil_left_iff,List.reverse_eq_nil_iff] at hback
    exact absurd hback hne
  | cons l front =>
    rw [hls] at hback
    obtain ⟨item,items',hmark,-,-⟩ := List.forall₂_cons_left_iff.mp hback
    exact ⟨front.reverse,l,item,by rw [← List.reverse_cons,← hls,List.reverse_reverse],hmark⟩

theorem lines_end (hd : SingleLines d) : ∃ ls l item, d.lines = ls ++ [l] ++ [[]] ∧ Marked l item := by
  have hne : readItems (d.items .doNot) ≠ [] := by
    unfold readItems
    split
    · exact cons_ne_nil _ _
    · assumption
  obtain ⟨front,l,item,hfront,hmark⟩ := exists_last_marked (forall₂_itemLines (hd.item .doNot) false) hne
  have hlines : d.lines = [HANDOFF_TITLE,[]] ++ scalarNames.map (fun n => scalarLine n.label (d.shown n)) ++ [[]] ++
      sectionNames.dropLast.flatMap (fun s => appendSection s.title (d.items s) (decide (s = .nextExactSteps))) ++
      [Section.doNot.title ++ [':']] ++ itemLines false (d.items .doNot) ++ [[]] := by
    have hnames : sectionNames = sectionNames.dropLast ++ [.doNot] := rfl
    rw [lines,hnames,List.flatMap_append,List.flatMap_singleton,appendSection,
      show decide (Section.doNot = Section.nextExactSteps) = false from rfl]
    simp only [append_assoc,cons_append,nil_append,List.dropLast_concat]
  rw [hfront,← append_assoc] at hlines
  exact ⟨_,l,item,hlines,hmark⟩

theorem rstrip_ended {x : Text} (hne : l ≠ []) (hl : strip l = l) : rstrip (x ++ l ++ ['\n']) = x ++ l := by
  have hlast : ∀ c, (x ++ l).getLast? = some c → isSpace c = false := by
    rw [List.getLast?_append_of_ne_nil _ hne]
    exact fun c hc => Path.last_nonSpace hl hc
  rw [rstrip,List.reverse_append,List.reverse_singleton,List.singleton_append,List.dropWhile_cons_of_pos (by decide),
    Path.dropWhile_back hlast,List.reverse_reverse]

theorem renderHandoff_eq (hd : SingleLines d) : ∃ ls, d.lines = ls ++ [[]] ∧ renderHandoff d = ended ls := by
  obtain ⟨ls,l,item,hlines,hmark⟩ := lines_end hd
  obtain ⟨c,t,hl,-⟩ := hmark.plain
  have hended : ended (ls ++ [l]) = ended ls ++ l ++ ['\n'] := by
    simp [ended]
  refine ⟨ls ++ [l],hlines,?_⟩
  rw [renderHandoff,hlines,intercalate_blank,hended,rstrip_ended (by rw [hl]; exact cons_ne_nil _ _) hmark.stripped]

theorem parse_render (hlower : Lowers lower) (hd : SingleLines d) :
    ∃ extra, parseHandoff lower (renderHandoff d) = .ok ⟨d.shown,fun s => readItems (d.items s),extra⟩ := by
  obtain ⟨ls,hlines,hrender⟩ := renderHandoff_eq hd
  obtain ⟨last,hread⟩ := read_lines hlower hd
  have hsingle : ∀ l ∈ ls, Single l := fun l hl => single_lines hd l (hlines ▸ List.mem_append_left _ hl)
  have hsplit : TextLines.splitlines (renderHandoff d) = ls := hrender ▸ TextLines.splitlines_ended hsingle
  rw [hlines,foldl_append,foldl_cons,List.foldl_nil,Reading.read_blank] at hread
  have htitle : HANDOFF_TITLE ∈ ls := by
    have hmem : HANDOFF_TITLE ∈ d.lines := mem_cons_self
    rw [hlines,mem_append,List.mem_singleton] at hmem
    exact hmem.resolve_right (by decide)
  have hhash : '#' ∈ renderHandoff d :=
    hrender ▸ List.mem_flatMap.mpr ⟨_,htitle,List.mem_append_left _ mem_cons_self⟩
  have hstory : strip (d.shown .story) ≠ [] := by
    rw [shown_stripped hd]
    exact hd.story
  refine ⟨ls.foldl (readExtra lower) Dict.empty,?_⟩
  rw [parseHandoff,if_neg (Path.strip_ne_nil hhash (by decide)),hsplit,hread]
  simp only [Option.getD_some]
  rw [if_neg hstory]
  congr 2
  funext n
  cases n with
  | story => exact shown_stripped hd .story
  | previousWorker =>
    refine if_neg ?_
    by_cases hnone : d.scalar .previousWorker = []
    · simp [shown,hnone]
    · simp [shown,hnone]
  | _ => rfl

theorem handoff_survives_iff (hlower : Lowers lower) (hd : SingleLines d) :
    Survives lower d ↔ d.scalar .previousWorker ≠ [] ∧ ∀ s, d.items s ≠ [] := by
  obtain ⟨extra,hparse⟩ := parse_render hlower hd
  constructor
  · rintro ⟨d',hd',hscalar,hitems,-⟩
    cases hparse.symm.trans hd'
    refine ⟨fun hprevious => ?_,fun s hs => ?_⟩
    · have hnone := congrFun hscalar .previousWorker
      simp [shown,hprevious] at hnone
    · have hplaceholder := congrFun hitems s
      simp [readItems,hs] at hplaceholder
  · rintro ⟨hprevious,hfilled⟩
    have hscalar : d.shown = d.scalar := by
      funext n
      cases n with
      | previousWorker => exact if_neg hprevious
      | _ => rfl
    have hitems : (fun s => readItems (d.items s)) = d.items := funext fun s => if_neg (hfilled s)
    rw [hscalar,hitems] at hparse
    exact ⟨_,hparse,rfl,rfl,rfl⟩

def filled : HandoffDocument where
  scalar
    | .story => "BOD-65 + BOD-66".toList
    | .previousWorker => "Codex".toList
    | _ => []
  items
    | .completed => ["Story: # 1.".toList]
    | _ => ["[x] Completed:".toList]

theorem lowers_ascii : Lowers fun t => t.map toLower := ⟨fun _ _ => rfl,fun _ _ hc _ => List.mem_map_of_mem hc⟩

theorem single_filled : SingleLines filled where
  story := by decide
  scalar := by decide +kernel
  item := by decide +kernel

theorem filled_survives : Survives (fun t => t.map toLower) filled :=
  (handoff_survives_iff lowers_ascii single_filled).mpr ⟨by decide,by decide +kernel⟩

/-- The lists of a new handoff come back with a placeholder in each. -/
theorem new_handoff_changes : ¬ ∀ lower, Lowers lower → ∀ d, SingleLines d → Survives lower d := by
  intro h
  have hd : SingleLines (ofStory "BOD-66".toList) :=
    ⟨by decide,by decide +kernel,fun s item hitem => absurd hitem not_mem_nil⟩
  obtain ⟨d',hd',-,hitems,-⟩ := h _ lowers_ascii _ hd
  obtain ⟨extra,hparse⟩ := parse_render lowers_ascii hd
  cases hparse.symm.trans hd'
  exact cons_ne_nil _ _ (congrFun hitems .completed)

end Verdict.Handoff

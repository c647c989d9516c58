import Mathlib.Data.List.ReduceOption
import Verdict.Basics.Raising
import Verdict.Patch.Repair

/-! # Headers that are read alike

For a plain header the boundary check, the rewriting of new files and git itself arrive at one
file.
-/
namespace Verdict.Patch
open GitPatch Path WorkUnit Raising

variable {literalEval : Text → Literal} {g : Reading} {u : WorkUnit} {diff : Diff} {paths : List Text}
  {l p t raw rest side : Text}

structure Normal (p : Text) : Prop where
  normal : normalizeOwnedPath p = .ok p
  stripped : strip p = p
  noReturn : '\r' ∉ p

theorem isNormalName_iff : isNormalName p = true ↔ Normal p := by
  rw [isNormalName,decide_eq_true_iff]
  exact ⟨fun ⟨hn,hs,hr⟩ => ⟨hn,hs,hr⟩,fun h => ⟨h.normal,h.stripped,h.noReturn⟩⟩

theorem Normal.ne_nil (h : Normal p) : p ≠ [] := by
  rintro rfl
  exact absurd h.normal (by decide)

theorem Normal.owned (h : Normal p) (howns : u.owns p = true) : u.Owned p := by
  rw [owns,h.normal] at howns
  obtain ⟨habs,hjoin⟩ := normalizeOwnedPath_ok h.normal
  rw [h.stripped] at habs hjoin
  exact ⟨habs,hjoin ▸ of_decide_eq_true howns⟩

def sides : List Text := [['a','/'],['b','/']]

theorem plain_side (hside : startsWith "--- " l = true ∨ startsWith "+++ " l = true) (h : plain l = true) :
    ∃ side ∈ sides, ∃ p, Normal p ∧ beforeTab (l.drop 4) = side ++ p ∧ ¬ banner <:+ side ++ p := by
  have hcond : (startsWith "--- " l || startsWith "+++ " l) = true := Bool.or_eq_true_iff.mpr hside
  simp only [plain,hcond,if_true,Bool.and_eq_true,Bool.or_eq_true,Bool.not_eq_true',decide_eq_false_iff_not] at h
  obtain ⟨⟨hstart,hbanner⟩,hnormal⟩ := h
  have hmk : ∀ side ∈ sides, ∀ p, beforeTab (l.drop 4) = side ++ p → side.length = 2 →
      ∃ side ∈ sides, ∃ p, Normal p ∧ beforeTab (l.drop 4) = side ++ p ∧ ¬ banner <:+ side ++ p := by
    intro side hside p hp hlen
    refine ⟨side,hside,p,?_,hp,hp ▸ hbanner⟩
    rw [hp,← hlen,List.drop_left] at hnormal
    exact isNormalName_iff.mp hnormal
  rcases hstart with hstart | hstart
  · obtain ⟨p,hp⟩ := startsWith_iff.mp hstart
    exact hmk ['a','/'] (by simp [sides]) p hp rfl
  · obtain ⟨p,hp⟩ := startsWith_iff.mp hstart
    exact hmk ['b','/'] (by simp [sides]) p hp rfl

theorem plain_move (h : plain l = true) (hno : (startsWith "--- " l || startsWith "+++ " l) = false) :
    ∃ word, movers.find? (startsWith · l) = some word ∧ Normal (beforeTab (l.drop word.length)) ∧
      startsWith "a/" (beforeTab (l.drop word.length)) = false ∧ startsWith "b/" (beforeTab (l.drop word.length)) = false ∧
      (beforeTab (l.drop word.length)).head? ≠ some '"' ∧ ¬ banner <:+ beforeTab (l.drop word.length) := by
  simp only [plain,hno,Bool.false_eq_true,if_false] at h
  split at h
  · rename_i word hword
    simp only [Bool.and_eq_true,Bool.not_eq_true',decide_eq_false_iff_not,decide_eq_true_eq] at h
    obtain ⟨⟨⟨⟨ha,hb⟩,hquote⟩,hbanner⟩,hnormal⟩ := h
    exact ⟨word,hword,isNormalName_iff.mp hnormal,ha,hb,hquote,hbanner⟩
  · cases h

theorem beforeTab_idem (t : Text) : beforeTab (beforeTab t) = beforeTab t := List.takeWhile_idem

theorem field_noReturn (h : '\r' ∉ beforeTab t) : field t = beforeTab t := by
  induction t with
  | nil => rfl
  | cons c t ih =>
    by_cases htab : c = '\t'
    · simp [field,beforeTab,htab]
    · have hcons : beforeTab (c :: t) = c :: beforeTab t := by simp [beforeTab,htab]
      rw [hcons,List.mem_cons,not_or] at h
      have hc : c ≠ '\r' := fun hc => h.1 hc.symm
      rw [hcons,← ih h.2]
      simp [field,htab,hc]

variable {c : Char}

theorem headerField_raw (hc : isBlank c = false) (hraw : beforeTab t = c :: raw) :
    headerField (' ' :: t) = some (c :: raw) := by
  cases t with
  | nil => cases hraw
  | cons d t =>
    have hd : d = c ∧ beforeTab t = raw := by
      have htab : d ≠ '\t' := by
        rintro rfl
        simp [beforeTab] at hraw
      have hcons : beforeTab (d :: t) = d :: beforeTab t := by simp [beforeTab,htab]
      rw [hcons] at hraw
      exact List.cons.inj hraw
    obtain ⟨rfl,rfl⟩ := hd
    have hblank : (' ' :: d :: t).takeWhile isBlank = [' '] := by
      rw [List.takeWhile_cons_of_pos (by decide),List.takeWhile_cons_of_neg (by rw [hc]; decide)]
    have hfield : (' ' :: d :: t).dropWhile isBlank = d :: t := by
      rw [List.dropWhile_cons_of_pos (by decide),List.dropWhile_cons_of_neg (by rw [hc]; decide)]
    rw [headerField,hblank,hfield]
    rfl

theorem banner_suffix (h : ¬ banner <:+ t) : removeBanner t = t := if_neg h

theorem blank_space (h : isSpace c = false) : isBlank c = false := by
  by_contra hb
  have hc : c = ' ' ∨ c = '\t' := of_decide_eq_true (eq_true_of_ne_false hb)
  rcases hc with rfl | rfl
  · exact absurd h (by decide)
  · exact absurd h (by decide)

theorem headerPath_raw (hquote : raw.head? ≠ some '"') (hbanner : ¬ banner <:+ raw) (htab : beforeTab raw = raw)
    (hdev : raw ≠ devNull) (hp : Normal (stripSide raw)) : headerPath literalEval raw = .ok (some (stripSide raw)) := by
  have hquoted : isQuoted raw = false := by simp [isQuoted,hquote]
  have hcandidate : candidateOf literalEval raw = .ok raw := by
    rw [candidateOf,banner_suffix hbanner,if_neg (by rw [hquoted]; decide),htab]
  rw [headerPath,hcandidate]
  dsimp only
  rw [if_neg hdev,hp.normal]

theorem parse_path (h : parsePatchPaths literalEval diff = .ok paths) (hl : l ∈ diff) (hraw : headerRaw l = some raw)
    (hpath : headerPath literalEval raw = .ok (some p)) : p ∈ paths := by
  simp only [parsePatchPaths] at h
  split at h
  · cases h
  · rename_i found hfound
    split at h
    · cases h
    · cases h
      obtain ⟨y,hy,hval⟩ := mem_mapM hfound (List.mem_filterMap.mpr ⟨l,hl,hraw⟩)
      rw [hpath] at hval
      cases hval
      exact mem_sorted.mpr (List.reduceOption_mem_iff.mpr hy)

theorem headerRaw_word (before after : List String) (word : String) (hkeywords : keywords = before ++ word :: after)
    (hbefore : ∀ w ∈ before, startsWith w l = false) (hword : startsWith word l = true)
    (hfield : headerField (l.drop word.length) = some raw) : headerRaw l = some raw := by
  rw [headerRaw,hkeywords]
  clear hkeywords
  induction before with
  | nil => rw [List.nil_append,List.findSome?_cons,if_pos hword,hfield]
  | cons w before ih =>
    obtain ⟨hw,hbefore⟩ := List.forall_mem_cons.mp hbefore
    rw [List.cons_append,List.findSome?_cons,if_neg (by rw [hw]; decide)]
    exact ih hbefore

theorem headerRaw_side (hc : isBlank c = false) (hside : startsWith "--- " l = true ∨ startsWith "+++ " l = true)
    (hraw : beforeTab (l.drop 4) = c :: raw) : headerRaw l = some (c :: raw) := by
  rcases hside with hside | hside
  · obtain ⟨x,rfl⟩ := startsWith_iff.mp hside
    exact headerRaw_word [] _ "---" rfl (by simp) rfl (headerField_raw hc hraw)
  · obtain ⟨x,rfl⟩ := startsWith_iff.mp hside
    exact headerRaw_word ["---"] _ "+++" rfl (List.forall_mem_singleton.mpr rfl) rfl (headerField_raw hc hraw)

theorem headerRaw_move {word : String} (hc : isBlank c = false) (hmem : word ∈ movers)
    (hword : startsWith word l = true) (hraw : beforeTab (l.drop word.length) = c :: raw) : headerRaw l = some (c :: raw) := by
  obtain ⟨x,rfl⟩ := startsWith_iff.mp hword
  simp only [movers,List.mem_cons,List.not_mem_nil,or_false] at hmem
  rcases hmem with rfl | rfl | rfl | rfl
  · exact headerRaw_word ["---","+++"] _ "rename from" rfl (by simp; exact ⟨rfl,rfl⟩) rfl (headerField_raw hc hraw)
  · exact headerRaw_word ["---","+++","rename from"] _ "rename to" rfl (by simp; exact ⟨rfl,rfl,rfl⟩) rfl (headerField_raw hc hraw)
  · exact headerRaw_word ["---","+++","rename from","rename to"] _ "copy from" rfl (by simp; exact ⟨rfl,rfl,rfl,rfl⟩) rfl
      (headerField_raw hc hraw)
  · exact headerRaw_word ["---","+++","rename from","rename to","copy from"] _ "copy to" rfl
      (by simp; exact ⟨rfl,rfl,rfl,rfl,rfl⟩) rfl (headerField_raw hc hraw)

theorem diffSectionPath_raw (hfirst : ∃ c raw', raw = c :: raw' ∧ isSpace c = false ∧ c ≠ '"')
    (hlast : ∀ c, raw.getLast? = some c → isSpace c = false) (hraw : beforeTab t = raw) (hdev : raw ≠ devNull) :
    diffSectionPath literalEval t = .ok (some (stripSide raw)) := by
  obtain ⟨c,raw',hcons,hc,hquote⟩ := hfirst
  have hsplit : t = raw ++ t.dropWhile (fun c => decide (c ≠ '\t')) := by
    rw [← hraw]
    exact (List.takeWhile_append_dropWhile ..).symm
  obtain ⟨rest,hstrip,hrest⟩ := strip_append (fun d hd => by
    rw [hcons] at hd
    cases hd
    exact hc) hlast (by rw [hcons]; exact List.cons_ne_nil _ _) (t.dropWhile (fun c => decide (c ≠ '\t')))
  rw [← hsplit] at hstrip
  have hnotab : ∀ d ∈ raw, decide (d ≠ '\t') = true := fun d hd => by
    rw [← hraw,beforeTab] at hd
    exact List.mem_takeWhile_imp (p := fun c => decide (c ≠ '\t')) hd
  have hcut : beforeTab (raw ++ rest) = raw := by
    rw [beforeTab,List.takeWhile_append_of_pos hnotab]
    have hnone : rest.takeWhile (fun c => decide (c ≠ '\t')) = [] := by
      cases rest with
      | nil => rfl
      | cons d rest =>
        obtain ⟨more,hmore⟩ := hrest
        have hd := List.head?_dropWhile_not (fun c => decide (c ≠ '\t')) t
        rw [← hmore] at hd
        exact List.takeWhile_cons_of_neg (by simpa using hd)
    rw [hnone,List.append_nil]
  have hquoted : isQuoted (strip t) = false := by
    have hhead : (strip t).head? = some c := by rw [hstrip,hcons]; rfl
    simp [isQuoted,hhead,hquote]
  rw [hstrip] at hquoted
  simp only [diffSectionPath,hstrip,hquoted,Bool.false_eq_true,if_false,Except.map,Option.bind_some,hcut,hdev]

theorem stripFirst_side (hside : side ∈ sides) (p : Text) : stripFirst (side ++ p) = some p := by
  rcases List.mem_pair.mp hside with rfl | rfl <;> rfl

theorem stripSide_side (hside : side ∈ sides) (p : Text) : stripSide (side ++ p) = p := by
  rcases List.mem_pair.mp hside with rfl | rfl <;> rfl

theorem side_cons (hside : side ∈ sides) (p : Text) :
    ∃ c raw, side ++ p = c :: raw ∧ isSpace c = false ∧ c ≠ '"' ∧ c ≠ '/' := by
  rcases List.mem_pair.mp hside with rfl | rfl
  · exact ⟨'a','/' :: p,rfl,by decide,by decide,by decide⟩
  · exact ⟨'b','/' :: p,rfl,by decide,by decide,by decide⟩

theorem ne_devNull (hc : c ≠ '/') (t : Text) : c :: t ≠ devNull := fun h => hc (List.cons.inj h).1

theorem side_read (literalEval : Text → Literal) (g : Reading)
    (hside : startsWith "--- " l = true ∨ startsWith "+++ " l = true) (h : plain l = true) :
    ∃ p, Normal p ∧ (∀ diff paths, parsePatchPaths literalEval diff = .ok paths → l ∈ diff → p ∈ paths) ∧
      g.sideFile l = [⟨l,p⟩] ∧ diffSectionPath literalEval (l.drop 4) = .ok (some p) ∧ '\t' ∉ p := by
  obtain ⟨side,hmem,p,hp,hraw,hbanner⟩ := plain_side hside h
  obtain ⟨c,raw,hcons,hspace,hquote,hslash⟩ := side_cons hmem p
  have hdev : side ++ p ≠ devNull := hcons ▸ ne_devNull hslash raw
  have hstripped : stripSide (side ++ p) = p := stripSide_side hmem p
  refine ⟨p,hp,?_,?_,?_,?_⟩
  · intro diff paths hparse hl
    have hread : headerPath literalEval (side ++ p) = .ok (some (stripSide (side ++ p))) :=
      headerPath_raw (by rw [hcons,List.head?_cons]; exact fun hc => hquote (Option.some.inj hc)) hbanner
        (by rw [← hraw,beforeTab_idem]) hdev (hstripped.symm ▸ hp)
    rw [hstripped] at hread
    have hheader : headerRaw l = some (side ++ p) := by
      rw [hcons] at hraw ⊢
      exact headerRaw_side (blank_space hspace) hside hraw
    exact parse_path hparse hl hheader hread
  · have hnoReturn : '\r' ∉ side ++ p := by
      rw [List.mem_append,not_or]
      exact ⟨by rcases List.mem_pair.mp hmem with rfl | rfl <;> decide,hp.noReturn⟩
    have hhead : (l.drop 4).head? ≠ some '"' := by
      intro hq
      obtain ⟨t,ht⟩ := List.head?_eq_some_iff.mp hq
      rw [ht,hcons] at hraw
      exact hquote (List.cons.inj hraw).1.symm
    have hname : g.nameOf (l.drop 4) = some (side ++ p) := by
      rw [Reading.nameOf,if_neg hhead,field_noReturn (hraw ▸ hnoReturn),hraw]
    simp only [Reading.sideFile,hname]
    rw [if_neg (by exact hdev),stripFirst_side hmem p]
    rfl
  · rw [← hstripped]
    refine diffSectionPath_raw ⟨c,raw,hcons,hspace,hquote⟩ (fun d hd => ?_) hraw hdev
    rw [List.getLast?_append_of_ne_nil _ hp.ne_nil] at hd
    exact last_nonSpace hp.stripped hd
  · intro htab
    have hmem' : '\t' ∈ beforeTab (l.drop 4) := hraw ▸ List.mem_append_right _ htab
    exact absurd (List.mem_takeWhile_imp (p := fun c => decide (c ≠ '\t')) hmem') (by decide)

theorem move_read (literalEval : Text → Literal) (g : Reading)
    (hno : (startsWith "--- " l || startsWith "+++ " l) = false) (h : plain l = true) :
    ∃ p, Normal p ∧ (∀ diff paths, parsePatchPaths literalEval diff = .ok paths → l ∈ diff → p ∈ paths) ∧
      g.moved l = [⟨l,p⟩] := by
  obtain ⟨word,hfind,hp,ha,hb,hquote,hbanner⟩ := plain_move h hno
  have hword : startsWith word l = true := List.find?_some (p := (startsWith · l)) hfind
  generalize hraw : beforeTab (l.drop word.length) = p at hp ha hb hquote hbanner
  refine ⟨p,hp,?_,?_⟩
  · intro diff paths hparse hl
    obtain ⟨c,raw,rfl⟩ := List.exists_cons_of_ne_nil hp.ne_nil
    have hstripped : stripSide (c :: raw) = c :: raw := by
      rw [stripSide,ha,hb]
      rfl
    have hdev : c :: raw ≠ devNull := by
      intro hdev
      have hnormal := hp.normal
      rw [hdev] at hnormal
      exact absurd hnormal (by decide)
    have hread : headerPath literalEval (c :: raw) = .ok (some (stripSide (c :: raw))) :=
      headerPath_raw hquote hbanner (by rw [← hraw,beforeTab_idem]) hdev (hstripped.symm ▸ hp)
    rw [hstripped] at hread
    exact parse_path hparse hl
      (headerRaw_move (blank_space (head_nonSpace hp.stripped rfl)) (List.mem_of_find?_eq_some hfind) hword hraw) hread
  · have hhead : (l.drop word.length).head? ≠ some '"' := by
      intro hq
      obtain ⟨t,ht⟩ := List.head?_eq_some_iff.mp hq
      rw [ht] at hraw
      exact hquote (by rw [← hraw]; rfl)
    simp only [Reading.moved,hfind]
    rw [Reading.nameOf,if_neg hhead,field_noReturn (hraw ▸ hp.noReturn),hraw]
    rfl

theorem side_stays (hside : startsWith "--- " l = true ∨ startsWith "+++ " l = true) : isMove l = false := by
  rcases hside with hside | hside
  · obtain ⟨x,rfl⟩ := startsWith_iff.mp hside
    rfl
  · obtain ⟨x,rfl⟩ := startsWith_iff.mp hside
    rfl

theorem plain_owned {f : Found} (hparse : parsePatchPaths literalEval diff = .ok paths)
    (howned : ∀ p ∈ paths, u.owns p = true) (hmem : f.line ∈ diff) (hheader : g.Header f) (h : plain f.line = true) :
    u.Owned f.name := by
  cases hcond : (startsWith "--- " f.line || startsWith "+++ " f.line) with
  | true =>
    have hside := Bool.or_eq_true_iff.mp hcond
    obtain ⟨p,hp,hread,hfile,-,-⟩ := side_read literalEval g hside h
    rcases hheader with ⟨-,hf⟩ | ⟨hmove,-⟩
    · rw [hfile,List.mem_singleton] at hf
      rw [hf]
      exact hp.owned (howned p (hread diff paths hparse hmem))
    · rw [side_stays hside] at hmove
      cases hmove
  | false =>
    obtain ⟨p,hp,hread,hfile⟩ := move_read literalEval g hcond h
    rcases hheader with ⟨hside,-⟩ | ⟨-,hf⟩
    · exact absurd (Bool.or_eq_true_iff.mpr hside) (by rw [hcond]; decide)
    · rw [hfile,List.mem_singleton] at hf
      rw [hf]
      exact hp.owned (howned p (hread diff paths hparse hmem))

end Verdict.Patch

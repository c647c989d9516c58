import Verdict.Contracts.Ownership
import Verdict.Salvage.Salvage

/-! # Two tests of ownership

`_is_owned` takes a path reported by git as it stands, `WorkNode.owns` cleans it first: it strips white
space and reads backslashes as slashes. They agree on a path for every node exactly when the cleaning
leaves it alone, or nothing can own it.
-/
namespace Verdict.Salvage
open Path
open List (all_eq_true append_assoc count intercalate_cons_of_ne_nil intercalate_splitOn
  length_append map_cons mem_of_mem_head? splitOn_ne_nil sum_cons)
open String (ext_iff ofList toList_ofList)
open WorkGraph (owns_iff)

def GoodPath (p : Text) : Prop := (p.splitOn '/').all goodName = true

instance (p : Text) : Decidable (GoodPath p) := inferInstanceAs (Decidable (_ = _))

def Below (entry p : Text) : Prop := p = entry ∨ entry ++ ['/'] <+: p

theorem splitOn_below {entry rest : Text} :
    (entry ++ ['/'] ++ rest).splitOn '/' = entry.splitOn '/' ++ rest.splitOn '/' := by
  rw [append_assoc]
  exact List.splitOn_append_cons_self _ _

theorem intercalate_append {xs ys : List Text} (hx : xs ≠ []) (hy : ys ≠ []) :
    ['/'].intercalate (xs ++ ys) = ['/'].intercalate xs ++ '/' :: ['/'].intercalate ys := by
  induction xs with
  | nil => exact absurd rfl hx
  | cons x xs ih =>
    cases xs with
    | nil => simp [intercalate_cons_of_ne_nil hy]
    | cons x' xs =>
      rw [List.cons_append,intercalate_cons_of_ne_nil (by simp),intercalate_cons_of_ne_nil (by simp),
        ih (by simp)]
      simp

variable {p : Text}

theorem GoodPath.ne_nil (h : GoodPath p) : p ≠ [] := by
  rintro rfl
  revert h
  decide

variable {x : Text}

theorem GoodPath.good (h : GoodPath p) (hx : x ∈ p.splitOn '/') :
    x ≠ [] ∧ x ≠ ['.'] ∧ x ≠ ['.','.'] ∧ '/' ∉ x ∧ '\x00' ∉ x := of_decide_eq_true (all_eq_true.mp h x hx)

theorem GoodPath.parts {p : Text} (h : GoodPath p) : parts p = p.splitOn '/' :=
  List.filter_eq_self.mpr fun _ hx => decide_eq_true ⟨(h.good hx).1,(h.good hx).2.1⟩

theorem GoodPath.join_parts (h : GoodPath p) : join (Path.parts p) = p := by
  rw [h.parts,join,if_neg (splitOn_ne_nil '/' p),intercalate_splitOn]

theorem GoodPath.zero (h : GoodPath p) : '\x00' ∉ p := by
  intro hz
  obtain ⟨x,hx,hm⟩ := exists_mem_splitOn (c := '/') (by decide) hz
  exact (h.good hx).2.2.2.2 hm

theorem GoodPath.relative (h : GoodPath p) : isAbsolute p = false := by
  cases p with
  | nil => rfl
  | cons c rest =>
    refine decide_eq_false fun hc => ?_
    obtain rfl : c = '/' := Option.some.inj hc
    have hnil : [] ∈ ('/' :: rest).splitOn '/' := by
      rw [List.splitOn_cons_eq_if_modifyHead]
      simp
    exact (h.good hnil).1 rfl

theorem GoodPath.rstrip (h : GoodPath p) : rstripSlash p = p := by
  unfold rstripSlash
  rcases List.eq_nil_or_concat p with rfl | ⟨xs,c,rfl⟩
  · rfl
  · have hc : c ≠ '/' := by
      rintro rfl
      have hnil : [] ∈ (xs.concat '/').splitOn '/' := by
        rw [List.concat_eq_append,List.splitOn_append_cons_self]
        simp
      exact (h.good hnil).1 rfl
    simp [hc]

theorem GoodPath.safe (h : GoodPath p) : safeRelativePath p = some p := by
  have hparts : (p.splitOn '/').any (fun part => part = [] ∨ part = ['.'] ∨ part = ['.','.']) = false := by
    refine List.any_eq_false.mpr fun x hx => ?_
    have hgood := h.good hx
    simp [hgood.1,hgood.2.1,hgood.2.2.1]
  simp only [safeRelativePath,h.rstrip,h.ne_nil,h.zero,h.relative,hparts,h.join_parts,or_self,if_false,
    Bool.false_eq_true]

/-- What `_safe_relative_path` returns is the path without slashes at its end. -/
theorem safe_eq_some {r s : Text} (h : safeRelativePath r = some s) : s = rstripSlash r ∧ GoodPath s := by
  simp only [safeRelativePath] at h
  split at h
  · cases h
  · rename_i hr
    split at h
    · cases h
    · split at h
      · cases h
      · rename_i hany
        have hgood : GoodPath (rstripSlash r) := by
          refine all_eq_true.mpr fun x hx => decide_eq_true ?_
          have hx' := List.any_eq_false.mp (Bool.not_eq_true _ ▸ hany) x hx
          simp only [decide_eq_true_eq,not_or] at hx'
          refine ⟨hx'.1,hx'.2.1,hx'.2.2,not_mem_of_mem_splitOn hx,fun hz => hr (.inr ?_)⟩
          have hmem := mem_of_mem_splitOn hx hz
          exact List.mem_reverse.mp ((List.dropWhile_suffix _).subset (List.mem_reverse.mp hmem))
        have hs : s = rstripSlash r := (Option.some.inj h).symm.trans hgood.join_parts
        exact ⟨hs,hs ▸ hgood⟩

variable {o : Text}

theorem below_iff_take (h : GoodPath p) :
    Below o p ↔ o = p ∨ ∃ i ∈ List.range' 1 ((p.splitOn '/').length - 1), o = ['/'].intercalate ((p.splitOn '/').take i) := by
  constructor
  · rintro (rfl | ⟨rest,rfl⟩)
    · exact .inl rfl
    · refine .inr ⟨(o.splitOn '/').length,?_,?_⟩
      · have ho := List.length_pos_iff.mpr (splitOn_ne_nil '/' o)
        have hrest := List.length_pos_iff.mpr (splitOn_ne_nil '/' rest)
        simp only [splitOn_below,length_append,List.mem_range'_1]
        omega
      · rw [splitOn_below,List.take_left',intercalate_splitOn]
        rfl
  · rintro (rfl | ⟨i,hi,rfl⟩)
    · exact .inl rfl
    · rw [List.mem_range'_1] at hi
      have htake : (p.splitOn '/').take i ≠ [] := by
        rw [Ne,List.take_eq_nil_iff,not_or]
        exact ⟨by omega,splitOn_ne_nil '/' p⟩
      have hdrop : (p.splitOn '/').drop i ≠ [] := by
        rw [Ne,List.drop_eq_nil_iff]
        omega
      refine .inr ⟨['/'].intercalate ((p.splitOn '/').drop i),?_⟩
      rw [append_assoc]
      refine (intercalate_append htake hdrop).symm.trans ?_
      rw [List.take_append_drop,intercalate_splitOn]

theorem isOwned_iff (h : GoodPath p) (owned : List Text) :
    isOwned p owned = true ↔ ∃ o ∈ owned, Below o p := by
  simp only [isOwned,h.safe,decide_eq_true_eq,List.any_eq_true,below_iff_take h]
  constructor
  · rintro (hm | ⟨i,hi,hm⟩)
    · exact ⟨p,hm,.inl rfl⟩
    · exact ⟨_,hm,.inr ⟨i,hi,rfl⟩⟩
  · rintro ⟨o,hm,rfl | ⟨i,hi,rfl⟩⟩
    · exact .inl hm
    · exact .inr ⟨i,hi,hm⟩

def ownedTexts (n : WorkNode) : List Text := n.ownedFiles.map String.toList

def OwnedBy (n : WorkNode) (p : Text) : Prop := ∃ o ∈ n.ownedFiles, Below o.toList p

theorem Below.good (h : Below o p) (hp : GoodPath p) : GoodPath o := by
  rcases h with rfl | ⟨rest,rfl⟩
  · exact hp
  · rw [GoodPath,splitOn_below,List.all_append,Bool.and_eq_true] at hp
    exact hp.1

variable {n : WorkNode}

theorem isOwned_node (h : GoodPath p) : isOwned p (safeOwnedSet (ownedTexts n)) = true ↔ OwnedBy n p := by
  rw [isOwned_iff h]
  constructor
  · rintro ⟨s,hs,hbelow⟩
    obtain ⟨_,ho,hsafe⟩ := List.mem_filterMap.mp hs
    obtain ⟨o,hn,rfl⟩ := List.mem_map.mp ho
    obtain ⟨rfl,_⟩ := safe_eq_some hsafe
    refine ⟨o,hn,?_⟩
    rw [rstripSlash,WorkGraph.rstrip_of_normal (n.ownedNormal o hn)] at hbelow
    exact hbelow
  · rintro ⟨o,hn,hbelow⟩
    exact ⟨o.toList,List.mem_filterMap.mpr ⟨_,List.mem_map_of_mem hn,(hbelow.good h).safe⟩,hbelow⟩

/-! ## When the two tests agree -/

/-- A path as git reports it: names of a file system, and quoted as a whole if it holds a backslash. -/
structure Reported (p : Text) : Prop where
  good : GoodPath p
  quoted : '\\' ∈ p → ∃ name, p = '"' :: name ++ ['"']

/-- Cleaning leaves the path alone; or it is quoted, and neither test lets anything own it. -/
def Straight (p : Text) : Prop :=
  if '\\' ∈ p then (∃ x, (p.splitOn '/').head? = some x ∧ '\\' ∈ x) ∧ ['.','.'] ∈ parts (replaceBackslash p)
  else strip p = p

def ownerOf (o : String) (h : isNormal o = true) : WorkNode where
  nodeId := "n"
  objective := "o"
  ownedFiles := [o]
  verificationCommand := ["make"]
  ownedNormal := by simpa using h
  contextNormal := WorkNode.normal_nil
  implementOwns := WorkNode.implement_one o
  implementVerifies := WorkNode.implement_one "make"
  notSelf := List.not_mem_nil

theorem normal_of_good (h : GoodPath p) (hb : '\\' ∉ p) : isNormal (ofList p) = true := by
  refine decide_eq_true (.inr (all_eq_true.mpr fun x hx => ?_))
  rw [toList_ofList] at hx
  have hgood := h.good hx
  exact decide_eq_true ⟨hgood.1,hgood.2.1,hgood.2.2.1,fun hm => hb (mem_of_mem_splitOn hx hm)⟩

theorem ownedBy_ownerOf {o : String} {h : isNormal o = true} :
    OwnedBy (ownerOf o h) p ↔ Below o.toList p := by
  simp [OwnedBy,ownerOf]

theorem owns_ownerOf {o : String} {h : isNormal o = true} : (ownerOf o h).owns (ofList p) = true ↔ ∃ c,
    normPath (ofList p) = .ok c ∧ Below o.toList c.toList := by
  simp only [owns_iff,ownerOf,List.mem_singleton,exists_eq_left,Below,dirPrefix]
  simp only [ext_iff]

variable {c : String}

/-- `_norm_path` prints the components of the stripped text. -/
theorem normPath_ok (h : normPath (ofList p) = .ok c) :
    replaceBackslash (strip p) ≠ [] ∧ c.toList = join (parts (replaceBackslash (strip p))) := by
  simp only [normPath,toList_ofList] at h
  split at h
  · cases h
  · rename_i hok
    refine ⟨fun hnil => hok (.inl hnil),?_⟩
    rw [← Except.ok.inj h,toList_ofList]

theorem strip_sublist (p : Text) : (strip p).Sublist p := by
  have h := ((List.dropWhile_suffix isSpace (l := (p.dropWhile isSpace).reverse)).sublist).reverse
  rw [List.reverse_reverse] at h
  exact h.trans (List.dropWhile_suffix isSpace).sublist

theorem length_intercalate (x : List Char) (xs : List (List Char)) :
    (['/'].intercalate (x :: xs)).length = x.length + (xs.map fun y => y.length + 1).sum := by
  induction xs generalizing x with
  | nil => simp
  | cons y ys ih =>
    rw [intercalate_cons_of_ne_nil (by simp),length_append,length_append,ih]
    simp only [List.length_singleton,map_cons,sum_cons]
    omega

theorem length_join_parts {text : Text} (h : text ≠ []) : (join (parts text)).length ≤ text.length := by
  have hlen : ∀ xs : List (List Char), xs ≠ [] → (['/'].intercalate xs).length + 1 = (xs.map fun y => y.length + 1).sum := by
    intro xs hne
    cases xs with
    | nil => exact absurd rfl hne
    | cons x xs =>
      rw [length_intercalate]
      simp only [map_cons,sum_cons]
      omega
  unfold join
  split
  · exact List.length_pos_iff.mpr h
  · rename_i hparts
    have hsub : ((parts text).map fun y => y.length + 1).sum ≤ ((text.splitOn '/').map fun y => y.length + 1).sum :=
      ((List.filter_sublist (l := text.splitOn '/')).map _).sum_le_sum (by simp)
    have hall := hlen _ (splitOn_ne_nil '/' text)
    rw [intercalate_splitOn] at hall
    have hkept := hlen _ hparts
    omega

theorem strip_eq_of_agree (h : GoodPath p) (hb : '\\' ∉ p)
    (hagree : ∀ n : WorkNode, OwnedBy n p ↔ n.owns (ofList p) = true) : strip p = p := by
  have hnormal := normal_of_good h hb
  have hown := (hagree (ownerOf _ hnormal)).mp (ownedBy_ownerOf.mpr (.inl (by simp)))
  obtain ⟨c,hc,hbelow⟩ := owns_ownerOf.mp hown
  obtain ⟨hne,hlist⟩ := normPath_ok hc
  have hle : p.length ≤ c.toList.length := by
    rw [toList_ofList] at hbelow
    rcases hbelow with heq | hpre
    · exact heq ▸ le_rfl
    · exact (by simp : p.length ≤ (p ++ ['/']).length).trans hpre.length_le
  have hshort : c.toList.length ≤ (strip p).length := by
    rw [hlist]
    refine (length_join_parts hne).trans ?_
    simp [replaceBackslash]
  exact (strip_sublist p).eq_of_length_le (hle.trans hshort)

theorem normPath_straight (h : GoodPath p) (hb : '\\' ∉ p) (hs : strip p = p) :
    normPath (ofList p) = .ok (ofList p) := by
  have hup : ['.','.'] ∉ parts p := by
    rw [h.parts]
    exact fun hm => (h.good hm).2.2.1 rfl
  simp only [normPath,toList_ofList,hs,replaceBackslash_of_not_mem hb,h.ne_nil,h.relative,hup,
    h.join_parts,or_self,if_false,Bool.false_eq_true]

/-! A quoted path holds its quotes through any cleaning. -/

theorem count_intercalate (xs : List Text) :
    (['/'].intercalate xs).count '"' = (xs.map (List.count '"')).sum := by
  induction xs with
  | nil => rfl
  | cons x xs ih =>
    cases xs with
    | nil => simp
    | cons y ys =>
      rw [intercalate_cons_of_ne_nil (by simp),List.count_append,List.count_append,ih]
      simp

theorem count_join_parts (text : Text) : (join (parts text)).count '"' = text.count '"' := by
  have hdrop : ∀ xs : List Text, ((xs.filter fun p => decide (p ≠ [] ∧ p ≠ ['.'])).map (count '"')).sum =
      (xs.map (List.count '"')).sum := by
    intro xs
    induction xs with
    | nil => rfl
    | cons x xs ih =>
      rw [List.filter_cons]
      split
      · simp only [map_cons,sum_cons,ih]
      · rename_i hx
        have hzero : x.count '"' = 0 := by
          simp only [decide_eq_true_eq,not_and_or,not_not] at hx
          rcases hx with rfl | rfl <;> rfl
        simp only [List.map_cons,List.sum_cons,ih,hzero,Nat.zero_add]
  have hjoin : (join (parts text)).count '"' = ((parts text).map (count '"')).sum := by
    unfold join
    split
    · rename_i hnil
      rw [hnil]
      rfl
    · exact count_intercalate _
  rw [hjoin,parts,hdrop,← count_intercalate,List.intercalate_splitOn]

theorem count_replaceBackslash (text : Text) : (replaceBackslash text).count '"' = text.count '"' := by
  induction text with
  | nil => rfl
  | cons c rest ih =>
    have hc : replaceBackslash (c :: rest) = (if c = '\\' then '/' else c) :: replaceBackslash rest := rfl
    rw [hc,List.count_cons,List.count_cons,ih]
    split
    · rename_i hslash
      subst hslash
      rfl
    · rfl

theorem strip_quoted (name : Text) : strip ('"' :: name ++ ['"']) = '"' :: name ++ ['"'] := by
  have hquote : isSpace '"' = false := by decide
  simp [strip,hquote]

theorem count_lt_of_below {c name : Text} (h : c ++ ['/'] <+: '"' :: name ++ ['"']) :
    c.count '"' < ('"' :: name ++ ['"']).count '"' := by
  obtain ⟨rest,hrest⟩ := h
  rcases List.eq_nil_or_concat rest with rfl | ⟨body,last,rfl⟩
  · rw [List.append_nil] at hrest
    have := List.append_inj_right' hrest rfl
    simp at this
  · rw [List.concat_eq_append,← append_assoc] at hrest
    have hlast : last = '"' := by simpa using List.append_inj_right' hrest rfl
    rw [← hrest,hlast]
    simp only [List.count_append,List.count_singleton_self]
    omega

theorem normPath_quoted (h : Reported p) (hb : '\\' ∈ p)
    (hc : normPath (String.ofList p) = .ok c) : ¬ Below c.toList p := by
  obtain ⟨name,rfl⟩ := h.quoted hb
  obtain ⟨_,hlist⟩ := normPath_ok hc
  rw [strip_quoted] at hlist
  rintro (heq | hpre)
  · have hnormal := normPath_normal hc
    simp only [isNormal,decide_eq_true_eq] at hnormal
    rcases hnormal with hdot | hall
    · exact absurd (heq.trans hdot) (by simp)
    · exact not_mem_backslash_of_good hall (heq ▸ hb)
  · have hlt := count_lt_of_below hpre
    rw [hlist,count_join_parts,count_replaceBackslash] at hlt
    exact lt_irrefl _ hlt

/-- A quoted path is refused by `_norm_path` exactly when it holds a `..` among its pieces. -/
theorem normPath_quoted_iff (h : Reported p) (hb : '\\' ∈ p) :
    (∃ c, normPath (String.ofList p) = .ok c) ↔ ['.','.'] ∉ parts (replaceBackslash p) := by
  obtain ⟨name,rfl⟩ := h.quoted hb
  have hhead : replaceBackslash ('"' :: name ++ ['"']) = '"' :: replaceBackslash (name ++ ['"']) := rfl
  have hne : replaceBackslash ('"' :: name ++ ['"']) ≠ [] := by
    rw [hhead]
    exact List.cons_ne_nil _ _
  have habs : isAbsolute (replaceBackslash ('"' :: name ++ ['"'])) = false := by
    rw [hhead]
    rfl
  simp only [normPath,toList_ofList,strip_quoted,hne,habs,false_or,Bool.false_eq_true]
  split
  · rename_i hup
    exact iff_of_false (by rintro ⟨_,⟨⟩⟩) (not_not.mpr hup)
  · rename_i hup
    exact iff_of_true ⟨_,rfl⟩ hup

theorem Below.head (h : Below o p) : (p.splitOn '/').head? = (o.splitOn '/').head? := by
  rcases h with rfl | ⟨rest,rfl⟩
  · rfl
  · rw [splitOn_below,List.head?_append_of_ne_nil _ (splitOn_ne_nil '/' o)]

theorem not_ownedBy_of_head (h : GoodPath p) (hx : (p.splitOn '/').head? = some x)
    (hb : '\\' ∈ x) : ¬ OwnedBy n p := by
  rintro ⟨o,ho,hbelow⟩
  have hmem : x ∈ o.toList.splitOn '/' := mem_of_mem_head? (hbelow.head ▸ hx)
  have hnormal := n.ownedNormal o ho
  simp only [isNormal,decide_eq_true_eq] at hnormal
  rcases hnormal with hdot | hall
  · rw [hdot,List.splitOn_eq_singleton (by decide),List.mem_singleton] at hmem
    exact (h.good (mem_of_mem_head? hx)).2.1 hmem
  · exact not_mem_backslash_of_good hall (mem_of_mem_splitOn hmem hb)

theorem ownedBy_head (h : GoodPath p) (hx : (p.splitOn '/').head? = some x) (hb : '\\' ∉ x) :
    ∃ n : WorkNode, OwnedBy n p := by
  have hsplit : x.splitOn '/' = [x] := List.splitOn_eq_singleton (h.good (mem_of_mem_head? hx)).2.2.2.1
  have hgood : GoodPath x := by
    rw [GoodPath,hsplit,List.all_cons,List.all_nil,Bool.and_true]
    exact all_eq_true.mp h x (mem_of_mem_head? hx)
  refine ⟨ownerOf _ (normal_of_good hgood hb),ownedBy_ownerOf.mpr ?_⟩
  rw [toList_ofList]
  obtain ⟨rest,hrest⟩ := List.head?_eq_some_iff.mp hx
  have hp : ['/'].intercalate (x :: rest) = p := by rw [← hrest,intercalate_splitOn]
  cases rest with
  | nil => exact .inl (by rw [← hp]; simp)
  | cons y ys =>
    refine .inr ⟨['/'].intercalate (y :: ys),?_⟩
    rw [← hp,intercalate_cons_of_ne_nil (List.cons_ne_nil y ys)]

theorem agree_iff_straight (h : Reported p) :
    (∀ n : WorkNode, OwnedBy n p ↔ n.owns (ofList p) = true) ↔ Straight p := by
  unfold Straight
  split
  · rename_i hb
    constructor
    · intro hagree
      have hrefused : ¬ ∃ c, normPath (ofList p) = .ok c := by
        rintro ⟨c,hc⟩
        have hown : (ownerOf c (normPath_normal hc)).owns (ofList p) = true :=
          owns_ownerOf.mpr ⟨c,hc,.inl rfl⟩
        exact normPath_quoted h hb hc (ownedBy_ownerOf.mp ((hagree _).mpr hown))
      refine ⟨?_,not_not.mp fun hup => hrefused ((normPath_quoted_iff h hb).mpr hup)⟩
      obtain ⟨x,hx⟩ := Option.isSome_iff_exists.mp (List.isSome_head?.mpr (splitOn_ne_nil '/' p))
      refine ⟨x,hx,not_not.mp fun hno => ?_⟩
      obtain ⟨n,hn⟩ := ownedBy_head h.good hx hno
      obtain ⟨c,hc,_⟩ := owns_iff.mp ((hagree n).mp hn)
      exact hrefused ⟨c,hc⟩
    · rintro ⟨⟨x,hx,hbx⟩,hup⟩ n
      refine iff_of_false (not_ownedBy_of_head h.good hx hbx) fun hown => ?_
      obtain ⟨c,hc,_⟩ := owns_iff.mp hown
      exact (normPath_quoted_iff h hb).mp ⟨c,hc⟩ hup
  · rename_i hb
    refine ⟨strip_eq_of_agree h.good hb,fun hs n => ?_⟩
    simp only [owns_iff,normPath_straight h.good hb hs,Except.ok.injEq,exists_eq_left',OwnedBy,Below]
    simp only [dirPrefix,ext_iff,toList_ofList]

end Verdict.Salvage

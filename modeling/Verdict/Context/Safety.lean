import Verdict.Context.Budget
import Verdict.Context.Swap

/-! # What of a unit reaches the prompt

Sanitising quotes every control structure of a content at once: no pass makes a match of another
pattern, so the result has none, and no secret that was not there before. The key and the source of
a unit go into the prompt along another path.
-/
namespace Verdict.Context
open Memory (foldCase word?)
open Path (isSpace)
open Raising Substitute
open scoped Members
open List (any_cons any_nil append_assoc cons_append dropWhile_cons_of_neg dropWhile_cons_of_pos
  head?_eq_some_iff map_id mem_cons mem_cons_of_mem mem_cons_self mem_map nil_append not_mem_nil
  takeWhile_cons_of_neg)
open Char (isAlphanum toLower)
open Bool (and_eq_true eq_false_iff not_eq_true' or_eq_true)

variable {W : WordClass} {kept : Option Char → Text → Prop} {b b' : Option Char} {i o : Text} {same : Char → Char} {c : Char}

/-! ### Secrets -/

theorem assigns_aligned (h : Aligned (Swap W) kept b b' i o) (hassigns : assigns o = true) : assigns i = true := by
  obtain ⟨d,d',halign⟩ := dropSpaces_aligned h
  unfold assigns at hassigns
  split at hassigns
  · next sign value hvalue =>
    rw [hvalue] at halign
    rw [and_eq_true,or_eq_true,decide_eq_true_eq,decide_eq_true_eq] at hassigns
    obtain ⟨hsign,hrest⟩ := hassigns
    obtain ⟨i',hi',hvalues⟩ := kept_cons halign (by rcases hsign with rfl | rfl <;> decide)
    obtain ⟨e,e',hblank⟩ := dropSpaces_aligned hvalues
    unfold assigns
    rw [hi']
    simp only [and_eq_true,or_eq_true,decide_eq_true_eq]
    refine ⟨hsign,?_⟩
    rw [not_eq_true',List.isEmpty_eq_false_iff] at hrest ⊢
    intro hnil
    rw [hnil] at hblank
    exact hrest (aligned_nil_left hblank)
  · cases hassigns

variable {l : Char} {ls rest : Text}

theorem second_aligned {w : Text} (hl : l.isAlphanum = true) (hsolid : ∀ behindWord, solid foldCase behindWord (l :: ls) = true)
    (hb : b.any W.isWord = true) (h : Aligned (Swap W) kept b b i o) (hword : word? foldCase (l :: ls) (afterJoiner o) = some (w,rest)) :
    ∃ i' d, word? foldCase (l :: ls) (afterJoiner i) = some (w,i') ∧ Aligned (Swap W) kept d d i' rest := by
  cases o with
  | nil => cases hword
  | cons e o =>
    by_cases he : e = '_' ∨ e = '-'
    · obtain ⟨i,rfl,hrest⟩ := kept_cons h (by rcases he with rfl | rfl <;> decide)
      rw [afterJoiner,if_pos he] at hword ⊢
      obtain ⟨i',hi',halign⟩ := word?_aligned (.inl rfl) (hsolid false) (fun hf => nomatch hf) hrest hword
      exact ⟨i',_,hi',halign⟩
    · rw [afterJoiner,if_neg he] at hword
      obtain ⟨i',hi',halign⟩ := word?_aligned (.inl rfl) (hsolid true) (fun _ => hb) h hword
      refine ⟨i',_,?_,halign⟩
      obtain ⟨rfl,hmap⟩ := word?_eq_some.mp hi'
      obtain ⟨d,w,rfl,hd,-⟩ := List.map_eq_cons_iff.mp hmap
      have hjoiner : ¬ (d = '_' ∨ d = '-') := by
        rintro (rfl | rfl)
        · rw [← hd] at hl
          revert hl
          decide
        · rw [← hd] at hl
          revert hl
          decide
      rw [cons_append,afterJoiner,if_neg hjoiner]
      exact hi'

theorem mem_afterNames {cs : Text} : rest ∈ afterNames cs ↔ (∃ w, word? foldCase "password".toList cs = some (w,rest)) ∨
    ∃ name ∈ assignedNames, ∃ w r, word? foldCase name.1.toList cs = some (w,r) ∧
      ∃ v, word? foldCase name.2.toList (afterJoiner r) = some (v,rest) := by
  simp only [afterNames,List.mem_append,Option.mem_toList,Option.map_eq_some_iff,List.mem_flatMap,
    Option.bind_eq_some_iff,Prod.exists,exists_eq_right]

theorem afterNames_kept (h : Aligned (Swap W) kept (some c) (some c) i o) (hmem : rest ∈ afterNames (c :: o)) :
    ∃ i' d, i' ∈ afterNames (c :: i) ∧ Aligned (Swap W) kept d d i' rest := by
  rcases mem_afterNames.mp hmem with ⟨w,hw⟩ | ⟨name,hname,w,r,hfirst,v,hsecond⟩
  · obtain ⟨i',hi',-,halign⟩ := word?_kept (.inl rfl) (by decide) h hw
    exact ⟨i',_,mem_afterNames.mpr (.inl ⟨w,hi'⟩),halign⟩
  · have hall : ∀ name ∈ assignedNames, ∃ l ls k ks, name.1.toList = l :: ls ∧ name.2.toList = k :: ks ∧ k.isAlphanum = true ∧
        solid foldCase l.isAlphanum ls = true ∧ (∀ behindWord, solid foldCase behindWord (k :: ks) = true) ∧
        ∀ x ∈ (l :: ls).getLast?, x.isAlphanum = true := by
      simp only [assignedNames,List.forall_mem_cons]
      refine ⟨⟨_,_,_,_,rfl,rfl,?_⟩,⟨_,_,_,_,rfl,rfl,?_⟩,⟨_,_,_,_,rfl,rfl,?_⟩,fun _ h => absurd h not_mem_nil⟩
      all_goals decide
    obtain ⟨l,ls,k,ks,hl,hk,hkalnum,hsolid,hsolids,hlast⟩ := hall name hname
    rw [hl] at hfirst
    rw [hk] at hsecond
    obtain ⟨r',hr',hne,halign⟩ := word?_kept (.inl rfl) hsolid h hfirst
    have hword : w.getLast?.any W.isWord = true := by
      obtain ⟨-,hmap⟩ := word?_eq_some.mp hr'
      cases hx : w.getLast? with
      | none => exact absurd (List.getLast?_eq_none_iff.mp hx) hne
      | some x =>
        refine W.folded x (hlast _ ?_)
        rw [← hmap,List.getLast?_map,hx]
        rfl
    obtain ⟨i',d,hi',hrest⟩ := second_aligned hkalnum hsolids hword halign hsecond
    refine ⟨i',d,mem_afterNames.mpr (.inr ⟨name,hname,w,r',?_,v,?_⟩),hrest⟩
    · rw [hl]
      exact hr'
    · rw [hk]
      exact hi'

theorem assignedSecret_kept (hsame : b.any W.isWord = b'.any W.isWord) (h : Aligned (Swap W) kept (some c) (some c) i o)
    (hp : assignedSecret W b' (c :: o) = true) : assignedSecret W b (c :: i) = true := by
  rw [assignedSecret,and_eq_true,List.any_eq_true] at hp ⊢
  obtain ⟨hbefore,rest,hmem,hassigns⟩ := hp
  obtain ⟨i',d,hi',halign⟩ := afterNames_kept h hmem
  exact ⟨hsame ▸ hbefore,i',hi',assigns_aligned halign hassigns⟩

theorem isBearerChar_of_alphanum (h : (foldCase c).isAlphanum = true) : isBearerChar c = true := by rw [isBearerChar,h,Bool.true_or]

theorem bearerRun_le (h : Aligned (Swap W) kept b b' i o) : (o.takeWhile isBearerChar).length ≤ (i.takeWhile isBearerChar).length := by
  induction h with
  | nil => exact le_rfl
  | @keep b b' c i o hk hrest ih =>
    cases hc : isBearerChar c with
    | true =>
      rw [List.takeWhile_cons_of_pos hc,List.takeWhile_cons_of_pos hc]
      exact Nat.succ_le_succ ih
    | false =>
      rw [takeWhile_cons_of_neg (by simp [hc])]
      exact Nat.zero_le _
  | @swap b b' old new i o hswap hrest ih =>
    cases hswap with
    | tag hmem =>
      have hall : ∀ e ∈ tags, ∃ y ∈ e.2.head?, isBearerChar y = false := by decide
      obtain ⟨y,hy,hbearer⟩ := hall _ hmem
      obtain ⟨ys,rfl⟩ := head?_eq_some_iff.mp hy
      rw [cons_append,takeWhile_cons_of_neg (by simp [hbearer])]
      exact Nat.zero_le _
    | @role name word spaces hname hbefore hword hspaces =>
      have hall : ∀ name ∈ roleNames, (∀ l ∈ name.toList.map toLower, l.isAlphanum = true) ∧
          quoted name = name.toList ++ ' ' :: "(quoted): ".toList ∧ ∀ l ∈ name.toList, isBearerChar l = true := by
        decide
      obtain ⟨halnum,hquoted,hbearer⟩ := hall name hname
      have hletters : ∀ x ∈ word, isBearerChar x = true := fun x hx =>
        isBearerChar_of_alphanum (halnum _ (hword ▸ mem_map.mpr ⟨x,hx,rfl⟩))
      have hlength : word.length = name.toList.length := by
        rw [← List.length_map (f := foldCase),hword,List.length_map]
      rw [hquoted,append_assoc,append_assoc,List.takeWhile_append_of_pos hbearer,cons_append,
        takeWhile_cons_of_neg (by decide),List.takeWhile_append_of_pos hletters]
      simp only [List.append_nil,List.length_append]
      omega

theorem bearerToken_kept (hsame : b.any W.isWord = b'.any W.isWord) (h : Aligned (Swap W) kept (some c) (some c) i o)
    (hp : bearerToken W b' (c :: o) = true) : bearerToken W b (c :: i) = true := by
  unfold bearerToken at hp ⊢
  rw [and_eq_true] at hp ⊢
  refine ⟨hsame ▸ hp.1,?_⟩
  replace hp := hp.2
  split at hp
  · next w rest hw =>
    obtain ⟨i',hi',-,halign⟩ := word?_kept (.inl rfl) (by decide) h hw
    simp only [show word? foldCase "bearer".toList (c :: i) = some (w,i') from hi']
    rw [and_eq_true,decide_eq_true_eq] at hp ⊢
    obtain ⟨hspace,hrun⟩ := hp
    obtain ⟨s,hs,hblank⟩ := (Option.any_eq_true _ _).mp hspace
    obtain ⟨o',rfl⟩ := head?_eq_some_iff.mp hs
    have hhead : s ∉ ['&','\\','S','U','A'] := fun hmem => by
      have hall : ∀ y ∈ ['&','\\','S','U','A'], isSpace y = false := by decide
      exact absurd hblank (by simp [hall s hmem])
    obtain ⟨i'',rfl,-⟩ := kept_cons halign hhead
    obtain ⟨d,d',hvalue⟩ := dropSpaces_aligned halign
    exact ⟨by simpa using hblank,hrun.trans (bearerRun_le hvalue)⟩
  · cases hp

theorem alnumRun_eq (hb : b.any W.isWord = true) (h : Aligned (Swap W) kept b b' i o) : o.takeWhile
    isAlphanum = i.takeWhile isAlphanum ∧ (o.dropWhile isAlphanum).head?.any W.isWord =
    (i.dropWhile isAlphanum).head?.any W.isWord := by
  induction h with
  | nil => exact ⟨rfl,rfl⟩
  | @keep b b' c i o hk hrest ih =>
    cases hc : c.isAlphanum with
    | true =>
      obtain ⟨hrun,hend⟩ := ih (W.folded c (isAlphanum_foldCase hc))
      simp only [List.takeWhile_cons_of_pos hc,dropWhile_cons_of_pos hc]
      exact ⟨by rw [hrun],hend⟩
    | false =>
      simp only [takeWhile_cons_of_neg (show ¬ c.isAlphanum = true by simp [hc]),
        dropWhile_cons_of_neg (show ¬ c.isAlphanum = true by simp [hc])]
      exact ⟨trivial,rfl⟩
  | @swap b b' old new i o hswap hrest ih =>
    cases hswap with
    | role hname hbefore => exact absurd hb (by simp [hbefore])
    | tag hmem =>
      have hall : ∀ e ∈ tags, ∃ x ∈ e.1.head?, ∃ y ∈ e.2.head?, (decide (x.toNat < 128) && !x.isAlphanum && decide (x ≠ '_')) = true ∧
          (decide (y.toNat < 128) && !y.isAlphanum && decide (y ≠ '_')) = true := by decide
      obtain ⟨x,hx,y,hy,hxword,hyword⟩ := hall _ hmem
      obtain ⟨xs,rfl⟩ := head?_eq_some_iff.mp hx
      obtain ⟨ys,rfl⟩ := head?_eq_some_iff.mp hy
      have hxnot : ¬ x.isAlphanum = true := by
        simp only [and_eq_true,not_eq_true'] at hxword
        simp [hxword.1.2]
      have hynot : ¬ y.isAlphanum = true := by
        simp only [and_eq_true,not_eq_true'] at hyword
        simp [hyword.1.2]
      simp only [cons_append,takeWhile_cons_of_neg hxnot,takeWhile_cons_of_neg hynot,
        dropWhile_cons_of_neg hxnot,dropWhile_cons_of_neg hynot,List.head?_cons,Option.any_some,true_and]
      rw [notWord_of_ascii hxword,notWord_of_ascii hyword]

variable {old new : Text}

theorem alnumRun_swap (h : Swap W b old new) (more : Text) :
    ((new ++ more).takeWhile isAlphanum).length < 20 := by
  have hall : ∀ new ∈ replacements, ∃ s ∈ new.dropWhile isAlphanum |>.head?, s.isAlphanum = false ∧
      (new.takeWhile isAlphanum).length < 20 := by decide
  obtain ⟨s,hs,hstop,hlength⟩ := hall new (new_mem_replacements h)
  obtain ⟨rest,hrest⟩ := head?_eq_some_iff.mp hs
  have hsplit : new = new.takeWhile isAlphanum ++ s :: rest := by rw [← hrest,List.takeWhile_append_dropWhile]
  have hrun : ∀ c ∈ new.takeWhile isAlphanum, c.isAlphanum = true := fun c hc => List.mem_takeWhile_imp hc
  rw [hsplit,append_assoc,List.takeWhile_append_of_pos hrun,cons_append,takeWhile_cons_of_neg (by simp [hstop]),
    List.append_nil]
  exact hlength

theorem skKey_kept (hsame : b.any W.isWord = b'.any W.isWord) (h : Aligned (Swap W) kept (some c) (some c) i o)
    (hp : skKey W b' (c :: o) = true) : skKey W b (c :: i) = true := by
  unfold skKey at hp ⊢
  rw [and_eq_true] at hp ⊢
  refine ⟨hsame ▸ hp.1,?_⟩
  replace hp := hp.2
  split at hp
  · next w rest hw =>
    obtain ⟨i',hi',-,halign⟩ := word?_kept (.inr rfl) (by decide) h hw
    simp only [show word? id "sk-".toList (c :: i) = some (w,i') from hi']
    rw [and_eq_true,decide_eq_true_eq,not_eq_true'] at hp ⊢
    obtain ⟨hrun,hend⟩ := hp
    cases rest with
    | nil => exact absurd hrun (by simp)
    | cons d rest =>
      rcases halign.cases_cons with ⟨i'',rfl,hrest⟩ | ⟨old,new,i'',o',rfl,htext,hswap,-⟩
      · cases hd : d.isAlphanum with
        | false => exact absurd hrun (by simp [hd])
        | true =>
          have hword : (some d).any W.isWord = true := W.folded d (isAlphanum_foldCase hd)
          obtain ⟨hsameRun,hsameEnd⟩ := alnumRun_eq hword hrest
          rw [List.takeWhile_cons_of_pos hd] at hrun ⊢
          rw [dropWhile_cons_of_pos hd] at hend ⊢
          exact ⟨hsameRun ▸ hrun,hsameEnd ▸ hend⟩
      · have hshort := alnumRun_swap hswap o'
        rw [← htext] at hshort
        omega
  · cases hp

/-! ### The user part of an URL -/

def isPlain (c : Char) : Bool := isUserChar c && decide (c ≠ ':')

theorem isUserChar_of_plain (h : isPlain c = true) : isUserChar c = true := (Bool.and_eq_true_iff.mp h).1

theorem swap_user (h : Swap W b old new) :
    (∃ x s y, new = x ++ s :: y ∧ (∀ d ∈ x, isPlain d = true) ∧ isUserChar s = false ∧ s ≠ '@') ∨
    (∀ d ∈ old, isPlain d = true) ∧ ∀ d ∈ new, isPlain d = true := by
  have hstops : ∀ new : Text, (∃ s ∈ (new.dropWhile isPlain).head?, isUserChar s = false ∧ s ≠ '@') →
      ∃ x s y, new = x ++ s :: y ∧ (∀ d ∈ x, isPlain d = true) ∧ isUserChar s = false ∧ s ≠ '@' := by
    rintro new ⟨s,hs,hstop,hne⟩
    obtain ⟨y,hy⟩ := head?_eq_some_iff.mp hs
    exact ⟨new.takeWhile isPlain,s,y,by rw [← hy,List.takeWhile_append_dropWhile],fun d hd => List.mem_takeWhile_imp hd,hstop,hne⟩
  cases h with
  | tag hmem =>
    have hall : ∀ e ∈ tags, (∃ s ∈ (e.2.dropWhile isPlain).head?, isUserChar s = false ∧ s ≠ '@') ∨
        (∀ d ∈ e.1, isPlain d = true) ∧ ∀ d ∈ e.2, isPlain d = true := by decide
    exact (hall _ hmem).imp_left (hstops _)
  | role hname =>
    have hall : ∀ name ∈ roleNames, ∃ s ∈ ((quoted name).dropWhile isPlain).head?, isUserChar s = false ∧ s ≠ '@' := by decide
    exact .inl (hstops _ (hall _ hname))

variable {x : Text}

theorem closesUser_append (hx : ∀ d ∈ x, isPlain d = true) (text : Text) : closesUser (x ++ text) = closesUser text := by
  unfold closesUser
  rw [List.dropWhile_append_of_pos fun d hd => isUserChar_of_plain (hx d hd)]

variable {s : Char}

theorem closesUser_stop (hs : isUserChar s = false) (hne : s ≠ '@') (text : Text) : closesUser (s :: text) = false := by
  unfold closesUser
  rw [dropWhile_cons_of_neg (by simp [hs]),List.head?_cons]
  simpa using hne

theorem userColon_append (hx : ∀ d ∈ x, isPlain d = true) (text : Text) : userColon (x ++ text) = userColon text := by
  induction x with
  | nil => rfl
  | cons d x ih =>
    obtain ⟨huser,hcolon⟩ := Bool.and_eq_true_iff.mp (hx d mem_cons_self)
    rw [decide_eq_true_eq] at hcolon
    rw [cons_append,userColon,huser,decide_eq_false hcolon,Bool.false_and,Bool.false_or,Bool.true_and]
    exact ih fun e he => hx e (mem_cons_of_mem d he)

theorem userColon_stop (hs : isUserChar s = false) (text : Text) : userColon (s :: text) = false := by
  have hcolon : s ≠ ':' := by
    rintro rfl
    exact absurd hs (by decide)
  rw [userColon,hs,decide_eq_false hcolon,Bool.false_and,Bool.false_and,Bool.or_false]

theorem closesUser_aligned (h : Aligned (Swap W) kept b b' i o) (ho : closesUser o = true) : closesUser i = true := by
  induction h with
  | nil => exact ho
  | @keep b b' c i o hk hrest ih =>
    unfold closesUser at ho ih ⊢
    cases hc : isUserChar c with
    | true =>
      rw [dropWhile_cons_of_pos hc] at ho ⊢
      exact ih ho
    | false =>
      rw [dropWhile_cons_of_neg (by simp [hc])] at ho ⊢
      exact ho
  | @swap b b' old new i o hswap hrest ih =>
    rcases swap_user hswap with ⟨x,s,y,rfl,hx,hs,hne⟩ | ⟨hold,hnew⟩
    · rw [append_assoc,closesUser_append hx,cons_append,closesUser_stop hs hne] at ho
      cases ho
    · rw [closesUser_append hnew] at ho
      rw [closesUser_append hold]
      exact ih ho

theorem password_aligned (h : Aligned (Swap W) kept b b' i o) (ho : password o = true) : password i = true := by
  cases h with
  | nil => exact ho
  | keep hk hrest =>
    rw [password,and_eq_true] at ho ⊢
    exact ⟨ho.1,closesUser_aligned hrest ho.2⟩
  | @swap b b' old new i o hswap hrest =>
    obtain ⟨d,old,e,new,rfl,rfl,-,-⟩ := swap_heads hswap
    rw [cons_append,password,and_eq_true] at ho ⊢
    obtain ⟨he,ho⟩ := ho
    have hrejoined : closesUser (e :: new ++ o) = true := by
      unfold closesUser at ho ⊢
      rwa [cons_append,dropWhile_cons_of_pos he]
    have hrun : Aligned (Swap W) kept b b' (d :: old ++ i) (e :: new ++ o) := .swap hswap hrest
    have hthrough := closesUser_aligned hrun hrejoined
    rcases swap_user hswap with ⟨x,s,y,hsplit,hx,hs,hne⟩ | ⟨hold,hnew⟩
    · rw [hsplit,append_assoc,closesUser_append hx,cons_append,closesUser_stop hs hne] at hrejoined
      cases hrejoined
    · have hd := isUserChar_of_plain (hold d mem_cons_self)
      refine ⟨hd,?_⟩
      unfold closesUser at hthrough ⊢
      rwa [cons_append,dropWhile_cons_of_pos hd] at hthrough

theorem userColon_aligned (h : Aligned (Swap W) kept b b' i o) (ho : userColon o = true) : userColon i = true := by
  induction h with
  | nil => exact ho
  | keep hk hrest ih =>
    rw [userColon,or_eq_true,and_eq_true,and_eq_true] at ho ⊢
    exact ho.imp (fun hcolon => ⟨hcolon.1,password_aligned hrest hcolon.2⟩) fun hlater => ⟨hlater.1,ih hlater.2⟩
  | swap hswap hrest ih =>
    rcases swap_user hswap with ⟨x,s,y,rfl,hx,hs,-⟩ | ⟨hold,hnew⟩
    · rw [append_assoc,userColon_append hx,cons_append,userColon_stop hs] at ho
      cases ho
    · rw [userColon_append hnew] at ho
      rw [userColon_append hold]
      exact ih ho

/-- `[^\s/@]+:[^\s/@]+@`. -/
def credentials : Text → Bool
  | c :: rest => isUserChar c && userColon rest
  | [] => false

theorem credentials_append (hx : ∀ d ∈ x, isPlain d = true) (hne : x ≠ []) (text : Text) :
    credentials (x ++ text) = userColon text := by
  obtain ⟨d,x,rfl⟩ := List.exists_cons_of_ne_nil hne
  rw [cons_append,credentials,isUserChar_of_plain (hx d mem_cons_self),Bool.true_and]
  exact userColon_append (fun e he => hx e (mem_cons_of_mem d he)) text

theorem credentials_aligned (h : Aligned (Swap W) kept b b' i o) (ho : credentials o = true) : credentials i = true := by
  cases h with
  | nil => exact ho
  | keep hk hrest =>
    rw [credentials,and_eq_true] at ho ⊢
    exact ⟨ho.1,userColon_aligned hrest ho.2⟩
  | swap hswap hrest =>
    obtain ⟨hold,hnew,-,-⟩ := swap_ends hswap
    rcases swap_user hswap with ⟨x,s,y,rfl,hx,hs,-⟩ | ⟨hplainOld,hplainNew⟩
    · rw [append_assoc,cons_append] at ho
      cases x with
      | nil =>
        rw [nil_append,credentials,hs] at ho
        cases ho
      | cons d x =>
        rw [credentials_append hx (List.cons_ne_nil d x),userColon_stop hs] at ho
        cases ho
    · rw [credentials_append hplainNew hnew] at ho
      rw [credentials_append hplainOld hold]
      exact userColon_aligned hrest ho

theorem credentialUrl_eq (before : Option Char) (text : Text) : credentialUrl before text =
    ["https://","http://"].any fun scheme => (word? foldCase scheme.toList text).any fun found =>
    credentials found.2 := by
  unfold credentialUrl
  congr 1
  funext scheme
  cases word? foldCase scheme.toList text with
  | none => rfl
  | some found =>
    obtain ⟨w,_ | ⟨c,rest⟩⟩ := found
    · rfl
    · rfl

theorem credentialUrl_kept (h : Aligned (Swap W) kept (some c) (some c) i o) (hp : credentialUrl b' (c :: o) = true) :
    credentialUrl b (c :: i) = true := by
  rw [credentialUrl_eq,List.any_eq_true] at hp ⊢
  obtain ⟨scheme,hscheme,hp⟩ := hp
  obtain ⟨⟨w,rest⟩,hw,hcredentials⟩ := (Option.any_eq_true _ _).mp hp
  have hall : ∀ scheme ∈ ["https://","http://"], ∃ l ls, scheme.toList = l :: ls ∧ solid foldCase l.isAlphanum ls = true := by
    simp only [List.forall_mem_cons]
    refine ⟨⟨_,_,rfl,?_⟩,⟨_,_,rfl,?_⟩,fun _ h => absurd h not_mem_nil⟩
    all_goals decide
  obtain ⟨l,ls,hletters,hsolid⟩ := hall scheme hscheme
  rw [hletters] at hw
  obtain ⟨i',hi',-,halign⟩ := word?_kept (.inl rfl) hsolid h hw
  refine ⟨scheme,hscheme,(Option.any_eq_true _ _).mpr ⟨(w,i'),?_,credentials_aligned halign hcredentials⟩⟩
  rw [hletters]
  exact hi'

/-! ### Passes -/

structure Stable (W : WordClass) (p : Pattern) : Prop where
  fresh : ∀ {b : Option Char} {old new : Text}, Swap W b old new → ∀ x y, new = x ++ y → y ≠ [] → ∀ before text,
    p before (y ++ text) = false
  kept : ∀ {kept : Option Char → Text → Prop} {b b' : Option Char} {c : Char} {i o : Text}, b.any W.isWord = b'.any W.isWord →
    Aligned (Swap W) kept (some c) (some c) i o → p b' (c :: o) = true → p b (c :: i) = true

theorem assignedSecret_stable : Stable W (assignedSecret W) where
  fresh := fun hswap x y hsplit hy before text => by
    have hnone : ∀ {ws}, absent foldCase ws = true → word? foldCase ws (y ++ text) = none := fun h =>
      word?_of_absent h hswap hsplit hy text
    have hempty : afterNames (y ++ text) = [] := by
      refine List.eq_nil_iff_forall_not_mem.mpr fun rest hmem => ?_
      rcases mem_afterNames.mp hmem with ⟨w,hw⟩ | ⟨name,hname,w,r,hw,-⟩
      · rw [hnone (by decide)] at hw
        cases hw
      · have hall : ∀ name ∈ assignedNames, absent foldCase name.1.toList = true := by decide
        rw [hnone (hall name hname)] at hw
        cases hw
    rw [assignedSecret,hempty,any_nil,Bool.and_false]
  kept := assignedSecret_kept

theorem bearerToken_stable : Stable W (bearerToken W) where
  fresh := fun hswap x y hsplit hy before text => by
    have hnone : word? foldCase "bearer".toList (y ++ text) = none := word?_of_absent (by decide) hswap hsplit hy text
    simp only [bearerToken,hnone,Bool.and_false]
  kept := bearerToken_kept

theorem skKey_stable : Stable W (skKey W) where
  fresh := fun hswap x y hsplit hy before text => by
    have hnone : word? id "sk-".toList (y ++ text) = none := word?_of_absent (by decide) hswap hsplit hy text
    simp only [skKey,hnone,Bool.and_false]
  kept := skKey_kept

theorem credentialUrl_stable : Stable W credentialUrl where
  fresh := fun hswap x y hsplit hy before text => by
    have hnone : ∀ {ws}, absent foldCase ws = true → word? foldCase ws (y ++ text) = none := fun h =>
      word?_of_absent h hswap hsplit hy text
    rw [credentialUrl_eq,any_cons,any_cons,any_nil,hnone (by decide),hnone (by decide)]
    rfl
  kept := fun _ => credentialUrl_kept

variable {p : Pattern}

theorem secret_stable (hp : p ∈ secretPatterns W) : Stable W p := by
  simp only [secretPatterns,mem_cons,not_mem_nil,or_false] at hp
  rcases hp with rfl | rfl | rfl | rfl
  · exact assignedSecret_stable
  · exact bearerToken_stable
  · exact skKey_stable
  · exact credentialUrl_stable

theorem finds_literal (old new : Text) (before : Option Char) (text : Text) :
    finds (literal old new) before text = (word? id old text).isSome := by
  rw [finds,literal,Bool.eq_iff_iff]
  split
  · next hpre =>
    obtain ⟨rest,rfl⟩ := hpre
    rw [show word? id old (old ++ rest) = some (old,rest) from word?_eq_some.mpr ⟨rfl,map_id old⟩]
    rfl
  · next hpre =>
    refine iff_of_false Bool.false_ne_true fun hsome => hpre ?_
    obtain ⟨⟨w,rest⟩,hw⟩ := Option.isSome_iff_exists.mp hsome
    obtain ⟨rfl,rfl⟩ := word?_eq_some.mp hw
    rw [map_id]
    exact List.prefix_append w rest

theorem finds_role (name : String) (before : Option Char) (text : Text) : finds (role W name) before text =
    (!before.any W.isWord && (word? foldCase ((name ++ ":").toList.map toLower) text).isSome) := by
  unfold finds role
  split
  · next hbefore =>
    rw [hbefore]
    rfl
  · next hbefore =>
    rw [eq_false_iff.mpr hbefore]
    cases word? foldCase ((name ++ ":").toList.map toLower) text with
    | none => rfl
    | some found => rfl

theorem literal_stable (habsent : absent id old = true) (hletters : old = l :: ls)
    (hsolid : solid id l.isAlphanum ls = true) (new : Text) : Stable W (finds (literal old new)) where
  fresh := fun hswap x y hsplit hy before text => by
    rw [finds_literal,word?_of_absent habsent hswap hsplit hy text]
    rfl
  kept := fun _ h hp => by
    rw [finds_literal,hletters] at hp ⊢
    obtain ⟨⟨w,rest⟩,hw⟩ := Option.isSome_iff_exists.mp hp
    obtain ⟨i',hi',-⟩ := word?_kept (.inr rfl) hsolid h hw
    rw [hi']
    rfl

theorem role_stable {name : String} (habsent : absent foldCase ((name ++ ":").toList.map toLower) = true)
    (hletters : (name ++ ":").toList.map toLower = l :: ls) (hsolid : solid foldCase l.isAlphanum ls = true) :
    Stable W (finds (role W name)) where
  fresh := fun hswap x y hsplit hy before text => by
    rw [finds_role,word?_of_absent habsent hswap hsplit hy text]
    exact Bool.and_false _
  kept := fun hsame h hp => by
    rw [finds_role,and_eq_true,hletters] at hp ⊢
    obtain ⟨⟨w,rest⟩,hw⟩ := Option.isSome_iff_exists.mp hp.2
    obtain ⟨i',hi',-⟩ := word?_kept (.inl rfl) hsolid h hw
    rw [hi',hsame]
    exact ⟨hp.1,rfl⟩

variable {m : Matcher}

theorem control_stable (hm : m ∈ controls W) : Stable W (finds m) := by
  simp only [controls,mem_cons,not_mem_nil,or_false] at hm
  rcases hm with rfl | rfl | rfl | rfl | rfl | rfl | rfl
  · exact literal_stable (by decide) (by rfl) (by decide) _
  · exact literal_stable (by decide) (by rfl) (by decide) _
  · exact literal_stable (by decide) (by rfl) (by decide) _
  · exact literal_stable (by decide) (by rfl) (by decide) _
  · exact role_stable (by decide) (by rfl) (by decide)
  · exact role_stable (by decide) (by rfl) (by decide)
  · exact role_stable (by decide) (by rfl) (by decide)

theorem found_of_swaps {q : Pattern} (hp : Stable W p)
    (hkept : ∀ b b' c i o, b.any W.isWord = b'.any W.isWord → kept b (c :: i) → Aligned (Swap W) kept (some c) (some c) i o →
      p b' (c :: o) = true → q b (c :: i) = true)
    (h : Aligned (Swap W) kept none none i o) (hfound : found p none o = true) : found q none i = true := by
  refine found_of_aligned ?_ (fun b old new hswap => ?_) hkept h ?_ hfound
  · exact fun _ => rfl
  · obtain ⟨hold,hnew,holdEnd,hnewEnd⟩ := swap_ends hswap
    exact ⟨hold,hnew,holdEnd.trans hnewEnd.symm,hp.fresh hswap⟩
  · rfl

theorem aligned_sub (hm : m ∈ controls W) (t : Text) :
    Aligned (Swap W) (fun before text => m before text = none) none none t (sub m t) :=
  aligned_scan (fun _ _ _ h => swap_of_control hm h) (fun _ _ h => h) none none t

variable {t : Text}

theorem found_sub (hp : Stable W p) (hm : m ∈ controls W) (h : found p none (sub m t) = true) :
    found p none t = true :=
  found_of_swaps hp (fun _ _ _ _ _ hsame _ hrest hmatch => hp.kept hsame hrest hmatch) (aligned_sub hm t) h

theorem sub_clean (hm : m ∈ controls W) (t : Text) : found (finds m) none (sub m t) = false := by
  have hstable := control_stable hm
  refine eq_false_iff.mpr fun hfound => ?_
  have hnothing : found (fun _ _ => false) none t = true := by
    refine found_of_swaps hstable (fun b b' c i o hsame hnone hrest hmatch => ?_) (aligned_sub hm t) hfound
    have hagain := hstable.kept hsame hrest hmatch
    rw [finds,hnone] at hagain
    cases hagain
  rw [found_nothing] at hnothing
  cases hnothing

variable {ms : List Matcher}

theorem found_passes (hp : Stable W p) (hms : ∀ m ∈ ms, m ∈ controls W)
    (h : found p none (ms.foldl (fun t m => sub m t) t) = true) : found p none t = true := by
  induction ms generalizing t with
  | nil => exact h
  | cons m ms ih => exact found_sub hp (hms m mem_cons_self) (ih (fun m' hm' => hms m' (mem_cons_of_mem m hm')) h)

theorem passes_clean (hms : ∀ m ∈ ms, m ∈ controls W) (hm : m ∈ ms) (t : Text) :
    found (finds m) none (ms.foldl (fun t m => sub m t) t) = false := by
  induction ms generalizing t with
  | nil => exact absurd hm not_mem_nil
  | cons m' ms ih =>
    have hrest : ∀ m ∈ ms, m ∈ controls W := fun m hm => hms m (mem_cons_of_mem m' hm)
    rcases mem_cons.mp hm with rfl | hm
    · refine eq_false_iff.mpr fun hfound => ?_
      have hmatch := found_passes (control_stable (hms m mem_cons_self)) hrest hfound
      rw [sub_clean (hms m mem_cons_self)] at hmatch
      cases hmatch
    · exact ih hrest hm _

theorem occurs_sanitized (hm : m ∈ controls W) (t : Text) : occurs m none (sanitizeInjectionPatterns W t) = false := by
  rw [← found_finds]
  exact passes_clean (fun _ h => h) hm t

theorem passes_of_not_occurs (h : ∀ m ∈ ms, occurs m none t = false) :
    ms.foldl (fun t m => sub m t) t = t := by
  induction ms with
  | nil => rfl
  | cons m ms ih =>
    rw [List.foldl_cons,sub_of_not_occurs (h m mem_cons_self)]
    exact ih fun m' hm' => h m' (mem_cons_of_mem m hm')

theorem sanitized_again (W : WordClass) (t : Text) :
    sanitizeInjectionPatterns W (sanitizeInjectionPatterns W t) = sanitizeInjectionPatterns W t :=
  passes_of_not_occurs fun _ hm => occurs_sanitized hm t

section
variable (W : WordClass)

def Clean (t : Text) : Prop := ∀ p ∈ (controls W).map finds ++ secretPatterns W, found p none t = false

instance (t : Text) : Decidable (Clean W t) := inferInstanceAs (Decidable (∀ _ ∈ _, _))

end

theorem clean_sanitized (h : safeContent W t = true) : Clean W (sanitizeInjectionPatterns W t) := by
  intro p hp
  rcases List.mem_append.mp hp with hcontrol | hsecret
  · obtain ⟨m,hm,rfl⟩ := mem_map.mp hcontrol
    rw [found_finds]
    exact occurs_sanitized hm t
  · refine eq_false_iff.mpr fun hfound => ?_
    have hmatch := found_passes (secret_stable hsecret) (fun _ hm => hm) hfound
    have hnone := List.all_eq_true.mp h p hsecret
    rw [hmatch] at hnone
    cases hnone

/-! ### What a unit prints -/

variable {lib : Library} {plan : ContextPlan} {now : Stamp} {u : ContextUnit} {units : List ContextUnit} {pack : ContextPack}
  {packId evaluationAt : Option Text}

def printed (lib : Library) (u : ContextUnit) : List Text :=
  [u.key,sanitizeInjectionPatterns lib.words u.content] ++ (safeSourceUri lib u.sourceUri).toOption.toList

variable {out : Text}

theorem rendered_ok (h : rendered lib u = .ok out) : ∃ uri, safeSourceUri lib u.sourceUri = .ok uri ∧ out =
    '[' :: (u.slotType.upper.toList ++ ':' :: (u.key ++ (" (source: ".toList ++ (uri ++ ")]".toList)))) ++
    lineFeed :: (sanitizeInjectionPatterns lib.words u.content ++ [lineFeed]) := by
  obtain ⟨uri,huri,h⟩ := bind_ok.mp h
  exact ⟨uri,huri,(Except.ok.inj h).symm⟩

theorem shown_in_part (h : rendered lib u = .ok out) (ht : t ∈ printed lib u) : t <:+: out := by
  obtain ⟨uri,huri,rfl⟩ := rendered_ok h
  simp only [printed,huri,Except.toOption,Option.toList_some,cons_append,nil_append,mem_cons,not_mem_nil,
    or_false] at ht
  rcases ht with rfl | rfl | rfl
  · exact ⟨'[' :: (u.slotType.upper.toList ++ [':']),
      " (source: ".toList ++ (uri ++ ")]".toList) ++ lineFeed :: (sanitizeInjectionPatterns lib.words u.content ++ [lineFeed]),
      by simp only [append_assoc,cons_append,nil_append]⟩
  · exact ⟨'[' :: (u.slotType.upper.toList ++ ':' :: (u.key ++ (" (source: ".toList ++ (uri ++ ")]".toList)))) ++ [lineFeed],
      [lineFeed],by simp only [append_assoc,cons_append,nil_append]⟩
  · exact ⟨'[' :: (u.slotType.upper.toList ++ ':' :: (u.key ++ " (source: ".toList)),
      ")]".toList ++ lineFeed :: (sanitizeInjectionPatterns lib.words u.content ++ [lineFeed]),
      by simp only [append_assoc,cons_append]⟩

theorem infix_join {sep : Text} {parts : List Text} (h : t ∈ parts) : t <:+: sep.intercalate parts := by
  induction parts with
  | nil => exact absurd h not_mem_nil
  | cons first rest ih =>
    cases rest with
    | nil =>
      obtain rfl := List.mem_singleton.mp h
      exact ⟨[],[],by simp [List.intercalate]⟩
    | cons next rest =>
      rw [List.intercalate_cons_cons]
      rcases mem_cons.mp h with rfl | h
      · rw [append_assoc]
        exact (List.prefix_append _ _).isInfix
      · exact (ih h).trans (List.suffix_append _ _).isInfix

/-- What the pack shows of its units is clean, and sanitising quotes every control structure of a text at once. -/
structure Guarded (lib : Library) (pack : ContextPack) : Prop where
  shown : ∀ u ∈ pack.units, ∀ t ∈ printed lib u, t <:+: pack.compiledPrompt ∧ Clean lib.words t
  closed : ∀ t, sanitizeInjectionPatterns lib.words (sanitizeInjectionPatterns lib.words t) = sanitizeInjectionPatterns lib.words t ∧
    ∀ m ∈ controls lib.words, occurs m none (sanitizeInjectionPatterns lib.words t) = false

/-- The keys and the sources of the units that are taken are clean as they are. -/
def HeadersClean (lib : Library) (units : List ContextUnit) (plan : ContextPlan) (evaluationAt : Option Text) : Prop :=
  ∀ now, lib.timestamp (evaluationAt.getD plan.createdAt) = some now → ∀ u ∈ taken lib plan now (sortedUnits units),
    Clean lib.words u.key ∧ ∀ uri, safeSourceUri lib u.sourceUri = .ok uri → Clean lib.words uri

/-- A pack shows clean texts exactly when the keys and sources of its units, which nothing sanitises, are clean. -/
theorem pack_guarded_iff (h : compileUnits lib units plan packId evaluationAt = .ok pack) :
    Guarded lib pack ↔ HeadersClean lib units plan evaluationAt := by
  obtain ⟨now,hnow,hunits,hprompt,-,-,hrendered⟩ := compile_ok h
  constructor
  · intro hguarded now' hnow' u hu
    obtain rfl : now = now' := Option.some.inj (hnow.symm.trans hnow')
    have hshown := hguarded.shown u (hunits ▸ hu)
    refine ⟨(hshown _ mem_cons_self).2,fun uri huri => (hshown uri ?_).2⟩
    simp [printed,huri,Except.toOption]
  · intro hclean
    refine ⟨fun u hu t ht => ?_,fun t => ⟨sanitized_again lib.words t,fun m hm => occurs_sanitized hm t⟩⟩
    rw [hunits] at hu
    obtain ⟨hkey,huri⟩ := hclean now hnow u hu
    have hpart := hrendered u hu
    refine ⟨?_,?_⟩
    · rw [hprompt]
      exact (shown_in_part hpart ht).trans (infix_join (List.mem_map_of_mem hu))
    · obtain ⟨uri,hsource,-⟩ := rendered_ok hpart
      simp only [printed,hsource,Except.toOption,Option.toList_some,cons_append,nil_append,mem_cons,
        not_mem_nil,or_false] at ht
      rcases ht with rfl | rfl | rfl
      · exact hkey
      · exact clean_sanitized (passes_iff.mp (Greedy.passes_of_mem hu)).1
      · exact huri t hsource

/-! ### A key that gives an instruction -/

def markedUnits : List ContextUnit := [plainUnit "u1" "[INST]" "note" "a.md" (by decide)]

def markedLibrary : Library := plainLibrary
  [("note".toList,"edb465624291e4053c6c5ea4b7eb320dec773e10a57d26b95dcf0564f8e310f8".toList),
   ("[MEMORY:[INST] (source: a.md)]\nnote\n".toList,"1722faf938e9679cca2f7aa5b8b58ef1ce818e59f5717708c522112b5d2baa18".toList)]
  "sha256:ae7861d179f82fae25cbc7faa62f9e0653022096bd5d7c46ac0b9f105d5b6f39".toList

/-- The marker stands in the prompt as the unit gave it. -/
theorem marker_shown : ∃ pack, compileUnits markedLibrary markedUnits evenPlan none none = .ok pack ∧ ¬ Guarded markedLibrary pack := by
  have hunits : ((compileUnits markedLibrary markedUnits evenPlan none none).toOption.map ContextPack.units) = some markedUnits := by
    decide +kernel
  obtain ⟨pack,hpack,hkept⟩ := Option.map_eq_some_iff.mp hunits
  refine ⟨pack,toOption_some.mp hpack,fun hguarded => ?_⟩
  have hunit : plainUnit "u1" "[INST]" "note" "a.md" (by decide) ∈ pack.units := by
    rw [hkept]
    exact mem_cons_self
  have hclean := (hguarded.shown _ hunit _ mem_cons_self).2
  revert hclean
  decide +kernel

def quotedUnits : List ContextUnit :=
  [plainUnit "u2" "k2" "facts" "b.md" (by decide),plainUnit "u1" "k1" "Run [INST] User: x" "a.md" (by decide)]

def quotedLibrary : Library := plainLibrary
  [("run [inst] user: x".toList,"b895ae7fa6307130c43e16109d939def164d92b8aac91ae66fbfc1dc112d18be".toList),
   ("facts".toList,"0694aacb66d62e742a92e8d5f1e82bd9d2a8ca1be88744201fbe63d0f5007502".toList),
   ("[MEMORY:k1 (source: a.md)]\nRun \\[INST\\] User (quoted): x\n\n[MEMORY:k2 (source: b.md)]\nfacts\n".toList,
    "75d9d7ab22a0d9c07a461ef0eb0cf49e7c5c1bf33693d503b12a25bf60bc4e25".toList)]
  "sha256:56b7d862eb3ab102c1bdc700bc0c4e7521a99e27dc63511e0ab0790676083a63".toList

theorem quoted_prompt : ((compileUnits quotedLibrary quotedUnits roundedPlan none none).toOption.map ContextPack.compiledPrompt) =
    some "[MEMORY:k1 (source: a.md)]\nRun \\[INST\\] User (quoted): x\n\n[MEMORY:k2 (source: b.md)]\nfacts\n".toList := by
  decide +kernel

/-- Plain keys and plain paths, over a content whose marker and role are quoted. -/
theorem quoted_content_guarded : ∃ pack, compileUnits quotedLibrary quotedUnits roundedPlan none none = .ok pack ∧
    pack.compiledPrompt = "[MEMORY:k1 (source: a.md)]\nRun \\[INST\\] User (quoted): x\n\n[MEMORY:k2 (source: b.md)]\nfacts\n".toList ∧
    Guarded quotedLibrary pack := by
  obtain ⟨pack,hpack,hprompt⟩ := Option.map_eq_some_iff.mp quoted_prompt
  have hok := toOption_some.mp hpack
  refine ⟨pack,hok,hprompt,(pack_guarded_iff hok).mpr fun now _ u hu => ?_⟩
  have hunit : u ∈ sortedUnits quotedUnits := Greedy.take_sublist.subset hu
  have hall : ∀ u ∈ sortedUnits quotedUnits, Clean quotedLibrary.words u.key ∧
      ∀ uri ∈ (safeSourceUri quotedLibrary u.sourceUri).toOption, Clean quotedLibrary.words uri := by decide +kernel
  refine ⟨(hall u hunit).1,fun uri huri => (hall u hunit).2 uri ?_⟩
  rw [huri]
  rfl

end Verdict.Context

import Mathlib.Data.List.Nodup
import Mathlib.Data.List.TakeWhile

/-! # Node kinds, lifecycle states and contract errors

The enumerations of `contracts.py`, its transition table, and the errors its
validators raise. An error constructor carries the values that the message of the
source interpolates.
-/
namespace Verdict

inductive NodeKind
  | implement | research | integrate | review
  deriving DecidableEq

/-- Explicit worker lifecycle. Admission is never success. -/
inductive NodeState
  | planned | admitted | dispatched | running | terminalSuccess | terminalFailure
  | validated | rejected | blocked
  deriving DecidableEq

inductive RunOutcome
  | complete | blocked | cancelled
  deriving DecidableEq

/-- `KNOWN_BARRIERS`: the names a node may declare. -/
inductive Barrier
  | integration | ownership | noChange
  deriving DecidableEq

def Barrier.name : Barrier → String
  | integration => "integration"
  | ownership => "ownership"
  | noChange => "no_change"

/-- `KNOWN_BARRIERS` membership; prose names are dropped by the caller. -/
def Barrier.ofName (s : String) : Option Barrier :=
  [Barrier.integration,.ownership,.noChange].find? fun b => b.name = s

inductive Risk
  | low | medium | high
  deriving DecidableEq

inductive OrchestrationError
  | illegalTransition (current target : NodeState)
  | ownedPath (value : String)
  | unnamed
  | needsOwnedFiles (nodeId : String)
  | needsVerification (nodeId : String)
  | selfDependency (nodeId : String)
  | noNodes
  | duplicateIds (ids : List String)
  | unknownDependencies (nodeId : String) (missing : List String)
  | cycle (among : List String)
  | bothOwn (left right : String) (overlap : List String)
  | maxParallel
  deriving DecidableEq

def transitions : NodeState → List NodeState
  | .planned => [.admitted,.blocked]
  | .admitted => [.dispatched,.terminalFailure]
  | .dispatched => [.running,.terminalFailure]
  | .running => [.terminalSuccess,.terminalFailure]
  | .terminalSuccess => [.validated,.rejected]
  | .terminalFailure => [.planned,.blocked]
  | .rejected => [.planned,.blocked]
  | .validated => []
  | .blocked => []

def checkTransition (current target : NodeState) : Except OrchestrationError Unit :=
  if target ∈ transitions current then .ok () else .error (.illegalTransition current target)

theorem checkTransition_ok {current target : NodeState} :
    checkTransition current target = .ok () ↔ target ∈ transitions current := by
  unfold checkTransition
  split <;> simp_all

def NodeState.started : NodeState → Bool
  | .admitted | .dispatched | .running | .terminalSuccess | .validated => true
  | _ => false

end Verdict

/-! ## Repo-relative paths

`_norm_path`: strip, turn backslashes into slashes, refuse absolute paths and `..`, and print the
remaining components. Paths are lists of characters, split at `/` as `PurePosixPath` does. The
normal forms are exactly the values `_norm_path` returns, and each is returned for some spelling
(`normPath_spelled`); `_norm_path` itself is not idempotent, because a component may end in a
blank that the next call strips.
-/
-- Opened, these decide a statement about all members of a text member by member, not character by character.
namespace Verdict.Members
variable {α : Type} {p : α → Prop} [DecidablePred p]

scoped instance (priority := 1100) decidableAll (l : List α) : Decidable (∀ a ∈ l, p a) := List.decidableBAll p l

scoped instance (priority := 1100) decidableEach (o : Option α) : Decidable (∀ a ∈ o, p a) := Option.decidableForallMem o

scoped instance (priority := 1100) decidableIn (o : Option α) : Decidable (∃ a ∈ o, p a) := Option.decidableExistsMem o

end Verdict.Members

namespace Verdict.Path

open List (all_eq_true mem_cons mem_cons_of_mem mem_cons_self)

/-- The characters `str.strip` removes. -/
def isSpace (c : Char) : Bool :=
  let n := c.toNat
  (9 ≤ n && n ≤ 13) || (28 ≤ n && n ≤ 32) || n == 0x85 || n == 0xA0 || n == 0x1680
    || (0x2000 ≤ n && n ≤ 0x200A) || n == 0x2028 || n == 0x2029 || n == 0x202F || n == 0x205F || n == 0x3000

def strip (cs : List Char) : List Char := ((cs.dropWhile isSpace).reverse.dropWhile isSpace).reverse

def replaceBackslash (cs : List Char) : List Char := cs.map fun c => if c = '\\' then '/' else c

/-- `PurePosixPath(text).parts` of a relative path: no empty and no `.` components. -/
def parts (text : List Char) : List (List Char) :=
  (text.splitOn '/').filter fun p => decide (p ≠ [] ∧ p ≠ ['.'])

/-- `str(PurePosixPath)`: the empty path prints as a dot. -/
def join (ps : List (List Char)) : List Char := if ps = [] then ['.'] else ['/'].intercalate ps

def isAbsolute (text : List Char) : Bool := text.head? = some '/'

def normPath (value : String) : Except OrchestrationError String :=
  let text := replaceBackslash (strip value.toList)
  if text = [] ∨ isAbsolute text ∨ ['.','.'] ∈ parts text then .error (.ownedPath value)
  else .ok (String.ofList (join (parts text)))

/-- A component that `_norm_path` prints. -/
def goodPart (p : List Char) : Bool :=
  decide (p ≠ [] ∧ p ≠ ['.'] ∧ p ≠ ['.','.'] ∧ '\\' ∉ p)

/-- The values `_norm_path` returns. -/
def isNormal (o : String) : Bool := o.toList = ['.'] ∨ (o.toList.splitOn '/').all goodPart

/-- `candidate == owned or candidate.startswith(owned.rstrip("/") + "/")`. -/
def covers (owned candidate : String) : Bool :=
  candidate = owned ∨
    ((owned.toList.reverse.dropWhile (· = '/')).reverse ++ ['/']).isPrefixOf candidate.toList

def dirPrefix (o o' : String) : Prop := o.toList ++ ['/'] <+: o'.toList

instance (o o' : String) : Decidable (dirPrefix o o') := inferInstanceAs (Decidable (_ <+: _))

variable {c : Char} {xs : List Char}

theorem not_mem_of_mem_splitOn {p : List Char} (h : p ∈ xs.splitOn c) : c ∉ p := by
  induction xs generalizing p with
  | nil => simp_all
  | cons x xs ih =>
    rw [List.splitOn_cons_eq_if_modifyHead] at h
    split at h
    · rcases mem_cons.mp h with rfl | h
      · simp
      · exact ih h
    · rename_i hx
      cases hs : xs.splitOn c with
      | nil => simp [hs] at h
      | cons q qs =>
        simp only [hs,List.modifyHead_cons,mem_cons] at h
        have hq : c ∉ q := ih (hs ▸ mem_cons_self)
        rcases h with rfl | h
        · simp only [mem_cons,not_or]
          exact ⟨fun he => hx (by simp [he]),hq⟩
        · exact ih (hs ▸ mem_cons_of_mem _ h)

variable {d : Char}

theorem mem_of_mem_splitOn {p : List Char} (h : p ∈ xs.splitOn c) (hd : d ∈ p) : d ∈ xs := by
  induction xs generalizing p with
  | nil => simp_all
  | cons x xs ih =>
    rw [List.splitOn_cons_eq_if_modifyHead] at h
    split at h
    · rcases mem_cons.mp h with rfl | h
      · simp at hd
      · exact mem_cons_of_mem _ (ih h hd)
    · cases hs : xs.splitOn c with
      | nil => simp [hs] at h
      | cons q qs =>
        simp only [hs,List.modifyHead_cons,mem_cons] at h
        rcases h with rfl | h
        · rcases mem_cons.mp hd with rfl | hd
          · exact mem_cons_self
          · exact mem_cons_of_mem _ (ih (hs ▸ mem_cons_self) hd)
        · exact mem_cons_of_mem _ (ih (hs ▸ mem_cons_of_mem _ h) hd)

theorem exists_mem_splitOn (hne : d ≠ c) (h : d ∈ xs) :
    ∃ p ∈ xs.splitOn c, d ∈ p := by
  induction xs with
  | nil => simp at h
  | cons x xs ih =>
    rw [List.splitOn_cons_eq_if_modifyHead]
    split
    · rename_i hx
      have hx : x = c := by simpa using hx
      rcases mem_cons.mp h with rfl | h
      · exact absurd hx hne
      · obtain ⟨p,hp,hd⟩ := ih h
        exact ⟨p,mem_cons_of_mem _ hp,hd⟩
    · cases hs : xs.splitOn c with
      | nil => simp at hs
      | cons q qs =>
        rcases mem_cons.mp h with rfl | h
        · exact ⟨d :: q,by simp,mem_cons_self⟩
        · obtain ⟨p,hp,hd⟩ := ih h
          rw [hs] at hp
          rcases mem_cons.mp hp with rfl | hp
          · exact ⟨x :: p,by simp,mem_cons_of_mem _ hd⟩
          · exact ⟨p,by simp [hp],hd⟩

theorem not_mem_replaceBackslash (cs : List Char) : '\\' ∉ replaceBackslash cs := by
  intro h
  obtain ⟨c,_,hc⟩ := List.mem_map.mp h
  split at hc
  · simp at hc
  · rename_i hne
    exact hne hc

variable {cs : List Char}

theorem goodPart_of_mem_parts {p : List Char} (h : p ∈ parts (replaceBackslash cs))
    (hup : ['.','.'] ∉ parts (replaceBackslash cs)) : goodPart p = true := by
  obtain ⟨hs,hp⟩ := List.mem_filter.mp h
  have hp' : p ≠ [] ∧ p ≠ ['.'] := by simpa using hp
  refine decide_eq_true ⟨hp'.1,hp'.2,fun he => hup (he ▸ h),fun hb => ?_⟩
  exact not_mem_replaceBackslash cs (mem_of_mem_splitOn hs hb)

variable {o : String}

/-- Every value `_norm_path` returns is a normal form. -/
theorem normPath_normal {value : String} (h : normPath value = .ok o) : isNormal o = true := by
  simp only [normPath] at h
  split at h
  · cases h
  · rename_i hok
    simp only [not_or] at hok
    obtain ⟨_,_,hup⟩ := hok
    cases h
    simp only [isNormal,join,String.toList_ofList]
    by_cases hnil : parts (replaceBackslash (strip value.toList)) = []
    · simp [hnil]
    · have hsplit : (['/'].intercalate (parts (replaceBackslash (strip value.toList)))).splitOn '/'
          = parts (replaceBackslash (strip value.toList)) :=
        List.splitOn_intercalate '/' (fun p hp => not_mem_of_mem_splitOn (List.mem_filter.mp hp).1) hnil
      simp only [if_neg hnil,hsplit,decide_eq_true_eq,all_eq_true]
      exact .inr fun p hp => goodPart_of_mem_parts hp hup

theorem strip_spelled (o : List Char) : strip (['.','/'] ++ o ++ ['/']) = ['.','/'] ++ o ++ ['/'] := by
  have hdot : isSpace '.' = false := by decide
  have hslash : isSpace '/' = false := by decide
  simp [strip,hdot,hslash]

theorem replaceBackslash_of_not_mem (h : '\\' ∉ cs) : replaceBackslash cs = cs := by
  induction cs with
  | nil => rfl
  | cons c cs ih =>
    simp only [mem_cons,not_or] at h
    have hc : ¬ c = '\\' := fun he => h.1 he.symm
    simpa [replaceBackslash,hc] using ih h.2

theorem parts_spelled (o : List Char) : parts (['.','/'] ++ o ++ ['/']) = parts o := by
  have hsplit : (['.','/'] ++ o ++ ['/']).splitOn '/' = ['.'] :: (o.splitOn '/' ++ [[]]) := by
    have hshape : ['.','/'] ++ o ++ ['/'] = ['.'] ++ '/' :: (o ++ '/' :: []) := by simp
    have hdot : List.splitOn '/' ['.'] = [['.']] := List.splitOn_eq_singleton (by decide)
    rw [hshape,List.splitOn_append_cons_self,List.splitOn_append_cons_self,hdot]
    simp
  unfold parts
  rw [hsplit]
  simp

theorem parts_of_good {o : List Char} (h : (o.splitOn '/').all goodPart = true) : parts o = o.splitOn '/' := by
  refine List.filter_eq_self.mpr fun p hp => ?_
  have hgood := all_eq_true.mp h p hp
  simp only [goodPart,decide_eq_true_eq] at hgood
  exact decide_eq_true ⟨hgood.1,hgood.2.1⟩

theorem not_mem_backslash_of_good {o : List Char} (h : (o.splitOn '/').all goodPart = true) : '\\' ∉ o := by
  intro hb
  obtain ⟨p,hp,hbp⟩ := exists_mem_splitOn (c := '/') (by decide) hb
  have hgood := all_eq_true.mp h p hp
  simp only [goodPart,decide_eq_true_eq] at hgood
  exact hgood.2.2.2 hbp

theorem normPath_spelled (h : isNormal o = true) : normPath ("./" ++ o ++ "/") = .ok o := by
  have hlist : ("./" ++ o ++ "/").toList = ['.','/'] ++ o.toList ++ ['/'] := by simp
  simp only [isNormal,decide_eq_true_eq] at h
  have hback : '\\' ∉ ['.','/'] ++ o.toList ++ ['/'] := by
    rcases h with h | h
    · simp [h]
    · have := not_mem_backslash_of_good h
      simp [this]
  have hjoin : join (parts o.toList) = o.toList ∧ ['.','.'] ∉ parts o.toList := by
    rcases h with h | h
    · rw [h]
      decide
    · rw [parts_of_good h]
      refine ⟨by simp [join],fun hm => ?_⟩
      have := all_eq_true.mp h _ hm
      simp [goodPart] at this
  simp only [normPath,hlist,strip_spelled,replaceBackslash_of_not_mem hback,parts_spelled,hjoin.1,
    String.ofList_toList]
  rw [if_neg]
  simp [isAbsolute,hjoin.2]

end Verdict.Path

/-! ## Blanks around a text

A text with a character that is no blank is not stripped away, and what is left of it starts
and ends with such characters.
-/
namespace Verdict.Path

theorem mem_dropWhile {α : Type} {p : α → Bool} {xs : List α} {a : α} (h : a ∈ xs) (hp : p a = false) : a ∈ xs.dropWhile p := by
  rw [← List.takeWhile_append_dropWhile (p := p) (l := xs)] at h
  rcases List.mem_append.mp h with htake | hdrop
  · rw [List.mem_takeWhile_imp htake] at hp
    cases hp
  · exact hdrop

variable {cs : List Char} {c : Char}

theorem strip_ne_nil (h : c ∈ cs) (hc : isSpace c = false) : strip cs ≠ [] :=
  List.ne_nil_of_mem (List.mem_reverse.mpr (mem_dropWhile (List.mem_reverse.mpr (mem_dropWhile h hc)) hc))

variable {rest : List Char}

theorem isSpace_of_head_strip (h : strip cs = c :: rest) : isSpace c = false := by
  have hprefix : strip cs <+: cs.dropWhile isSpace := by
    have hsuffix := List.dropWhile_suffix (l := (cs.dropWhile isSpace).reverse) isSpace
    rw [strip,← List.reverse_suffix,List.reverse_reverse]
    exact hsuffix
  rw [h] at hprefix
  obtain ⟨tail,htail⟩ := hprefix
  have hhead := List.head?_dropWhile_not isSpace cs
  rw [← htail] at hhead
  simpa using hhead

variable {p t : List Char}

theorem head_nonSpace (h : strip p = p) (hc : p.head? = some c) : isSpace c = false := by
  obtain ⟨rest,rfl⟩ : ∃ rest, p = c :: rest := List.head?_eq_some_iff.mp hc
  exact isSpace_of_head_strip h

theorem last_nonSpace (h : strip p = p) (hc : p.getLast? = some c) : isSpace c = false := by
  have hhead := List.head?_dropWhile_not isSpace (p.dropWhile isSpace).reverse
  have hrev : ((p.dropWhile isSpace).reverse.dropWhile isSpace).head? = some c := by
    rw [← h,strip,List.getLast?_reverse] at hc
    exact hc
  rw [hrev] at hhead
  simpa using hhead

theorem dropWhile_front (hhead : ∀ c, t.head? = some c → isSpace c = false) (hne : t ≠ []) (rest : List Char) :
    (t ++ rest).dropWhile isSpace = t ++ rest := by
  cases t with
  | nil => exact absurd rfl hne
  | cons c t => exact List.dropWhile_cons_of_neg (by rw [hhead c rfl]; decide)

theorem dropWhile_back (hlast : ∀ c, t.getLast? = some c → isSpace c = false) : t.reverse.dropWhile isSpace = t.reverse := by
  cases ht : t.reverse with
  | nil => rfl
  | cons c t' =>
    have hc : t.getLast? = some c := by rw [← List.head?_reverse,ht]; rfl
    exact List.dropWhile_cons_of_neg (by rw [hlast c hc]; decide)

theorem strip_append (hhead : ∀ c, t.head? = some c → isSpace c = false) (hlast : ∀ c, t.getLast? = some c → isSpace c = false)
    (hne : t ≠ []) (rest : List Char) : ∃ rest', strip (t ++ rest) = t ++ rest' ∧ rest' <+: rest := by
  rw [strip,dropWhile_front hhead hne,List.reverse_append,List.dropWhile_append]
  split
  · exact ⟨[],by rw [dropWhile_back hlast,List.reverse_reverse,List.append_nil],List.nil_prefix⟩
  · refine ⟨(rest.reverse.dropWhile isSpace).reverse,by rw [List.reverse_append,List.reverse_reverse],?_⟩
    rw [← List.reverse_suffix,List.reverse_reverse]
    exact List.dropWhile_suffix _

theorem strip_spaces (hhead : ∀ c ∈ t.head?, isSpace c = false) (hlast : ∀ c ∈ t.getLast?, isSpace c = false) (hne : t ≠ [])
    (hrest : ∀ c ∈ rest, isSpace c = true) : strip (t ++ rest) = t := by
  rw [strip,dropWhile_front hhead hne,List.reverse_append,
    List.dropWhile_append_of_pos fun c hc => hrest c (List.mem_reverse.mp hc),dropWhile_back hlast,List.reverse_reverse]

theorem strip_cons (hc : isSpace c = false) : ∃ t', strip (c :: t) = c :: t' := by
  rw [strip,List.dropWhile_cons_of_neg (by simpa using hc),List.reverse_cons,List.dropWhile_append]
  split
  · exact ⟨[],by simp [hc]⟩
  · exact ⟨_,List.reverse_concat ..⟩

end Verdict.Path

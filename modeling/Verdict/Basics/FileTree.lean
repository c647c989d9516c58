import Mathlib.Data.List.Infix
import Verdict.Basics.Dict

/-! # File trees

A finite tree of files, directories, links and other objects below a root, a dictionary from paths
to entries. Every entry lies in directories and every name is one a file system can hold. Two
operations change a tree: making a directory and writing a file, both in a directory that exists.
A path through a link leads somewhere else, which is kept apart from its not existing.
-/
namespace Verdict

def goodName (name : List Char) : Bool :=
  decide (name ≠ [] ∧ name ≠ ['.'] ∧ name ≠ ['.','.'] ∧ '/' ∉ name ∧ '\x00' ∉ name)

namespace FileTree

inductive Entry
  | file (content : List UInt8) (readable : Bool)
  | dir
  | link (toDir : Bool)
  | special
  deriving DecidableEq

/-- Why an operation on a path is refused; `elsewhere` is one that would act behind a link. -/
inductive Trouble
  | missing | notDirectory | isDirectory | exists | denied | loop | elsewhere | refused

end FileTree

open FileTree

structure FileTree where
  entries : Dict (List (List Char)) Entry
  named : ∀ path e, entries.get? path = some e → path ≠ [] ∧ path.all goodName = true
  closed : ∀ path e, entries.get? path = some e →
    ∀ above, above <+: path → above ≠ path → above ≠ [] → entries.get? above = some .dir

namespace FileTree
variable {t : FileTree} {path q : List (List Char)} {e : Entry}

def empty : FileTree := ⟨.empty,by simp,by simp⟩

def get? (t : FileTree) (path : List (List Char)) : Option Entry :=
  if path = [] then some .dir else t.entries.get? path

@[simp] theorem get?_nil (t : FileTree) : t.get? [] = some .dir := rfl

@[simp] theorem get?_empty (path : List (List Char)) : empty.get? path = if path = [] then some .dir else none := rfl

theorem get?_ne_nil (h : path ≠ []) : t.get? path = t.entries.get? path := if_neg h

theorem all_good (h : t.get? path = some e) : path.all goodName = true := by
  by_cases hn : path = []
  · subst hn
    rfl
  · exact (t.named path e (get?_ne_nil hn ▸ h)).2

theorem above_dir (h : t.get? path = some e) (hq : q <+: path) (hne : q ≠ path) : t.get? q = some .dir := by
  by_cases hn : q = []
  · subst hn
    rfl
  · have hpath : path ≠ [] := fun hp => hn (List.prefix_nil.mp (hp ▸ hq))
    rw [get?_ne_nil hn]
    exact t.closed path e (get?_ne_nil hpath ▸ h) q hq hne hn

def obstacle (t : FileTree) (path : List (List Char)) : Option Entry :=
  path.inits.dropLast.findSome? fun above => (t.get? above).filter (· ≠ .dir)

/-- The entry at a path, itself and not what it points to. -/
def lstat (t : FileTree) (path : List (List Char)) : Except Trouble Entry :=
  match t.get? path, t.obstacle path with
  | some e, _ => .ok e
  | none, none => .error .missing
  | none, some (.link _) => .error .elsewhere
  | none, some _ => .error .notDirectory

def Open (t : FileTree) (path : List (List Char)) : Prop :=
  ∀ above, above <+: path → above ≠ path → t.get? above = none ∨ t.get? above = some .dir

theorem open_of_get? (h : t.get? path = some e) : t.Open path := fun _ hq hne => .inr (above_dir h hq hne)

theorem mem_inits_dropLast : q ∈ path.inits.dropLast ↔ q <+: path ∧ q ≠ path := by
  induction path generalizing q with
  | nil => simp
  | cons x xs ih =>
    have hinits : (x :: xs).inits.dropLast = [] :: (xs.inits.dropLast.map (x :: ·)) := by
      have hne : xs.inits ≠ [] := fun h => by simpa using congrArg List.length h
      rw [List.inits_cons,List.dropLast_cons_of_ne_nil (by simpa using hne),List.map_dropLast]
    rw [hinits]
    cases q with
    | nil => simp
    | cons y ys =>
      simp only [List.mem_cons,List.mem_map,List.cons_prefix_cons,List.cons.injEq,reduceCtorEq,false_or]
      constructor
      · rintro ⟨zs,hzs,rfl,rfl⟩
        obtain ⟨hp,hne⟩ := ih.mp hzs
        exact ⟨⟨rfl,hp⟩,by simpa using hne⟩
      · rintro ⟨⟨rfl,hp⟩,hne⟩
        exact ⟨ys,ih.mpr ⟨hp,by simpa using hne⟩,rfl,rfl⟩

theorem obstacle_eq_none : t.obstacle path = none ↔ t.Open path := by
  simp only [obstacle,List.findSome?_eq_none_iff,mem_inits_dropLast,and_imp]
  refine forall_congr' fun above => forall_congr' fun _ => forall_congr' fun _ => ?_
  cases t.get? above with
  | none => simp
  | some e => simp [Option.filter]

theorem lstat_of_get? (h : t.get? path = some e) : t.lstat path = .ok e := by
  simp only [lstat,h]

theorem lstat_missing (h : t.get? path = none) (ho : t.Open path) : t.lstat path = .error .missing := by
  simp only [lstat,h,obstacle_eq_none.mpr ho]

theorem lstat_ok_iff : t.lstat path = .ok e ↔ t.get? path = some e := by
  refine ⟨fun h => ?_,lstat_of_get?⟩
  unfold lstat at h
  split at h
  · rename_i e' hget
    rw [hget,Except.ok.inj h]
  all_goals cases h

/-! ## What changes a tree -/

/-- An entry can stand at the path: its directory exists, and it replaces no directory. -/
structure Room (t : FileTree) (path : List (List Char)) : Prop where
  good : path.all goodName = true
  below : path ≠ []
  parent : t.get? path.dropLast = some .dir
  noDir : t.get? path ≠ some .dir

instance (t : FileTree) (path : List (List Char)) : Decidable (t.Room path) :=
  decidable_of_iff (path.all goodName = true ∧ path ≠ [] ∧ t.get? path.dropLast = some .dir ∧ t.get? path ≠ some .dir)
    ⟨fun ⟨a,b,c,d⟩ => ⟨a,b,c,d⟩,fun ⟨a,b,c,d⟩ => ⟨a,b,c,d⟩⟩

theorem prefix_dropLast (h : q <+: path) (hne : q ≠ path) : q <+: path.dropLast := by
  obtain ⟨rest,rfl⟩ := h
  have hrest : rest ≠ [] := by
    rintro rfl
    exact hne (List.append_nil q).symm
  rw [List.dropLast_append_of_ne_nil hrest]
  exact List.prefix_append q rest.dropLast

theorem Room.above (h : t.Room path) (hq : q <+: path) (hne : q ≠ path) : t.get? q = some .dir := by
  have hpre := prefix_dropLast hq hne
  by_cases heq : q = path.dropLast
  · exact heq ▸ h.parent
  · exact above_dir h.parent hpre heq

def put (t : FileTree) (path : List (List Char)) (e : Entry) (h : t.Room path) : FileTree where
  entries := t.entries.set path e
  named q e' hq := by
    rw [Dict.get?_set] at hq
    split at hq
    · rename_i heq
      exact heq ▸ ⟨h.below,h.good⟩
    · exact t.named q e' hq
  closed q e' hq above hpre hne hnil := by
    rw [Dict.get?_set] at hq
    rw [Dict.get?_set]
    split at hq
    · rename_i heq
      subst heq
      rw [if_neg hne,← get?_ne_nil hnil]
      exact h.above hpre hne
    · have hdir := t.closed q e' hq above hpre hne hnil
      have hother : above ≠ path := fun heq => h.noDir (by rw [get?_ne_nil h.below,← heq]; exact hdir)
      rw [if_neg hother]
      exact hdir

theorem get?_put (h : t.Room path) (e : Entry) (q : List (List Char)) :
    (t.put path e h).get? q = if q = path then some e else t.get? q := by
  by_cases hq : q = []
  · subst hq
    rw [if_neg fun heq => h.below heq.symm,get?_nil,get?_nil]
  · rw [get?_ne_nil hq,get?_ne_nil hq]
    exact Dict.get?_set _ _ _ _

def inTheWay (t : FileTree) (path : List (List Char)) : Trouble := match t.lstat path.dropLast with
  | .ok .dir => .refused
  | .ok (.link _) => .elsewhere
  | .ok _ => .notDirectory
  | .error trouble => trouble

def mkdir (t : FileTree) (path : List (List Char)) : Except Trouble FileTree := match t.get? path with
  | some _ => .error .exists
  | none => if h : t.Room path then .ok (t.put path .dir h) else .error (t.inTheWay path)

/-- Open without following a link, create or truncate, and write. A new file can be read as said; an
existing one keeps its mode. -/
def write (t : FileTree) (path : List (List Char)) (content : List UInt8) (readable : Bool) :
    Except Trouble FileTree := match t.get? path with
  | some .dir => .error .isDirectory
  | some (.link _) => .error .loop
  | some .special => .error .refused
  | some (.file _ keeps) => if h : t.Room path then .ok (t.put path (.file content keeps) h) else .error (t.inTheWay path)
  | none => if h : t.Room path then .ok (t.put path (.file content readable) h) else .error (t.inTheWay path)

def Free (t : FileTree) (path : List (List Char)) : Prop :=
  t.get? path = none ∨ ∃ content readable, t.get? path = some (.file content readable)

theorem mkdir_spec (h : t.get? path = none) (hgood : path.all goodName = true) (hne : path ≠ [])
    (hparent : t.get? path.dropLast = some .dir) :
    ∃ t', t.mkdir path = .ok t' ∧ ∀ q, t'.get? q = if q = path then some .dir else t.get? q := by
  have hroom : t.Room path := ⟨hgood,hne,hparent,by simp [h]⟩
  refine ⟨t.put path .dir hroom,?_,get?_put hroom .dir⟩
  simp only [mkdir,h,dif_pos hroom]

theorem write_spec (h : t.Free path) (hgood : path.all goodName = true) (hne : path ≠ [])
    (hparent : t.get? path.dropLast = some .dir) (content : List UInt8) (readable : Bool) :
    ∃ t' keeps, t.write path content readable = .ok t' ∧ (t.get? path = none → keeps = readable) ∧
      ∀ q, t'.get? q = if q = path then some (.file content keeps) else t.get? q := by
  have hroom : t.Room path := by
    refine ⟨hgood,hne,hparent,?_⟩
    rcases h with h | ⟨_,_,h⟩ <;> simp [h]
  rcases h with h | ⟨_,keeps,h⟩
  · refine ⟨t.put path (.file content readable) hroom,readable,?_,fun _ => rfl,get?_put hroom _⟩
    simp only [write,h,dif_pos hroom]
  · refine ⟨t.put path (.file content keeps) hroom,keeps,?_,fun hn => by simp [hn] at h,get?_put hroom _⟩
    simp only [write,h,dif_pos hroom]

end FileTree
end Verdict

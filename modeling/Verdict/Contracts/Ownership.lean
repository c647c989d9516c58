import Verdict.Contracts.WorkGraph

/-! # Ownership of concurrent writers

`_check_ownership` compares the owned entries of unordered writers as strings,
while `owns` grants a whole directory. The two agree exactly when no entry of one
writer is a directory above an entry of an unordered one.
-/
namespace Verdict.WorkGraph
open Path

theorem checkAgainst_ok {nodes rest : List WorkNode} {left : WorkNode}
    (h : checkAgainst nodes left rest = .ok ()) :
    ∀ right ∈ rest, ordered nodes left right = true ∨ overlap left right = [] := by
  induction rest with
  | nil => simp
  | cons r rest ih =>
    intro right hr
    simp only [checkAgainst] at h
    split at h
    · rename_i hord
      rcases List.mem_cons.mp hr with rfl | hr
      · exact .inl hord
      · exact ih h right hr
    · split at h
      · cases h
      · rename_i hov
        rcases List.mem_cons.mp hr with rfl | hr
        · exact .inr (not_not.mp hov)
        · exact ih h right hr

theorem checkWriters_ok {nodes writers : List WorkNode} (h : checkWriters nodes writers = .ok ()) :
    writers.Pairwise fun left right => ordered nodes left right = true ∨ overlap left right = [] := by
  induction writers with
  | nil => exact .nil
  | cons left rest ih =>
    simp only [checkWriters] at h
    split at h
    · cases h
    · rename_i hleft
      exact .cons (checkAgainst_ok hleft) (ih h)

theorem ordered_comm (nodes : List WorkNode) (a b : WorkNode) : ordered nodes a b = ordered nodes b a := by
  simp only [ordered,or_comm]

theorem overlap_eq_nil {a b : WorkNode} : overlap a b = [] ↔ ∀ o ∈ a.ownedFiles, o ∉ b.ownedFiles := by
  rw [List.eq_nil_iff_forall_not_mem]
  simp only [overlap,mem_sorted,List.mem_filter,List.mem_dedup,decide_eq_true_eq,not_and]

variable (g : WorkGraph)

theorem ownedFiles_disjoint {a b : WorkNode} (ha : a ∈ g.nodes) (hb : b ∈ g.nodes)
    (hka : a.kind = .implement) (hkb : b.kind = .implement) (hne : a.nodeId ≠ b.nodeId)
    (hord : ordered g.nodes a b = false) : ∀ o ∈ a.ownedFiles, o ∉ b.ownedFiles := by
  have hok : checkOwnership g.nodes = .ok () := by
    have := g.disjoint
    cases hc : checkOwnership g.nodes with
    | error e => simp [hc,Except.isOk,Except.toBool] at this
    | ok u => rfl
  have hpair := checkWriters_ok hok
  have hsymm : ∀ x y : WorkNode, (ordered g.nodes x y = true ∨ overlap x y = []) →
      ordered g.nodes y x = true ∨ overlap y x = [] := by
    intro x y h
    rcases h with h | h
    · exact .inl (ordered_comm g.nodes x y ▸ h)
    · exact .inr (overlap_eq_nil.mpr fun o ho ho' => overlap_eq_nil.mp h o ho' ho)
  have : Std.Symm fun x y : WorkNode => ordered g.nodes x y = true ∨ overlap x y = [] := ⟨hsymm⟩
  have hab := hpair.forall (List.mem_filter.mpr ⟨ha,decide_eq_true hka⟩)
    (List.mem_filter.mpr ⟨hb,decide_eq_true hkb⟩) fun h => hne (h ▸ rfl)
  rcases hab with h | h
  · simp [h] at hord
  · exact overlap_eq_nil.mp h

theorem rstrip_of_normal {o : String} (h : isNormal o = true) :
    (o.toList.reverse.dropWhile (· = '/')).reverse = o.toList := by
  rcases List.eq_nil_or_concat o.toList with hnil | ⟨xs,c,hc⟩
  · simp [hnil]
  · have hne : c ≠ '/' := by
      rintro rfl
      simp only [isNormal,hc,decide_eq_true_eq] at h
      rcases h with h | h
      · cases xs <;> simp at h
      · have hlast : ([] : List Char) ∈ (xs ++ ['/']).splitOn '/' := by
          rw [List.splitOn_append_cons_self]
          simp
        have := List.all_eq_true.mp h [] (by simpa using hlast)
        simp [goodPart] at this
    simp [hc,hne]

theorem covers_iff {o c : String} (h : isNormal o = true) : covers o c = true ↔ c = o ∨ dirPrefix o c := by
  simp only [covers,rstrip_of_normal h,decide_eq_true_eq,List.isPrefixOf_iff_prefix,dirPrefix]

theorem owns_iff {n : WorkNode} {path : String} :
    n.owns path = true ↔ ∃ c, normPath path = .ok c ∧ ∃ o ∈ n.ownedFiles, c = o ∨ dirPrefix o c := by
  cases hp : normPath path with
  | error e => simp [WorkNode.owns,hp]
  | ok c =>
    simp only [WorkNode.owns,hp,List.any_eq_true,Except.ok.injEq,exists_eq_left']
    constructor
    · rintro ⟨o,ho,hc⟩
      exact ⟨o,ho,(covers_iff (n.ownedNormal o ho)).mp hc⟩
    · rintro ⟨o,ho,hc⟩
      exact ⟨o,ho,(covers_iff (n.ownedNormal o ho)).mpr hc⟩

theorem nested_of_common {o o' c : String} (h : c = o ∨ dirPrefix o c) (h' : c = o' ∨ dirPrefix o' c) :
    o = o' ∨ dirPrefix o o' ∨ dirPrefix o' o := by
  rcases h with rfl | h
  · rcases h' with h' | h'
    · exact .inl h'
    · exact .inr (.inr h')
  · rcases h' with rfl | h'
    · exact .inr (.inl h)
    · rcases Nat.lt_trichotomy o.toList.length o'.toList.length with hl | hl | hl
      · refine .inr (.inl ?_)
        have hle : (o.toList ++ ['/']).length ≤ o'.toList.length := by
          simp only [List.length_append,List.length_singleton]
          omega
        exact List.prefix_of_prefix_length_le h ((List.prefix_append _ _).trans h') hle
      · have heq := List.prefix_of_prefix_length_le ((List.prefix_append _ _).trans h)
          ((List.prefix_append _ _).trans h') hl.le
        exact .inl (String.toList_injective (heq.eq_of_length hl))
      · refine .inr (.inr ?_)
        have hle : (o'.toList ++ ['/']).length ≤ o.toList.length := by
          simp only [List.length_append,List.length_singleton]
          omega
        exact List.prefix_of_prefix_length_le h' ((List.prefix_append _ _).trans h) hle

/-- Two writers that both pass the ownership barrier for one path are ordered. -/
def DisjointWriters : Prop :=
  ∀ a ∈ g.nodes, ∀ b ∈ g.nodes, a.kind = .implement → b.kind = .implement → a.nodeId ≠ b.nodeId →
    ∀ path, a.owns path = true → b.owns path = true →
      a.nodeId ∈ ancestors g.nodes b.nodeId ∨ b.nodeId ∈ ancestors g.nodes a.nodeId

/-- No entry of a writer is a directory above an entry of an unordered writer. -/
def NoNestedEntries : Prop :=
  ∀ a ∈ g.nodes, ∀ b ∈ g.nodes, a.kind = .implement → b.kind = .implement → a.nodeId ≠ b.nodeId →
    ordered g.nodes a b = false → ∀ o ∈ a.ownedFiles, ∀ o' ∈ b.ownedFiles, ¬ dirPrefix o o'

theorem disjointWriters_iff_noNestedEntries (g : WorkGraph) : DisjointWriters g ↔ NoNestedEntries g := by
  constructor
  · intro h a ha b hb hka hkb hne hord o ho o' ho' hpre
    -- the nested entry itself is a path that both writers own
    have hnorm := normPath_spelled (b.ownedNormal o' ho')
    have hown := h a ha b hb hka hkb hne ("./" ++ o' ++ "/")
      (owns_iff.mpr ⟨o',hnorm,o,ho,.inr hpre⟩) (owns_iff.mpr ⟨o',hnorm,o',ho',.inl rfl⟩)
    simp only [ordered,decide_eq_false_iff_not] at hord
    exact hord hown
  · intro h a ha b hb hka hkb hne path hpa hpb
    by_contra hnot
    have hord : ordered g.nodes a b = false := decide_eq_false hnot
    obtain ⟨c,hc,o,ho,hco⟩ := owns_iff.mp hpa
    obtain ⟨c',hc',o',ho',hco'⟩ := owns_iff.mp hpb
    obtain rfl : c = c' := Except.ok.inj (hc.symm.trans hc')
    rcases nested_of_common hco hco' with heq | hpre | hpre
    · exact ownedFiles_disjoint g ha hb hka hkb hne hord o ho (heq ▸ ho')
    · exact h a ha b hb hka hkb hne hord o ho o' ho' hpre
    · exact h b hb a ha hkb hka hne.symm (ordered_comm g.nodes a b ▸ hord) o' ho' o ho hpre

def nestedWriters : WorkGraph where
  nodes := [{ nodeId := "a", objective := "rewrite the package", ownedFiles := ["src"],
              verificationCommand := ["pytest"] },
            { nodeId := "b", objective := "fix one module", ownedFiles := ["src/x.py"],
              verificationCommand := ["pytest"] }]

theorem nestedWriters_not_disjoint : ¬ DisjointWriters nestedWriters := by
  intro h
  have := h _ List.mem_cons_self _ (List.mem_cons_of_mem _ List.mem_cons_self) rfl rfl (by decide)
    "src/x.py" (by decide) (by decide)
  revert this
  decide

end Verdict.WorkGraph

import Verdict.Contracts.WorkGraph

/-! # The layers of a work graph

`layers` peels the nodes whose dependencies are done. Where it succeeds, every node stands in
the earliest layer that its dependencies leave it; where it raises, it names the nodes behind
which there is a cycle, and no other.
-/
namespace Verdict.WorkGraph
open Search
open Prod (fst)

/-- Every node stands in one layer, above its dependencies and right above one of them. -/
structure LayersOf (nodes : List WorkNode) (layers : List (List String)) : Prop where
  every : layers.flatten.Perm (nodeIds nodes)
  sorted : ∀ layer ∈ layers, layer ≠ [] ∧ layer.Pairwise (· ≤ ·)
  above : ∀ k i, At layers k i → ∀ d ∈ dependsOf nodes i, ∃ j < k, At layers j d
  earliest : ∀ k i, At layers (k+1) i → ∃ d ∈ dependsOf nodes i, At layers k d

theorem entries_next {nodes : List WorkNode} (hnodup : (nodeIds nodes).Nodup) :
    ∀ e ∈ nodes.map (fun n => (n.nodeId,n.dependsOn)), e.2 = dependsOf nodes e.1 := by
  intro e he
  obtain ⟨n,hn,rfl⟩ := List.mem_map.mp he
  have hfound : node? nodes n.nodeId = some n := by
    cases hf : node? nodes n.nodeId with
    | none => simpa using List.find?_eq_none.mp hf n hn
    | some m =>
      obtain ⟨hm,hid⟩ := node?_some hf
      rw [List.inj_on_of_nodup_map hnodup hm hn hid]
  simp only [dependsOf,hfound]

theorem layersOf_of_ok {nodes : List WorkNode} {ls : List (List String)} (hnodup : (nodeIds nodes).Nodup)
    (h : layers nodes = .ok ls) : LayersOf nodes ls := by
  have hkeys : (nodes.map fun n => (n.nodeId,n.dependsOn)).map fst = nodeIds nodes := by simp [nodeIds]
  simp only [layers] at h
  split at h
  · next result hpeel =>
    cases h
    obtain ⟨hperm,hlayered,hsorted⟩ := peel_layered (fun xs => List.perm_insertionSort _ xs) (entries_next hnodup) hpeel
    rw [hkeys] at hperm
    refine ⟨hperm,fun l hl => ?_,fun k i hi d hd => ?_,fun k i hi => hlayered.earliest hi⟩
    · obtain ⟨hne,xs,rfl⟩ := hsorted l hl
      exact ⟨hne,List.pairwise_insertionSort _ xs⟩
    · exact (hlayered.above hi hd).resolve_left (List.not_mem_nil)
  · cases h

section
variable {nodes : List WorkNode} (hnodup : (nodeIds nodes).Nodup)
include hnodup

theorem climbs_entries : ∀ e ∈ nodes.map (fun n => (n.nodeId,n.dependsOn)), (∀ d ∈ e.2, ¬ Circular (dependsOf nodes) d) →
    ¬ Circular (dependsOf nodes) e.1 :=
  fun e he hd => not_circular_of_next fun d hdep => hd d (entries_next hnodup e he ▸ hdep)

theorem not_circular_of_ok {ls : List (List String)} (h : layers nodes = .ok ls) :
    ∀ i ∈ nodeIds nodes, ¬ Circular (dependsOf nodes) i := by
  intro i hi
  simp only [layers] at h
  split at h
  · next result hpeel =>
    obtain ⟨n,hn,rfl⟩ := List.mem_map.mp hi
    have hall := peel_induction (fun xs x => mem_sorted) hpeel (by simp) (climbs_entries hnodup)
    exact hall _ (List.mem_map_of_mem hn)
  · cases h

variable (hknown : ∀ n ∈ nodes, ∀ d ∈ n.dependsOn, d ∈ nodeIds nodes)
include hknown

theorem mem_left_iff {e : OrchestrationError} (h : layers nodes = .error e) : ∃ left, e = .cycle left ∧ left ≠ [] ∧
    left.Pairwise (· ≤ ·) ∧ ∀ i, i ∈ left ↔ i ∈ nodeIds nodes ∧ Circular (dependsOf nodes) i := by
  have hkeys : (nodes.map fun n => (n.nodeId,n.dependsOn)).map fst = nodeIds nodes := by simp [nodeIds]
  simp only [layers] at h
  split at h
  · cases h
  next left hpeel =>
  cases h
  obtain ⟨rest,hsub,hne,rfl,hwaits,hfree⟩ := peel_stuck (fun xs => List.perm_insertionSort _ xs) (entries_next hnodup)
    (by simp) hpeel
  -- what is left depends on what is left, for ever
  have hclosed : ∀ i ∈ rest.map fst, ∃ d ∈ dependsOf nodes i, d ∈ rest.map fst := by
    intro i hi
    obtain ⟨e,he,rfl⟩ := List.mem_map.mp hi
    obtain ⟨d,hd,-,hin⟩ := hwaits e he
    have hdep : d ∈ dependsOf nodes e.1 := entries_next hnodup e (hsub.subset he) ▸ hd
    refine ⟨d,hdep,hin ?_⟩
    obtain ⟨n,hn,hen⟩ := List.mem_map.mp (hsub.subset he)
    rw [hkeys]
    exact hknown n hn d (by rw [← hen] at hd; exact hd)
  refine ⟨_,rfl,?_,List.pairwise_insertionSort _ _,fun i => ?_⟩
  · intro hnil
    exact hne (List.map_eq_nil_iff.mp (List.Perm.eq_nil (hnil ▸ (List.perm_insertionSort _ _).symm)))
  · change i ∈ sorted (rest.map fst) ↔ _
    rw [mem_sorted]
    constructor
    · intro hi
      exact ⟨hkeys ▸ (hsub.map fst).subset hi,circular_of_closed hclosed hi⟩
    · rintro ⟨hi,hcirc⟩
      obtain ⟨n,hn,rfl⟩ := List.mem_map.mp hi
      exact (hfree _ (by simp) (climbs_entries hnodup) _ (List.mem_map_of_mem hn)).resolve_right (not_not.mpr hcirc)

end

variable {rest : List WorkNode}

theorem checkKnown_iff {nodes : List WorkNode} :
    checkKnown nodes rest = .ok () ↔ ∀ n ∈ rest, ∀ d ∈ n.dependsOn, d ∈ nodeIds nodes := by
  refine ⟨checkKnown_ok,fun h => ?_⟩
  induction rest with
  | nil => rfl
  | cons n rest ih =>
    have hnone : unknownOf nodes n = [] := by
      refine List.eq_nil_iff_forall_not_mem.mpr fun d hd => ?_
      obtain ⟨hd,hnot⟩ := List.mem_filter.mp (mem_sorted.mp hd)
      exact of_decide_eq_true hnot (h n List.mem_cons_self d (List.mem_dedup.mp hd))
    rw [checkKnown,if_neg (not_not.mpr hnone)]
    exact ih fun m hm => h m (List.mem_cons_of_mem _ hm)

variable {left : List String}

theorem checkKnown_ne_cycle {nodes : List WorkNode} : checkKnown nodes rest ≠ .error (.cycle left) := by
  induction rest with
  | nil => rintro ⟨⟩
  | cons n rest ih =>
    rw [checkKnown]
    split
    · rintro ⟨⟩
    · exact ih

theorem checkAgainst_ne_cycle {nodes : List WorkNode} {n : WorkNode} :
    checkAgainst nodes n rest ≠ .error (.cycle left) := by
  induction rest with
  | nil => rintro ⟨⟩
  | cons m rest ih =>
    rw [checkAgainst]
    split
    · exact ih
    split
    · rintro ⟨⟩
    · exact ih

theorem checkOwnership_ne_cycle {nodes : List WorkNode} : checkOwnership nodes ≠ .error (.cycle left) := by
  rw [checkOwnership]
  generalize nodes.filter (fun n => decide (n.kind = .implement)) = writers
  induction writers with
  | nil => rintro ⟨⟩
  | cons n rest ih =>
    rw [checkWriters]
    split
    · next e he =>
      rintro ⟨⟩
      exact checkAgainst_ne_cycle he
    · exact ih

variable {maxParallel : ℤ}

theorem init_error_cycle {nodes : List WorkNode}
    (h : init nodes maxParallel = .error (.cycle left)) : left ≠ [] ∧ left.Pairwise (· ≤ ·) ∧ ∀ i, i ∈ left
    ↔ i ∈ nodeIds nodes ∧ Circular (dependsOf nodes) i := by
  unfold init at h
  split at h
  · cases h
  split at h
  · cases h
  next hd =>
  split at h
  · next e hk =>
    cases h
    exact absurd hk checkKnown_ne_cycle
  next hk =>
  split at h
  · next e hl =>
    cases h
    obtain ⟨left',heq,hleft⟩ := mem_left_iff (not_not.mp hd) (checkKnown_ok hk) hl
    cases heq
    exact hleft
  split at h
  · next e ho =>
    cases h
    exact absurd ho checkOwnership_ne_cycle
  split at h
  · cases h
  · cases h

theorem init_of_circular {nodes : List WorkNode} (hne : nodes ≠ []) (hnodup : (nodeIds nodes).Nodup)
    (hknown : ∀ n ∈ nodes, ∀ d ∈ n.dependsOn, d ∈ nodeIds nodes) (hcirc : ∃ i ∈ nodeIds nodes, Circular (dependsOf nodes) i) :
    ∃ left, init nodes maxParallel = .error (.cycle left) := by
  have hk := checkKnown_iff.mpr hknown
  cases hl : layers nodes with
  | ok ls =>
    obtain ⟨i,hi,hcirc⟩ := hcirc
    exact absurd hcirc (not_circular_of_ok hnodup hl i hi)
  | error e =>
    obtain ⟨left,rfl,-⟩ := mem_left_iff hnodup hknown hl
    refine ⟨left,?_⟩
    unfold init
    rw [dif_neg hne,dif_neg (not_not.mpr hnodup)]
    split
    · next e hk' => rw [hk] at hk'; cases hk'
    split
    · next e hl' => rw [hl] at hl'; cases hl'; rfl
    · next hl' => rw [hl] at hl'; cases hl'

/-- A graph that is built has layers, in which a node stands right above one of its dependencies
and above all of them. Nodes with distinct ids and known dependencies are refused for a cycle
exactly when there is one, and the error then names the nodes that depend on a cycle. -/
theorem construction_layered (nodes : List WorkNode) (maxParallel : ℤ) :
    (∀ g, init nodes maxParallel = .ok g → (∃ ls, layers g.nodes = .ok ls ∧ LayersOf g.nodes ls) ∧
      ∀ i ∈ g.ids, ¬ Circular (dependsOf g.nodes) i) ∧
    (∀ left, init nodes maxParallel = .error (.cycle left) → left ≠ [] ∧ left.Pairwise (· ≤ ·) ∧
      ∀ i, i ∈ left ↔ i ∈ nodeIds nodes ∧ Circular (dependsOf nodes) i) ∧
    (nodes ≠ [] → (nodeIds nodes).Nodup → (∀ n ∈ nodes, ∀ d ∈ n.dependsOn, d ∈ nodeIds nodes) →
      (∃ i ∈ nodeIds nodes, Circular (dependsOf nodes) i) → ∃ left, init nodes maxParallel = .error (.cycle left)) := by
  refine ⟨fun g _ => ?_,fun left => init_error_cycle,init_of_circular⟩
  cases hl : layers g.nodes with
  | ok ls => exact ⟨⟨ls,rfl,layersOf_of_ok g.nodup hl⟩,not_circular_of_ok g.nodup hl⟩
  | error e => exact absurd g.acyclic (by rw [hl]; exact Bool.false_ne_true)

def joinNode (id : String) (h : Path.strip id.toList ≠ []) (dependsOn : List String) (hself : id ∉ dependsOn) : WorkNode :=
  {nodeId := id, objective := "merge", kind := .integrate, dependsOn := dependsOn, ownedNormal := WorkNode.normal_nil, contextNormal := WorkNode.normal_nil, named := ⟨h,by decide⟩, notSelf := hself}

/-- Two steps and their join stand in three layers. -/
def joined : List WorkNode := [joinNode "k" (by decide) [] (by decide),joinNode "l" (by decide) ["k"] (by decide),
  joinNode "m" (by decide) ["k","l"] (by decide)]

def looped : List WorkNode := [joinNode "k" (by decide) ["l"] (by decide),joinNode "l" (by decide) ["k"] (by decide),
  joinNode "m" (by decide) ["l"] (by decide),joinNode "n" (by decide) [] (by decide)]

theorem construction_layered_joined : (∃ g ls, init joined 2 = .ok g ∧ layers g.nodes = .ok ls ∧ LayersOf g.nodes ls) ∧
    init looped 2 = .error (.cycle ["k","l","m"]) ∧ Circular (dependsOf looped) "m" ∧ ¬Circular (dependsOf looped) "n" := by
  have hleft : init looped 2 = .error (.cycle ["k","l","m"]) := by rfl
  have hnamed := ((construction_layered looped 2).2.1 ["k","l","m"] hleft).2.2
  refine ⟨?_,hleft,((hnamed "m").mp (by decide)).2,fun hcirc => absurd ((hnamed "n").mpr ⟨by decide,hcirc⟩) (by decide)⟩
  cases hg : init joined 2 with
  | error e =>
    have hok : (init joined 2).isOk = true := by rfl
    rw [hg] at hok
    cases hok
  | ok g =>
    obtain ⟨⟨ls,hls,hlayers⟩,-⟩ := (construction_layered joined 2).1 g hg
    exact ⟨g,ls,rfl,hls,hlayers⟩

end Verdict.WorkGraph

import Verdict.Basics.Search
import Verdict.Contracts.Path

/-! # Work nodes and validated work graphs

`WorkNode` and `WorkGraph` carry what their `__post_init__` establishes, so a value
of either type is one that the validators accepted; `WorkNode.init` and
`WorkGraph.init` are the validators. The graph functions work on the node list,
because `__post_init__` calls them before the graph is known to be well formed.
-/
namespace Verdict
open Path

/-- A planner may hand over a flag in place of a barrier name. -/
inductive BarrierArg
  | flag (b : Bool)
  | text (s : String)

structure NodeArgs where
  (nodeId objective : String)
  kind : NodeKind := .implement
  dependsOn : List String := []
  ownedFiles : List String := []
  requiredContext : List String := []
  verificationCommand : List String := []
  barrier : BarrierArg := .text ""
  risk : Option String := some "low"

structure WorkNode where
  (nodeId objective : String)
  kind : NodeKind := .implement
  dependsOn : List String := []
  ownedFiles : List String := []
  requiredContext : List String := []
  verificationCommand : List String := []
  barrier : Option Barrier := none
  risk : Risk := .low
  named : strip nodeId.toList ≠ [] ∧ strip objective.toList ≠ [] := by decide
  ownedNormal : ∀ o ∈ ownedFiles, isNormal o = true := by decide
  contextNormal : ∀ o ∈ requiredContext, isNormal o = true := by decide
  implementOwns : kind = .implement → ownedFiles ≠ [] := by decide
  implementVerifies : kind = .implement → verificationCommand ≠ [] := by decide
  notSelf : nodeId ∉ dependsOn := by decide
  deriving DecidableEq

namespace WorkNode

def barrierOf : BarrierArg → Option Barrier
  | .flag true => some .integration
  | .flag false => none
  | .text s => Barrier.ofName s

def riskOf : Option String → Risk
  | none => .medium
  | some s => match s.toList.map Char.toLower with
    | ['l','o','w'] => .low
    | ['h','i','g','h'] => .high
    | _ => .medium

theorem mapM_normPath_normal {xs ys : List String} (h : xs.mapM normPath = .ok ys) :
    ∀ o ∈ ys, isNormal o = true := by
  induction xs generalizing ys with
  | nil => cases h; simp
  | cons x xs ih =>
    simp only [List.mapM_cons] at h
    cases hx : normPath x with
    | error e => rw [hx] at h; cases h
    | ok o =>
      cases hxs : xs.mapM normPath with
      | error e => rw [hx,hxs] at h; cases h
      | ok os =>
        rw [hx,hxs] at h
        cases h
        intro p hp
        rcases List.mem_cons.mp hp with rfl | hp
        · exact normPath_normal hx
        · exact ih hxs p hp

/-- `WorkNode.__post_init__`. -/
def init (args : NodeArgs) : Except OrchestrationError WorkNode :=
  if hn : strip args.nodeId.toList = [] ∨ strip args.objective.toList = [] then .error .unnamed
  else match ho : args.ownedFiles.mapM normPath with
  | .error e => .error e
  | .ok owned => match hc : args.requiredContext.mapM normPath with
    | .error e => .error e
    | .ok context =>
      if hi : args.kind = .implement ∧ owned = [] then .error (.needsOwnedFiles args.nodeId)
      else if hv : args.kind = .implement ∧ args.verificationCommand = [] then
        .error (.needsVerification args.nodeId)
      else if hs : args.nodeId ∈ args.dependsOn then .error (.selfDependency args.nodeId)
      else .ok {
        nodeId := args.nodeId
        objective := args.objective
        kind := args.kind
        dependsOn := args.dependsOn
        ownedFiles := owned
        requiredContext := context
        verificationCommand := args.verificationCommand
        barrier := barrierOf args.barrier
        risk := riskOf args.risk
        named := not_or.mp hn
        ownedNormal := mapM_normPath_normal ho
        contextNormal := mapM_normPath_normal hc
        implementOwns := fun hk h => hi ⟨hk,h⟩
        implementVerifies := fun hk h => hv ⟨hk,h⟩
        notSelf := hs }

theorem nodeId_ne (n : WorkNode) : n.nodeId ≠ "" := by
  intro h
  have := n.named.1
  rw [h] at this
  exact this rfl

/-- `WorkNode.owns`: a path outside the repository is owned by nobody. -/
def owns (n : WorkNode) (path : String) : Bool :=
  match normPath path with
  | .error _ => false
  | .ok candidate => n.ownedFiles.any fun owned => covers owned candidate

theorem normal_nil : ∀ o ∈ ([] : List String), isNormal o = true := by simp

theorem verifies_pytest : NodeKind.implement = .implement → ["pytest"] ≠ [] := by simp

theorem implement_one (x : String) : NodeKind.implement = .implement → [x] ≠ [] := by simp

theorem normal_a : ∀ o ∈ ["a.py"], isNormal o = true := by decide

end WorkNode

namespace WorkGraph

def sorted (xs : List String) : List String := xs.insertionSort fun a b => a ≤ b

theorem mem_sorted {xs : List String} {x : String} : x ∈ sorted xs ↔ x ∈ xs := List.mem_insertionSort _

def nodeIds (nodes : List WorkNode) : List String := nodes.map WorkNode.nodeId

def node? (nodes : List WorkNode) (nodeId : String) : Option WorkNode :=
  nodes.find? fun n => n.nodeId = nodeId

def dependsOf (nodes : List WorkNode) (nodeId : String) : List String :=
  match node? nodes nodeId with
  | some n => n.dependsOn
  | none => []

def layers (nodes : List WorkNode) : Except OrchestrationError (List (List String)) :=
  match Search.peel sorted nodes.length (nodes.map fun n => (n.nodeId,n.dependsOn)) [] with
  | .ok result => .ok result
  | .error left => .error (.cycle left)

def ancestors (nodes : List WorkNode) (nodeId : String) : List String :=
  let start := (dependsOf nodes nodeId).reverse
  Search.search (dependsOf nodes) (Search.cost (dependsOf nodes) (nodeIds nodes) start []) start []

def ordered (nodes : List WorkNode) (left right : WorkNode) : Bool :=
  left.nodeId ∈ ancestors nodes right.nodeId ∨ right.nodeId ∈ ancestors nodes left.nodeId

def overlap (left right : WorkNode) : List String :=
  sorted (left.ownedFiles.dedup.filter fun o => decide (o ∈ right.ownedFiles))

def checkAgainst (nodes : List WorkNode) (left : WorkNode) : List WorkNode → Except OrchestrationError Unit
  | [] => .ok ()
  | right :: rest =>
    if ordered nodes left right then checkAgainst nodes left rest
    else if overlap left right ≠ [] then .error (.bothOwn left.nodeId right.nodeId (overlap left right))
    else checkAgainst nodes left rest

def checkWriters (nodes : List WorkNode) : List WorkNode → Except OrchestrationError Unit
  | [] => .ok ()
  | left :: rest => match checkAgainst nodes left rest with
    | .error e => .error e
    | .ok () => checkWriters nodes rest

def checkOwnership (nodes : List WorkNode) : Except OrchestrationError Unit :=
  checkWriters nodes (nodes.filter fun n => decide (n.kind = .implement))

def unknownOf (nodes : List WorkNode) (n : WorkNode) : List String :=
  sorted (n.dependsOn.dedup.filter fun d => decide (d ∉ nodeIds nodes))

def checkKnown (nodes : List WorkNode) : List WorkNode → Except OrchestrationError Unit
  | [] => .ok ()
  | n :: rest =>
    if unknownOf nodes n ≠ [] then .error (.unknownDependencies n.nodeId (unknownOf nodes n))
    else checkKnown nodes rest

theorem checkKnown_ok {nodes rest : List WorkNode} (h : checkKnown nodes rest = .ok ()) :
    ∀ n ∈ rest, ∀ d ∈ n.dependsOn, d ∈ nodeIds nodes := by
  induction rest with
  | nil => simp
  | cons n rest ih =>
    simp only [checkKnown] at h
    split at h
    · cases h
    · rename_i hnone
      intro m hm d hd
      rcases List.mem_cons.mp hm with rfl | hm
      · by_contra hd'
        refine hnone (List.ne_nil_of_mem (a := d) (mem_sorted.mpr ?_))
        exact List.mem_filter.mpr ⟨List.mem_dedup.mpr hd,decide_eq_true hd'⟩
      · exact ih h m hm d hd

end WorkGraph

structure WorkGraph where
  nodes : List WorkNode
  maxParallel : ℤ := 3
  nonempty : nodes ≠ [] := by decide
  nodup : (WorkGraph.nodeIds nodes).Nodup := by decide
  known : ∀ n ∈ nodes, ∀ d ∈ n.dependsOn, d ∈ WorkGraph.nodeIds nodes := by decide
  acyclic : (WorkGraph.layers nodes).isOk = true := by decide
  disjoint : (WorkGraph.checkOwnership nodes).isOk = true := by decide
  parallel : 1 ≤ maxParallel := by decide

namespace WorkGraph

theorem parallel_default : (1 : ℤ) ≤ 3 := by decide

/-- `WorkGraph.__post_init__`. -/
def init (nodes : List WorkNode) (maxParallel : ℤ) : Except OrchestrationError WorkGraph :=
  if hne : nodes = [] then .error .noNodes
  else if hd : ¬ (nodeIds nodes).Nodup then
    .error (.duplicateIds (sorted ((nodeIds nodes).dedup.filter fun i => decide (1 < (nodeIds nodes).count i))))
  else match hk : checkKnown nodes nodes with
  | .error e => .error e
  | .ok () => match hl : layers nodes with
    | .error e => .error e
    | .ok _ => match ho : checkOwnership nodes with
      | .error e => .error e
      | .ok () =>
        if hp : maxParallel < 1 then .error .maxParallel
        else .ok {
          nodes := nodes
          maxParallel := maxParallel
          nonempty := hne
          nodup := not_not.mp hd
          known := checkKnown_ok hk
          acyclic := by rw [hl]; rfl
          disjoint := by rw [ho]; rfl
          parallel := not_lt.mp hp }

variable (g : WorkGraph)

def ids : List String := nodeIds g.nodes

variable {nodes : List WorkNode} {i : String} {n : WorkNode}

theorem node?_some (h : node? nodes i = some n) :
    n ∈ nodes ∧ n.nodeId = i := by
  have hp := List.find?_some h
  exact ⟨List.mem_of_find?_eq_some h,of_decide_eq_true hp⟩

theorem node?_of_mem (h : n ∈ g.nodes) : node? g.nodes n.nodeId = some n := by
  cases hf : node? g.nodes n.nodeId with
  | none =>
    have := List.find?_eq_none.mp hf n h
    simp at this
  | some m =>
    obtain ⟨hm,hid⟩ := node?_some hf
    rw [List.inj_on_of_nodup_map g.nodup hm h hid]

theorem dependsOf_of_mem (h : n ∈ g.nodes) : dependsOf g.nodes n.nodeId = n.dependsOn := by
  simp only [dependsOf,node?_of_mem g h]

theorem mem_ids_of_dependsOf (h : dependsOf nodes i ≠ []) :
    i ∈ nodeIds nodes := by
  cases hf : node? nodes i with
  | none => simp [dependsOf,hf] at h
  | some n =>
    obtain ⟨hm,rfl⟩ := node?_some hf
    exact List.mem_map_of_mem hm

def DependsOn (i d : String) : Prop := d ∈ dependsOf g.nodes i

theorem mem_ids_of_dependsOn {d : String} (h : g.DependsOn i d) : d ∈ g.ids := by
  cases hf : node? g.nodes i with
  | none => simp [DependsOn,dependsOf,hf] at h
  | some n =>
    simp only [DependsOn,dependsOf,hf] at h
    exact g.known n (node?_some hf).1 d h

/-- `ancestors` is the transitive closure of `depends_on`. -/
theorem mem_ancestors_iff {a : String} :
    a ∈ ancestors g.nodes i ↔ Relation.TransGen g.DependsOn i a := by
  have hdom : ∀ x, dependsOf g.nodes x ≠ [] → x ∈ nodeIds g.nodes := fun x => mem_ids_of_dependsOf
  have hsearch : a ∈ ancestors g.nodes i ↔
      ∃ y ∈ (dependsOf g.nodes i).reverse, Relation.ReflTransGen g.DependsOn y a := Search.mem_search_iff hdom le_rfl
  simp only [hsearch,List.mem_reverse]
  exact (Relation.TransGen.head'_iff (r := g.DependsOn)).symm

theorem induction {P : String → Prop}
    (hstep : ∀ i ∈ g.ids, (∀ d, g.DependsOn i d → P d) → P i) : ∀ i ∈ g.ids, P i := by
  have hacyclic := g.acyclic
  simp only [layers] at hacyclic
  split at hacyclic
  · rename_i result hpeel
    have hall := Search.peel_induction (fun xs x => mem_sorted) (P := P) hpeel (by simp) (by
      intro e he hd
      obtain ⟨n,hn,rfl⟩ := List.mem_map.mp he
      refine hstep n.nodeId (List.mem_map_of_mem hn) fun d hdep => hd d ?_
      simpa only [DependsOn,dependsOf_of_mem g hn] using hdep)
    intro i hi
    obtain ⟨n,hn,rfl⟩ := List.mem_map.mp hi
    exact hall _ (List.mem_map_of_mem hn)
  · simp [Except.isOk,Except.toBool] at hacyclic

theorem acyclic_dependsOn (i : String) : ¬ Relation.TransGen g.DependsOn i i := by
  have hdep : ∀ {i d}, g.DependsOn i d → i ∈ g.ids := fun h => mem_ids_of_dependsOf (List.ne_nil_of_mem h)
  have hids : ∀ i ∈ g.ids, ¬ Relation.TransGen g.DependsOn i i := by
    refine g.induction fun i _ ih hcycle => ?_
    obtain ⟨d,hd,hback⟩ := Relation.TransGen.head'_iff.mp hcycle
    exact ih d hd (Relation.TransGen.tail' hback hd)
  intro hcycle
  obtain ⟨d,hd,_⟩ := Relation.TransGen.head'_iff.mp hcycle
  exact hids i (hdep hd) hcycle

theorem induction_dependents {P : String → Prop}
    (hstep : ∀ i ∈ g.ids, (∀ m ∈ g.ids, g.DependsOn m i → P m) → P i) : ∀ i ∈ g.ids, P i := by
  let r : {i // i ∈ g.ids} → {i // i ∈ g.ids} → Prop := fun m i => Relation.TransGen g.DependsOn m.1 i.1
  have htrans : IsTrans _ r := ⟨fun _ _ _ => Relation.TransGen.trans⟩
  have hirrefl : Std.Irrefl r := ⟨fun i => g.acyclic_dependsOn i.1⟩
  have hfinite : Finite {i // i ∈ g.ids} := List.finite_toSet g.ids
  have hwf : WellFounded r := Finite.wellFounded_of_trans_of_irrefl r
  have hall : ∀ i : {i // i ∈ g.ids}, P i.1 := fun i => hwf.induction i (fun i ih =>
    hstep i.1 i.2 fun m hm hd => ih ⟨m,hm⟩ (.single hd))
  exact fun i hi => hall ⟨i,hi⟩

end WorkGraph
end Verdict

import Verdict.Contracts.Ownership
import Verdict.Planner.Plan

/-! # Stored graphs

A graph read back from what was written of it is made by the constructors again. What they settle
stays settled, except for a path: one that begins or ends with a blank is stripped the second time.
-/
namespace Verdict.Planner
open Json Path Raising

def Settled (path : String) : Prop := strip path.toList = path.toList

instance (path : String) : Decidable (Settled path) := inferInstanceAs (Decidable (_ = _))

def PlannedNode.paths (n : PlannedNode) : List String := n.node.ownedFiles ++ n.node.requiredContext

/-- The stored graph is read back node by node, with the same owners and the same digest. -/
def Resumes (str : Json → String) (parseInt : String → Option ℤ) (hash : Json → String) (g : PlannedGraph) : Prop :=
  ∃ g', PlannedGraph.fromDict str parseInt g.toDict = .ok g' ∧ g'.nodes = g.nodes ∧
    (∀ path, g'.nodes.map (·.owns path) = g.nodes.map (·.owns path)) ∧ g'.digest hash = g.digest hash

/-! ### Normal paths, normalised again -/

section
variable {o : String} {t : List Char}

theorem length_intercalate_filter (p : List Char → Bool) (xs : List (List Char)) :
    (['/'].intercalate (xs.filter p)).length ≤ (['/'].intercalate xs).length := by
  induction xs with
  | nil => exact le_rfl
  | cons x xs ih =>
    cases hx : p x with
    | true =>
      rw [List.filter_cons_of_pos hx]
      cases hxs : xs.filter p <;> cases xs <;> simp_all [List.intercalate]
    | false =>
      rw [List.filter_cons_of_neg (by simp [hx])]
      refine ih.trans ?_
      cases xs with
      | nil => exact Nat.zero_le _
      | cons y ys =>
        rw [List.intercalate_cons_cons,List.length_append,List.length_append]
        omega

theorem length_join_parts (h : t ≠ []) : (join (parts t)).length ≤ t.length := by
  unfold join
  split
  · exact List.length_pos_iff.mpr h
  · have hle := length_intercalate_filter (fun p => decide (p ≠ [] ∧ p ≠ ['.'])) (t.splitOn '/')
    rwa [List.intercalate_splitOn] at hle

theorem length_strip_lt (h : ¬ Settled o) : (strip o.toList).length < o.toList.length := by
  have hsub : strip o.toList <:+: o.toList := by
    have hback := List.reverse_prefix.mpr (List.dropWhile_suffix isSpace (l := (o.toList.dropWhile isSpace).reverse))
    rw [List.reverse_reverse] at hback
    exact hback.isInfix.trans (List.dropWhile_suffix isSpace).isInfix
  exact lt_of_le_of_ne hsub.length_le fun heq => h (hsub.eq_of_length heq)

theorem head_of_good (h : (o.toList.splitOn '/').all goodPart = true) : isAbsolute o.toList = false := by
  refine decide_eq_false fun habs => ?_
  obtain ⟨rest,hrest⟩ := List.head?_eq_some_iff.mp habs
  rw [hrest,List.splitOn_cons_eq_if_modifyHead,if_pos (by simp)] at h
  simp [goodPart] at h

theorem normPath_self_iff (h : isNormal o = true) : normPath o = .ok o ↔ Settled o := by
  constructor
  · intro hok
    by_contra hne
    simp only [normPath] at hok
    split at hok
    · cases hok
    · rename_i hcond
      have ho : join (parts (replaceBackslash (strip o.toList))) = o.toList := by
        have := congrArg String.toList (Except.ok.inj hok)
        rwa [String.toList_ofList] at this
      have hlen := length_join_parts (not_or.mp hcond).1
      rw [ho] at hlen
      simp only [replaceBackslash,List.length_map] at hlen
      exact absurd hlen (not_le.mpr (length_strip_lt hne))
  · intro hs
    simp only [isNormal,decide_eq_true_eq] at h
    rcases h with h | h
    · obtain rfl : o = "." := String.toList_inj.mp h
      rfl
    · simp only [normPath,show strip o.toList = o.toList from hs]
      have hparts := parts_of_good h
      have hup : ['.','.'] ∉ parts o.toList := by
        rw [hparts]
        intro hm
        have := List.all_eq_true.mp h _ hm
        simp [goodPart] at this
      have hne : o.toList ≠ [] := fun hnil => by rw [hnil] at h; simp [goodPart] at h
      rw [replaceBackslash_of_not_mem (not_mem_backslash_of_good h),if_neg (by simp [hne,head_of_good h,hup]),hparts]
      simp [join]

theorem mapM_normPath_self_iff {xs : List String} (h : ∀ o ∈ xs, isNormal o = true) :
    xs.mapM normPath = .ok xs ↔ ∀ o ∈ xs, Settled o := by
  rw [mapM_self_iff]
  exact forall₂_congr fun o ho => normPath_self_iff (h o ho)

end

/-! ### Nodes and graphs, made again -/

theorem barrierOf_name (barrier : Option Barrier) : WorkNode.barrierOf (.text (barrierName barrier)) = barrier := by
  cases barrier with
  | none => decide
  | some b => cases b <;> decide

theorem riskOf_name (risk : Risk) : WorkNode.riskOf (some (riskName risk)) = risk := by cases risk <;> decide

theorem kindOf_name (kind : NodeKind) : kindOf (.str (kindName kind)) = .ok kind := by cases kind <;> decide

theorem topologyOf_name (topology : Topology) : topologyOf (.str topology.name) = .ok topology := by cases topology <;> decide

variable {n : WorkNode}

theorem init_ok_iff {args : NodeArgs} : WorkNode.init args = .ok n ↔ args.ownedFiles.mapM
    normPath = .ok n.ownedFiles ∧ args.requiredContext.mapM normPath = .ok n.requiredContext ∧ n.nodeId =
    args.nodeId ∧ n.objective = args.objective ∧ n.kind = args.kind ∧ n.dependsOn = args.dependsOn ∧
    n.verificationCommand = args.verificationCommand ∧ n.barrier = WorkNode.barrierOf args.barrier ∧ n.risk
    = WorkNode.riskOf args.risk := by
  unfold WorkNode.init
  constructor
  · intro h
    split at h
    · cases h
    split at h
    · cases h
    next howned =>
    split at h
    · cases h
    next hcontext =>
    split at h
    · cases h
    split at h
    · cases h
    split at h
    · cases h
    cases h
    exact ⟨howned,hcontext,rfl,rfl,rfl,rfl,rfl,rfl,rfl⟩
  · obtain ⟨nodeId,objective,kind,dependsOn,owned,context,command,barrier,risk,hnamed,_,_,howns,hverifies,hself⟩ := n
    rintro ⟨howned,hcontext,rfl,rfl,rfl,rfl,rfl,rfl,rfl⟩
    rw [dif_neg (not_or.mpr hnamed)]
    split
    · next h => exact absurd (h.symm.trans howned) (by simp)
    next owned' h =>
    obtain rfl : owned' = owned := Except.ok.inj (h.symm.trans howned)
    split
    · next h => exact absurd (h.symm.trans hcontext) (by simp)
    next context' h =>
    obtain rfl : context' = context := Except.ok.inj (h.symm.trans hcontext)
    rw [dif_neg fun h => howns h.1 h.2,dif_neg fun h => hverifies h.1 h.2,dif_neg hself]

theorem init_nodeArgs_iff :
    WorkNode.init (nodeArgs n) = .ok n ↔ ∀ p ∈ n.ownedFiles ++ n.requiredContext, Settled p := by
  rw [List.forall_mem_append,← mapM_normPath_self_iff n.ownedNormal,← mapM_normPath_self_iff n.contextNormal,init_ok_iff]
  constructor
  · rintro ⟨howned,hcontext,-⟩
    exact ⟨howned,hcontext⟩
  · rintro ⟨howned,hcontext⟩
    exact ⟨howned,hcontext,rfl,rfl,rfl,rfl,rfl,(barrierOf_name n.barrier).symm,(riskOf_name n.risk).symm⟩

section Graphs
variable {str : Json → String} {parseInt : String → Option ℤ} {hash : Json → String}

theorem listField_texts {data : Fields} {key : String} {xs default : List String} (h : data.lookup key = some (texts xs)) :
    listField str data key default = .ok xs := by
  simp only [listField,h,texts,List.map_map]
  exact congrArg Except.ok ((List.map_congr_left fun _ _ => rfl).trans (List.map_id xs))

theorem namedField_str {field text : String} (h : strip text.toList ≠ []) : namedField field (.str text) = .ok text := by
  rw [namedField,if_neg h]

theorem toDict_keys (n : PlannedNode) : n.toDict.map Prod.fst = nodeFields := rfl

theorem nodeFromDict_toDict (n : PlannedNode) :
    nodeFromDict str n.toDict = ((WorkNode.init (nodeArgs n.node)).mapError .contract).map fun node => {n with node := node} := by
  have hunknown : nodeFields.filter (fun key => decide (key ∉ nodeFields)) = [] := by decide
  have hmissing : ["node_id","objective"].filter (fun key => decide (n.toDict.lookup key = none)) = [] := rfl
  have hdepends : listField str n.toDict "depends_on" [] = .ok n.node.dependsOn := listField_texts rfl
  have howned : listField str n.toDict "owned_files" [] = .ok n.node.ownedFiles := listField_texts rfl
  have hcontext : listField str n.toDict "required_context" [] = .ok n.node.requiredContext := listField_texts rfl
  have hacceptance : listField str n.toDict "acceptance" [] = .ok n.acceptance := listField_texts rfl
  have hcommand : listField str n.toDict "verification_command" [] = .ok n.node.verificationCommand := listField_texts rfl
  have hcapabilities : listField str n.toDict "required_capabilities" ["tools"] = .ok n.requiredCapabilities := listField_texts rfl
  have hnodeId : namedField "node_id" (Json.get n.toDict "node_id") = .ok n.node.nodeId := namedField_str n.node.named.1
  have hobjective : namedField "objective" (Json.get n.toDict "objective") = .ok n.node.objective := namedField_str n.node.named.2
  have hkind : kindOf (orDefault n.toDict "kind" (.str "implement")) = .ok n.node.kind := kindOf_name n.node.kind
  simp only [nodeFromDict,toDict_keys,hunknown,hmissing,require,if_true,hdepends,howned,hcontext,hacceptance,hcommand,
    hcapabilities,hnodeId,hobjective,hkind,bind,Except.bind]
  rfl

theorem nodeOf_toDict_iff {n : PlannedNode} : nodeOf str (.obj n.toDict) = .ok n ↔ ∀ p ∈ n.paths, Settled p := by
  rw [PlannedNode.paths,← init_nodeArgs_iff,nodeOf,nodeFromDict_toDict]
  cases h : WorkNode.init (nodeArgs n.node) with
  | error e => exact iff_of_false (by simp [Except.mapError,Except.map]) (by simp)
  | ok node =>
    simp only [Except.mapError,Except.map,Except.ok.injEq]
    constructor
    · exact fun heq => congrArg PlannedNode.node heq
    · rintro rfl
      rfl

theorem checkKnown_of_known {nodes rest : List WorkNode} (h : ∀ n ∈ rest, ∀ d ∈ n.dependsOn, d ∈ WorkGraph.nodeIds nodes) :
    WorkGraph.checkKnown nodes rest = .ok () := by
  induction rest with
  | nil => rfl
  | cons n rest ih =>
    obtain ⟨hn,hrest⟩ := List.forall_mem_cons.mp h
    have hnone : WorkGraph.unknownOf nodes n = [] := by
      refine List.eq_nil_iff_forall_not_mem.mpr fun d hd => ?_
      obtain ⟨hmem,hfar⟩ := List.mem_filter.mp (WorkGraph.mem_sorted.mp hd)
      exact of_decide_eq_true hfar (hn d (List.mem_dedup.mp hmem))
    rw [WorkGraph.checkKnown,if_neg (not_not.mpr hnone),ih hrest]

theorem init_nodes (g : WorkGraph) : WorkGraph.init g.nodes g.maxParallel = .ok g := by
  unfold WorkGraph.init
  rw [dif_neg g.nonempty,dif_neg (not_not.mpr g.nodup)]
  split
  · next h => exact absurd (h.symm.trans (checkKnown_of_known g.known)) (by simp)
  split
  · next h =>
    have hok := g.acyclic
    rw [h] at hok
    cases hok
  split
  · next h =>
    have hok := g.disjoint
    rw [h] at hok
    cases hok
  rw [dif_neg (not_lt.mpr g.parallel)]

theorem init_self (g : PlannedGraph) :
    PlannedGraph.init g.goal g.nodes g.topology g.rationale g.base.maxParallel = .ok g := by
  obtain ⟨goal,nodes,topology,rationale,base,hbase⟩ := g
  have hinit := init_nodes base
  rw [hbase] at hinit
  unfold PlannedGraph.init
  split
  · next h => exact absurd (h.symm.trans hinit) (by simp)
  · next base' h =>
    obtain rfl : base' = base := Except.ok.inj (h.symm.trans hinit)
    rfl

variable {g : PlannedGraph}

theorem init_keeps_nodes {goal : String} {nodes : List PlannedNode} {topology : Topology} {rationale : List Json} {maxParallel : ℤ}
    (h : PlannedGraph.init goal nodes topology rationale maxParallel = .ok g) : g.nodes = nodes := by
  unfold PlannedGraph.init at h
  split at h
  · cases h
  · cases h
    rfl

theorem fromDict_toDict (g : PlannedGraph) : PlannedGraph.fromDict str parseInt g.toDict =
    g.nodes.mapM (fun n => nodeOf str (.obj n.toDict)) >>= fun nodes =>
      (PlannedGraph.init g.goal nodes g.topology g.rationale g.base.maxParallel).mapError GraphError.contract := by
  have htopology : topologyOf (orDefault g.toDict "topology" (.str Topology.parallelWorkUnits.name)) = .ok g.topology :=
    topologyOf_name g.topology
  have hnodes : Json.get g.toDict "nodes" = .arr (g.nodes.map fun n => .obj n.toDict) := rfl
  simp only [PlannedGraph.fromDict,hnodes,htopology,List.mapM_map]
  rfl

theorem mapM_nodeOf_iff :
    g.nodes.mapM (fun n => nodeOf str (.obj n.toDict)) = .ok g.nodes ↔ ∀ n ∈ g.nodes, ∀ p ∈ n.paths, Settled p := by
  rw [mapM_self_iff]
  exact forall₂_congr fun n _ => nodeOf_toDict_iff

theorem Resumes.settled (h : Resumes str parseInt hash g) : ∀ n ∈ g.nodes, ∀ p ∈ n.paths, Settled p := by
  obtain ⟨g',hread,hnodes,-⟩ := h
  rw [fromDict_toDict] at hread
  obtain ⟨nodes,hmap,hinit⟩ := bind_ok.mp hread
  obtain rfl : g.nodes = nodes := hnodes.symm.trans (init_keeps_nodes (mapError_ok.mp hinit))
  exact mapM_nodeOf_iff.mp hmap

/-- The stored graph is the graph that ran exactly when no path of a node begins or ends with a blank. -/
theorem stored_graph_resumes_iff (str : Json → String) (parseInt : String → Option ℤ) (hash : Json → String) (g : PlannedGraph) :
    Resumes str parseInt hash g ↔ ∀ n ∈ g.nodes, ∀ p ∈ n.paths, Settled p := by
  refine ⟨Resumes.settled,fun h => ⟨g,?_,rfl,fun _ => rfl,rfl⟩⟩
  rw [fromDict_toDict]
  exact bind_ok.mpr ⟨g.nodes,mapM_nodeOf_iff.mpr h,mapError_ok.mpr (init_self g)⟩

end Graphs

/-! ### A path that is stripped twice -/

/-- `./a /` is owned as a directory whose name ends with a blank. -/
def blankPayload : Json :=
  .obj [("nodes",.arr [.obj [("node_id",.str "n"),("objective",.str "write it"),("owned_files",.arr [.str "./a /"]),
    ("verification_command",.arr [.str "pytest"])]])]

def blankAnswer : List Char :=
  "\x7b\"nodes\": [\x7b\"node_id\": \"n\", \"objective\": \"write it\", \"owned_files\": [\"./a /\"], ".toList
    ++ "\"verification_command\": [\"pytest\"]\x7d]\x7d".toList

/-- The standard library at `blankAnswer`. -/
def blankLibrary : Library where
  loads := fun raw => if raw = blankAnswer then some blankPayload else none
  str := fun _ => ""
  lower := fun s => s
  parseInt := fun _ => none

def blankGraph : Option PlannedGraph := (blankLibrary.parsePlan blankAnswer "goal" 3).toOption

theorem blankGraph_paths : blankGraph.map (fun g => g.nodes.map PlannedNode.paths) = some [["a "]] := by
  decide +kernel

/-- `./a /` comes back as `a`. -/
theorem blank_path_changes : ∃ g, blankLibrary.parsePlan blankAnswer "goal" 3 = .ok g ∧
    ¬ Resumes blankLibrary.str blankLibrary.parseInt Json.print g := by
  obtain ⟨g,hg,hpaths⟩ := Option.map_eq_some_iff.mp blankGraph_paths
  refine ⟨g,toOption_some.mp hg,fun h => ?_⟩
  obtain ⟨n,hn,hmem⟩ := List.mem_map.mp (hpaths ▸ List.mem_cons_self : ["a "] ∈ g.nodes.map PlannedNode.paths)
  have hsettled : Settled "a " := h.settled n hn "a " (hmem ▸ List.mem_cons_self)
  exact absurd hsettled (by decide)

end Verdict.Planner

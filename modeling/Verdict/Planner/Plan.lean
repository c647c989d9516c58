import Mathlib.Data.Rat.Floor
import Verdict.Basics.PyJson
import Verdict.Basics.Raising
import Verdict.Contracts.WorkGraph
import Verdict.Planner.Extract

/-! # Planned graphs

A node as `WorkNode` keeps it, with the fields that nothing checks, and a graph with its goal,
topology and rationale; both are written as JSON and read from it. `parse_plan` makes a graph of
the answer of a planner. What `json.loads`, `str`, `str.lower` and `int` make of a value is left
open where the plan does not depend on it.
-/
namespace Verdict.Planner
open Json Path WorkGraph
open Raising (require)
open Patch (cut)
open Json (get)

structure PlannedNode where
  node : WorkNode
  story : Json
  (acceptance requiredCapabilities : List String)
  (coding reasoning minContextTokens : Json)

inductive NodeError
  | contract (e : OrchestrationError)
  | unknownFields (fields : List String)
  | notList (key : String)
  | missingArguments (fields : List String)
  | notText (field : String)
  | notKind (value : Json)
  deriving DecidableEq

/-- `(OrchestrationError, TypeError)`, which `parse_plan` reports with the node; the others pass. -/
def NodeError.reported : NodeError → Bool
  | .notText _ | .notKind _ => false
  | _ => true

def nodeFields : List String :=
  ["node_id","objective","kind","story","depends_on","owned_files","required_context","acceptance","verification_command",
    "barrier","risk","required_capabilities","coding","reasoning","min_context_tokens"]

/-! ### Nodes -/

def kindNames : List (NodeKind × String) :=
  [(.implement,"implement"),(.research,"research"),(.integrate,"integrate"),(.review,"review")]

def kindName : NodeKind → String
  | .implement => "implement"
  | .research => "research"
  | .integrate => "integrate"
  | .review => "review"

/-- `NodeKind(value)`. -/
def kindOf (value : Json) : Except NodeError NodeKind :=
  match kindNames.find? (fun e => value = .str e.2) with
  | some e => .ok e.1
  | none => .error (.notKind value)

def riskName : Risk → String
  | .low => "low"
  | .medium => "medium"
  | .high => "high"

def barrierName (barrier : Option Barrier) : String := barrier.elim "" Barrier.name

def nodeArgs (n : WorkNode) : NodeArgs where
  nodeId := n.nodeId
  objective := n.objective
  kind := n.kind
  dependsOn := n.dependsOn
  ownedFiles := n.ownedFiles
  requiredContext := n.requiredContext
  verificationCommand := n.verificationCommand
  barrier := .text (barrierName n.barrier)
  risk := some (riskName n.risk)

section
variable (str : Json → String)

/-- `str(value)`. -/
def strOf : Json → String
  | .str s => s
  | v => str v

variable (data : Fields)

/-- A field of `from_dict` that has to be a list, or its default. -/
def listField (key : String) (default : List String) : Except NodeError (List String) :=
  match data.lookup key with
  | none => .ok default
  | some (.arr xs) => .ok (xs.map (strOf str))
  | some _ => .error (.notList key)

/-- `value.strip()` needs a text, and what is left of it must not be empty. -/
def namedField (field : String) : Json → Except NodeError String
  | .str s => if strip s.toList = [] then .error (.contract .unnamed) else .ok s
  | _ => .error (.notText field)

def barrierArg : Json → BarrierArg
  | .bool b => .flag b
  | v => .text (strOf str v)

def riskArg : Json → Option String
  | .str s => some s
  | _ => none

def orDefault (key : String) (default : Json) : Json := (data.lookup key).getD default

/-- `WorkNode.from_dict`, and the constructor behind it. -/
def nodeFromDict : Except NodeError PlannedNode := do
  let unknown := (data.map Prod.fst).filter fun key => decide (key ∉ nodeFields)
  require (unknown = []) (.unknownFields (sorted unknown))
  let dependsOn ← listField str data "depends_on" []
  let ownedFiles ← listField str data "owned_files" []
  let requiredContext ← listField str data "required_context" []
  let acceptance ← listField str data "acceptance" []
  let verificationCommand ← listField str data "verification_command" []
  let requiredCapabilities ← listField str data "required_capabilities" ["tools"]
  let missing := ["node_id","objective"].filter fun key => decide (data.lookup key = none)
  require (missing = []) (.missingArguments missing)
  let nodeId ← namedField "node_id" (get data "node_id")
  let objective ← namedField "objective" (get data "objective")
  let kind ← kindOf (orDefault data "kind" (.str "implement"))
  let node ← (WorkNode.init {
    nodeId := nodeId
    objective := objective
    kind := kind
    dependsOn := dependsOn
    ownedFiles := ownedFiles
    requiredContext := requiredContext
    verificationCommand := verificationCommand
    barrier := barrierArg str (orDefault data "barrier" (.str ""))
    risk := riskArg (orDefault data "risk" (.str "low")) }).mapError .contract
  return {
    node := node
    story := orDefault data "story" (.str "")
    acceptance := acceptance
    requiredCapabilities := requiredCapabilities
    coding := orDefault data "coding" (.bool true)
    reasoning := orDefault data "reasoning" (.bool false)
    minContextTokens := orDefault data "min_context_tokens" (.int 32000) }

end

def texts (xs : List String) : Json := .arr (xs.map .str)

/-- `WorkNode.to_dict`, as JSON holds it: a tuple is a list. -/
def PlannedNode.toDict (n : PlannedNode) : Fields :=
  [("node_id",.str n.node.nodeId),
   ("objective",.str n.node.objective),
   ("kind",.str (kindName n.node.kind)),
   ("story",n.story),
   ("depends_on",texts n.node.dependsOn),
   ("owned_files",texts n.node.ownedFiles),
   ("required_context",texts n.node.requiredContext),
   ("acceptance",texts n.acceptance),
   ("verification_command",texts n.node.verificationCommand),
   ("barrier",.str (barrierName n.node.barrier)),
   ("risk",.str (riskName n.node.risk)),
   ("required_capabilities",texts n.requiredCapabilities),
   ("coding",n.coding),
   ("reasoning",n.reasoning),
   ("min_context_tokens",n.minContextTokens)]

def PlannedNode.owns (n : PlannedNode) (path : String) : Bool := n.node.owns path

/-! ### Graphs -/

/-- Chosen by deterministic rules, never by a model. -/
inductive Topology
  | solo | workerCritic | parallelWorkUnits
  deriving DecidableEq

def Topology.name : Topology → String
  | solo => "SOLO"
  | workerCritic => "WORKER_CRITIC"
  | parallelWorkUnits => "PARALLEL_WORK_UNITS"

theorem init_ok {nodes : List WorkNode} {maxParallel : ℤ} {base : WorkGraph} (h : WorkGraph.init nodes maxParallel = .ok base) :
    base.nodes = nodes ∧ base.maxParallel = maxParallel := by
  unfold WorkGraph.init at h
  split at h
  · cases h
  split at h
  · cases h
  split at h
  · cases h
  split at h
  · cases h
  split at h
  · cases h
  split at h
  · cases h
  cases h
  exact ⟨rfl,rfl⟩

/-- `base` is the graph of the nodes as the validators accepted it. -/
structure PlannedGraph where
  goal : String
  nodes : List PlannedNode
  topology : Topology
  rationale : List Json
  base : WorkGraph
  base_nodes : base.nodes = nodes.map PlannedNode.node

/-- `WorkGraph(...)`. -/
def PlannedGraph.init (goal : String) (nodes : List PlannedNode) (topology : Topology) (rationale : List Json) (maxParallel : ℤ) :
    Except OrchestrationError PlannedGraph :=
  match h : WorkGraph.init (nodes.map PlannedNode.node) maxParallel with
  | .error e => .error e
  | .ok base => .ok {
      goal := goal
      nodes := nodes
      topology := topology
      rationale := rationale
      base := base
      base_nodes := (init_ok h).1 }

inductive GraphError
  | contract (e : OrchestrationError)
  | nodesNotList
  | node (e : NodeError)
  | notMapping
  | notTopology (value : Json)
  | notIterable
  | notInteger
  deriving DecidableEq

inductive IntError
  | value
  | overflow

section
variable (str : Json → String) (parseInt : String → Option ℤ)

/-- `int(value)`; `value` stands for a `TypeError` too. -/
def intOf : Json → Except IntError ℤ
  | .int n => .ok n
  | .bool b => .ok (if b then 1 else 0)
  | .float q => .ok (if 0 ≤ q then ⌊q⌋ else ⌈q⌉)
  | .scalar .negZero => .ok 0
  | .scalar .inf | .scalar .negInf => .error .overflow
  | .str s => match parseInt s with
    | some n => .ok n
    | none => .error .value
  | _ => .error .value

/-- `Topology(value)`. -/
def topologyOf (value : Json) : Except GraphError Topology :=
  match [Topology.solo,.workerCritic,.parallelWorkUnits].find? (fun t => value = .str t.name) with
  | some t => .ok t
  | none => .error (.notTopology value)

/-- `tuple(value)`. -/
def tupleOf : Json → Except GraphError (List Json)
  | .arr xs => .ok xs
  | .str s => .ok (s.toList.map fun c => .str c.toString)
  | .obj fs => .ok (fs.map fun e => .str e.1)
  | _ => .error .notIterable

def nodeOf : Json → Except GraphError PlannedNode
  | .obj data => (nodeFromDict str data).mapError .node
  | _ => .error .notMapping

/-- `WorkGraph.from_dict`. -/
def PlannedGraph.fromDict (value : Fields) : Except GraphError PlannedGraph := do
  match get value "nodes" with
  | .arr items =>
    let nodes ← items.mapM (nodeOf str)
    let topology ← topologyOf (orDefault value "topology" (.str Topology.parallelWorkUnits.name))
    let rationale ← tupleOf (orDefault value "rationale" (.arr []))
    let maxParallel ← (intOf parseInt (orDefault value "max_parallel" (.int 3))).mapError fun _ => .notInteger
    (PlannedGraph.init (strOf str (orDefault value "goal" (.str ""))) nodes topology rationale maxParallel).mapError .contract
  | _ => .error .nodesNotList

end

namespace PlannedGraph
variable (g : PlannedGraph)

def SCHEMA_VERSION : String := "verdict.orchestration/v1"

/-- `WorkGraph.to_dict`, as JSON holds it. -/
def toDict : Fields :=
  [("schema_version",.str SCHEMA_VERSION),
   ("goal",.str g.goal),
   ("topology",.str g.topology.name),
   ("rationale",.arr g.rationale),
   ("max_parallel",.int g.base.maxParallel),
   ("nodes",.arr (g.nodes.map fun n => .obj n.toDict))]

/-- `canonical_digest(self.to_dict())`; `hash` is taken of the text with sorted keys. -/
def digest (hash : Json → String) : String := hash (Json.canon (.obj g.toDict))

end PlannedGraph

/-! ### Parsing a plan -/

def KNOWN_MODEL_CAPABILITIES : List String := ["reasoning","structured_output","tools","vision"]

def CAPABILITY_ALIASES : List (String × String) :=
  [("tool_calling","tools"),("tool_use","tools"),("function_calling","tools"),("thinking","reasoning"),("json","structured_output")]

def WORKER_MIN_CONTEXT_TOKENS : ℤ := 32000

inductive PlanError
  | extract (e : ParsePlanError)
  | invalidJson
  | noNodesKey
  | noNodes
  | notObject (i : ℕ)
  | node (i : ℕ) (e : NodeError)
  | raised (e : NodeError)
  | overflow
  | contract (e : OrchestrationError)

/-- What the standard library makes of values: `json.loads`, `str`, `str.lower` and `int` of a text. -/
structure Library where
  loads : List Char → Option Json
  str : Json → String
  lower : String → String
  parseInt : String → Option ℤ

section
variable (lib : Library)

def capability (value : Json) : String :=
  let text := lib.lower (String.ofList (strip (strOf lib.str value).toList))
  let key := String.ofList (text.toList.map fun c => if c = ' ' ∨ c = '-' then '_' else c)
  (CAPABILITY_ALIASES.lookup key).getD key

def normalizeNodeRequirements (item : Fields) : Except PlanError Fields := do
  let named := (get item "required_capabilities").items.map (capability lib)
  let kind := strOf lib.str (orDefault item "kind" (.str "implement"))
  let tools := if kind = "implement" ∨ kind = "research" ∨ kind = "review" then ["tools"] else []
  let reasoning := if get item "reasoning" = .bool true then ["reasoning"] else []
  let caps := KNOWN_MODEL_CAPABILITIES.filter fun c => decide (c ∈ named ++ tools ++ reasoning)
  let asked := get item "min_context_tokens"
  let requested ← match if asked.truthy then intOf lib.parseInt asked else .ok 0 with
    | .ok n => .ok n
    | .error .value => .ok 0
    | .error .overflow => .error PlanError.overflow
  return Dict.put "min_context_tokens" (.int (max requested WORKER_MIN_CONTEXT_TOKENS)) (Dict.put "required_capabilities" (texts caps) item)

def listAcceptance (data : Fields) : Fields :=
  match data.lookup "acceptance" with
  | some (.str s) => if strip s.toList = [] then data else Dict.put "acceptance" (texts [s]) data
  | _ => data

def parseNode (i : ℕ) : Json → Except PlanError PlannedNode
  | .obj item => do
    let data ← normalizeNodeRequirements lib item
    (nodeFromDict lib.str (listAcceptance data)).mapError fun e => if e.reported then .node i e else .raised e
  | _ => .error (.notObject i)

def parseNodes : ℕ → List Json → Except PlanError (List PlannedNode)
  | _, [] => .ok []
  | i, item :: rest => do
    let node ← parseNode lib i item
    let nodes ← parseNodes (i+1) rest
    return node :: nodes

end

/-- `tests/\S+\.py`, at the start of an argument. -/
def isTestFile (token : List Char) : Bool :=
  "tests/".toList.isPrefixOf token &&
    ((((token.drop 6).takeWhile fun c => !isSpace c).drop 1).tails.any (".py".toList.isPrefixOf ·))

def testFilesFromArgv (argv : List String) : List String :=
  ((argv.filter fun token => isTestFile token.toList).map
    (fun token => String.ofList ((cut "::".toList token.toList).elim token.toList Prod.fst))).reverse.dedup.reverse

/-- A node that runs test files owns them. -/
def ensureVerificationFilesOwned : List PlannedNode → Except OrchestrationError (List PlannedNode)
  | [] => .ok []
  | n :: rest => do
    let missing := (testFilesFromArgv n.node.verificationCommand).filter fun f => !n.owns f
    let owning ← if n.node.kind = .implement ∧ missing ≠ [] then
        (WorkNode.init {nodeArgs n.node with ownedFiles := n.node.ownedFiles ++ missing}).map fun node => {n with node := node}
      else .ok n
    let nodes ← ensureVerificationFilesOwned rest
    return owning :: nodes

variable (nodes : List WorkNode)

/-- `_layers`, tolerant of dependencies outside the nodes. -/
def layersWithin : Except OrchestrationError (List (List String)) :=
  match Search.peel sorted nodes.length
      (nodes.map fun n => (n.nodeId,n.dependsOn.filter fun d => decide (d ∈ nodeIds nodes))) [] with
  | .ok result => .ok result
  | .error left => .error (.cycle left)

def reprNames (names : List String) : String := "[" ++ ", ".intercalate (names.map fun n => "'" ++ n ++ "'") ++ "]"

def chooseTopology (maxParallel : ℤ) (riskHint : String) :
    Except OrchestrationError (Topology × ℤ × List String) := do
  require (nodes ≠ []) .noNodes
  require (1 ≤ maxParallel) .maxParallel
  let implementing := (nodes.filter fun n => decide (n.kind = .implement)).length
  let layers ← layersWithin nodes
  let widest := (layers.map List.length).foldr max 0
  let risks := sorted ((nodes.map fun n => riskName n.risk).dedup)
  let shape :=
    ["nodes=" ++ toString nodes.length ++ " implement_nodes=" ++ toString implementing ++ " risk_hint=" ++ riskHint
        ++ " risks=" ++ reprNames risks,
     "layers=" ++ toString layers.length ++ " widest_layer=" ++ toString widest]
  match nodes with
  | [node] =>
    if node.kind = .implement ∧ riskHint = "low" then
      return (.solo,1,shape ++ ["decision=SOLO: single implement node, low risk_hint -> one worker, no critic"])
    else return (.workerCritic,1,shape ++ ["decision=WORKER_CRITIC: single node (kind=" ++ kindName node.kind
      ++ ", risk_hint=" ++ riskHint ++ ") -> worker+critic pair"])
  | _ =>
    if 2 ≤ implementing ∧ 2 ≤ widest then
      let chosen := min maxParallel widest
      return (.parallelWorkUnits,chosen,shape ++ ["decision=PARALLEL_WORK_UNITS: " ++ toString implementing ++ " implement nodes, "
        ++ "widest_layer=" ++ toString widest ++ " -> max_parallel=min(" ++ toString maxParallel ++ "," ++ toString widest ++ ")="
        ++ toString chosen])
    else return (.workerCritic,1,shape ++ ["decision=WORKER_CRITIC: " ++ toString nodes.length ++ " nodes but no layer width>=2 "
      ++ "(implement_nodes=" ++ toString implementing ++ ", widest_layer=" ++ toString widest ++ ") -> sequential worker+critic"])

section
variable (lib : Library)

def graphOf (nodes : List PlannedNode) (goal : String) (maxParallel : ℤ) : Except OrchestrationError PlannedGraph := do
  let owning ← ensureVerificationFilesOwned nodes
  let graph ← PlannedGraph.init goal owning .parallelWorkUnits [] maxParallel
  let (topology,chosen,rationale) ← chooseTopology graph.base.nodes maxParallel "medium"
  PlannedGraph.init goal graph.nodes topology (rationale.map .str) chosen

/-- `parse_plan` behind the text of the object. -/
def Library.readPlan (goal : String) (maxParallel : ℤ) (raw : List Char) : Except PlanError PlannedGraph :=
  match lib.loads raw with
  | none => .error .invalidJson
  | some (.obj payload) => match payload.lookup "nodes" with
    | none => .error .noNodesKey
    | some (.arr (item :: items)) => do
      let nodes ← parseNodes lib 0 (item :: items)
      (graphOf nodes goal maxParallel).mapError .contract
    | some _ => .error .noNodes
  | some _ => .error .noNodesKey

def Library.parsePlan (text : List Char) (goal : String) (maxParallel : ℤ) : Except PlanError PlannedGraph :=
  (extractJsonObject text).mapError .extract >>= lib.readPlan goal maxParallel

end

end Verdict.Planner

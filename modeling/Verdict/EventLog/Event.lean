import Verdict.Basics.JsonText
import Verdict.Basics.Raising

/-! # Event data before it is stored

`_clean` copies what a caller passes: it refuses what JSON cannot hold, with the place of it, and
scrubs every text. `scrub_secrets` is left open.
-/
namespace Verdict.EventLog
open PyText JsonValue JsonText
open Raising (bind_ok map_ok)
open Value (every_arr every_obj)

inductive Key
  | str (t : Text)
  | other (repr : Text)

/-- What a caller passes; a list and a tuple are both `seq`. -/
inductive Raw (φ : Type)
  | leaf (l : Leaf φ)
  | seq (items : List (Raw φ))
  | mapping (items : List (Key × Raw φ))
  | other (typeName : Text)

section
variable {φ : Type} (F : FloatText φ) (scrubSecrets : Text → Text)

def cleanLeaf (place : Text) : Leaf φ → Except Text (Leaf φ)
  | .float x => if F.finite x then .ok (.float x) else .error (place ++ lit ": non-finite float is not JSON-serializable")
  | .str t => .ok (.str (scrubSecrets t))
  | l => .ok l

mutual

/-- `_clean(value, where)`; an error is the text of the `OrchestrationError`. -/
def clean (place : Text) : Raw φ → Except Text (Value φ)
  | .leaf l => (cleanLeaf F scrubSecrets place l).map .leaf
  | .seq items => (cleanItems place 0 items).map .arr
  | .mapping items => (cleanMapping place [] items).map .obj
  | .other typeName => .error (place ++ lit ": " ++ typeName ++ lit " is not JSON-serializable")

def cleanItems (place : Text) : ℕ → List (Raw φ) → Except Text (List (Value φ))
  | _, [] => .ok []
  | i, item :: items => do
    let v ← clean (place ++ lit "[" ++ lit (Nat.repr i) ++ lit "]") item
    let vs ← cleanItems place (i + 1) items
    return v :: vs

def cleanMapping (place : Text) : List (Text × Value φ) → List (Key × Raw φ) → Except Text (List (Text × Value φ))
  | out, [] => .ok out
  | _, (.other repr,_) :: _ => .error (place ++ lit ": non-string key " ++ repr)
  | out, (.str key,item) :: items => do
    let v ← clean (place ++ lit "." ++ key) item
    cleanMapping place (Dict.put key v out) items

end

end

/-! ### What is clean -/

section
variable {φ : Type} {F : FloatText φ} {scrubSecrets : Text → Text}

structure Clean (F : FloatText φ) (v : Value φ) : Prop where
  finite : v.every F.finiteLeaf (fun _ => true) = true
  distinct : v.distinct = true

theorem clean_arr {xs : List (Value φ)} : Clean F (.arr xs) ↔ ∀ x ∈ xs, Clean F x := by
  constructor
  · exact fun h x hx => ⟨every_arr.mp h.finite x hx,every_arr.mp h.distinct x hx⟩
  · exact fun h => ⟨every_arr.mpr fun x hx => (h x hx).finite,every_arr.mpr fun x hx => (h x hx).distinct⟩

theorem clean_obj {fs : List (Text × Value φ)} : Clean F (.obj fs) ↔ (fs.map Prod.fst).Nodup ∧ ∀ e ∈ fs, Clean F e.2 := by
  constructor
  · intro h
    obtain ⟨hkeys,hvalues⟩ := every_obj.mp h.distinct
    exact ⟨of_decide_eq_true hkeys,fun e he => ⟨(every_obj.mp h.finite).2 e he,hvalues e he⟩⟩
  · rintro ⟨hkeys,hvalues⟩
    exact ⟨every_obj.mpr ⟨rfl,fun e he => (hvalues e he).finite⟩,
      every_obj.mpr ⟨decide_eq_true hkeys,fun e he => (hvalues e he).distinct⟩⟩

theorem clean_empty : Clean F (.obj []) := clean_obj.mpr ⟨List.nodup_nil,fun _ he => absurd he List.not_mem_nil⟩

theorem Clean.put {fs : List (Text × Value φ)} (h : Clean F (.obj fs)) (key : Text) {v : Value φ} (hv : Clean F v) :
    Clean F (.obj (Dict.put key v fs)) := by
  obtain ⟨hkeys,hvalues⟩ := clean_obj.mp h
  refine clean_obj.mpr ⟨Dict.nodup_put hkeys,fun e he => ?_⟩
  rcases Dict.mem_put he with rfl | he
  · exact hv
  · exact hvalues e he

theorem cleanLeaf_clean {place : Text} {l m : Leaf φ} (h : cleanLeaf F scrubSecrets place l = .ok m) : Clean F (.leaf m) := by
  cases l with
  | float x =>
    rw [cleanLeaf] at h
    split at h
    · next hfinite =>
      cases h
      exact ⟨hfinite,rfl⟩
    · cases h
  | null => cases h; exact ⟨rfl,rfl⟩
  | bool b => cases h; exact ⟨rfl,rfl⟩
  | int n => cases h; exact ⟨rfl,rfl⟩
  | str t => cases h; exact ⟨rfl,rfl⟩

mutual

/-- What `_clean` returns is clean. -/
theorem clean_clean : (raw : Raw φ) → (place : Text) → (v : Value φ) → clean F scrubSecrets place raw = .ok v → Clean F v
  | .leaf l, place, v, h => by
    rw [clean] at h
    obtain ⟨m,hm,rfl⟩ := map_ok.mp h
    exact cleanLeaf_clean hm
  | .seq items, place, v, h => by
    rw [clean] at h
    obtain ⟨vs,hvs,rfl⟩ := map_ok.mp h
    exact clean_arr.mpr (cleanItems_clean items place 0 vs hvs)
  | .mapping items, place, v, h => by
    rw [clean] at h
    obtain ⟨fs,hfs,rfl⟩ := map_ok.mp h
    exact cleanMapping_clean items place [] fs clean_empty hfs
  | .other typeName, place, v, h => by
    rw [clean] at h
    cases h

theorem cleanItems_clean : (items : List (Raw φ)) → (place : Text) → (i : ℕ) → (vs : List (Value φ)) →
    cleanItems F scrubSecrets place i items = .ok vs → ∀ v ∈ vs, Clean F v
  | [], place, i, vs, h => by
    cases h
    exact fun _ hv => absurd hv List.not_mem_nil
  | item :: items, place, i, vs, h => by
    rw [cleanItems] at h
    obtain ⟨v,hv,h⟩ := bind_ok.mp h
    obtain ⟨vs,hvs,h⟩ := bind_ok.mp h
    cases h
    exact List.forall_mem_cons.mpr ⟨clean_clean item _ v hv,cleanItems_clean items place (i + 1) vs hvs⟩

theorem cleanMapping_clean : (items : List (Key × Raw φ)) → (place : Text) → (out fs : List (Text × Value φ)) →
    Clean F (.obj out) → cleanMapping F scrubSecrets place out items = .ok fs → Clean F (.obj fs)
  | [], place, out, fs, hout, h => by
    cases h
    exact hout
  | (.other repr,_) :: items, place, out, fs, hout, h => by cases h
  | (.str key,item) :: items, place, out, fs, hout, h => by
    rw [cleanMapping] at h
    obtain ⟨v,hv,h⟩ := bind_ok.mp h
    exact cleanMapping_clean items place _ fs (hout.put key (clean_clean item _ v hv)) h

end

end

end Verdict.EventLog

/-! ## Run events and the lines they are stored in

A line is the JSON of an event with sorted keys. Read back, the event has its keys in order and
its surrogate pairs joined, and is otherwise the event that was written.
-/
namespace Verdict.EventLog
open PyText JsonValue JsonText

def eventTypes : List Text :=
  ["run_started","understand","plan_started","plan_ready","plan_repair_started","plan_repair_terminal","hydrate","topology",
    "eligibility","node_state","selection","dispatch","heartbeat","terminal","failure","cooldown","reassign","salvage","restore",
    "verify","repo_gate","repo_gates","barrier","integrate","review","remediation","controller","decision_signals",
    "review_attempt","repack","rehydrate","decision_signals_context_budget","control","executor_map_unmatched",
    "openspec_admission","openspec_conformance","run_finished"].map lit

/-- An event has a known type; `time` is the field `at`. -/
structure RunEvent (φ : Type) where
  seq : ℤ
  (time type nodeId : Text)
  data : List (Text × Value φ)
  known : type ∈ eventTypes

/-- Why a line is no event: an exception that `read` turns into a corrupt event, or another. -/
inductive Failure
  | corrupt
  | overflow

/-- What lies outside: floats as texts, `scrub_secrets` and `repr`, and what `int`, `str` and
`dict(... or {})` make of a parsed value of another type. -/
structure Env (φ : Type) where
  float : FloatText φ
  (scrubSecrets repr : Text → Text)
  int : Value φ → Except Failure ℤ
  str : Value φ → Text
  dict : Value φ → Except Failure (List (Text × Value φ))

namespace RunEvent
variable {φ : Type}

/-- `__post_init__`. -/
def make (env : Env φ) (seq : ℤ) (time type nodeId : Text) (data : List (Text × Value φ)) : Except Text (RunEvent φ) :=
  if h : type ∈ eventTypes then .ok ⟨seq,time,type,nodeId,data,h⟩ else .error (lit "unknown event type " ++ env.repr type)

def toDict (e : RunEvent φ) : Value φ :=
  .obj [(lit "seq",.int e.seq),(lit "at",.str e.time),(lit "type",.str e.type),(lit "node_id",.str e.nodeId),
    (lit "data",.obj e.data)]

end RunEvent

section
variable {φ : Type} (env : Env φ)

def Env.toInt : Value φ → Except Failure ℤ
  | .int n => .ok n
  | v => env.int v

def Env.toStr : Value φ → Text
  | .str t => t
  | v => env.str v

def Env.toData : Option (Value φ) → Except Failure (List (Text × Value φ))
  | none => .ok []
  | some (.obj fs) => .ok fs
  | some v => env.dict v

/-- `value[key]`. -/
def field (fs : List (Text × Value φ)) (key : Text) : Except Failure (Value φ) := match fs.lookup key with
  | some v => .ok v
  | none => .error .corrupt

/-- `RunEvent.from_dict`. -/
def RunEvent.fromDict : Value φ → Except Failure (RunEvent φ)
  | .obj fs => do
    let seq ← field fs (lit "seq")
    let seq ← env.toInt seq
    let time ← field fs (lit "at")
    let type ← field fs (lit "type")
    let nodeId := (fs.lookup (lit "node_id")).elim [] env.toStr
    let data ← env.toData (fs.lookup (lit "data"))
    match RunEvent.make env seq (env.toStr time) (env.toStr type) nodeId data with
    | .ok e => .ok e
    | .error _ => .error .corrupt
  | _ => .error .corrupt

/-- `RunEvent.from_dict(json.loads(line))`. -/
def fromLine (line : List Char) : Except Failure (RunEvent φ) := match loads env.float line with
  | some v => RunEvent.fromDict env v
  | none => .error .corrupt

end

/-! ### The round trip -/

section
variable {φ : Type}
variable (fs : List (Text × Value φ))

def settledFields : List (Text × Value φ) :=
  Value.toDict (Value.backFields ((Value.sortedFields fs).insertionSort Value.byKey))

theorem back_sorted_obj : (Value.obj fs).sorted.back = .obj (settledFields fs) := by
  rw [Value.sorted,Value.back,settledFields]

namespace RunEvent

variable (e : RunEvent φ)

def settled : RunEvent φ := {e with time := join e.time, nodeId := join e.nodeId, data := settledFields e.data}

def Same (a b : RunEvent φ) : Prop :=
  a.seq = b.seq ∧ a.time = b.time ∧ a.type = b.type ∧ a.nodeId = b.nodeId ∧ Value.Same (.obj a.data) (.obj b.data)

def Unpaired : Prop := Whole e.time ∧ Whole e.nodeId ∧ (Value.obj e.data).unpaired = true

theorem same_settled {e : RunEvent φ} {F : FloatText φ} (hclean : Clean F (.obj e.data)) (h : e.Unpaired) : e.settled.Same e := by
  obtain ⟨htime,hnode,hdata⟩ := h
  have hsame := Value.same_back_sorted hdata hclean.distinct
  rw [back_sorted_obj] at hsame
  exact ⟨rfl,join_eq_self_iff.mpr htime,rfl,join_eq_self_iff.mpr hnode,hsame⟩

theorem whole_eventTypes : ∀ t ∈ eventTypes, Whole t := by decide +kernel

theorem sorted_toDict : e.toDict.sorted = .obj [(lit "at",.str e.time),(lit "data",(Value.obj e.data).sorted),
    (lit "node_id",.str e.nodeId),(lit "seq",.int e.seq),(lit "type",.str e.type)] := by
  rfl

theorem back_toDict : e.toDict.sorted.back = .obj [(lit "at",.str (join e.time)),(lit "data",.obj (settledFields e.data)),
    (lit "node_id",.str (join e.nodeId)),(lit "seq",.int e.seq),(lit "type",.str (join e.type))] := by
  rw [sorted_toDict,Value.back]
  simp only [Value.backFields,back_sorted_obj]
  rfl

theorem make_ok {env : Env φ} {seq : ℤ} {time type nodeId : Text} {data : List (Text × Value φ)} {e : RunEvent φ}
    (h : make env seq time type nodeId data = .ok e) : e.seq = seq ∧ e.data = data := by
  rw [make] at h
  split at h
  · cases h
    exact ⟨rfl,rfl⟩
  · cases h

theorem make_known (env : Env φ) (e : RunEvent φ) : make env e.seq e.time e.type e.nodeId e.data = .ok e := dif_pos e.known

theorem fromDict_toDict (env : Env φ) (e : RunEvent φ) : fromDict env e.toDict.sorted.back = .ok e.settled := by
  rw [back_toDict,join_eq_self_iff.mpr (whole_eventTypes e.type e.known)]
  show (match make env e.settled.seq e.settled.time e.settled.type e.settled.nodeId e.settled.data with
    | .ok e => Except.ok e
    | .error _ => .error Failure.corrupt) = _
  rw [make_known env e.settled]

def line (F : FloatText φ) (e : RunEvent φ) : Option (List Char) := dumps F e.toDict

theorem finite_toDict {F : FloatText φ} {e : RunEvent φ} (h : Clean F (.obj e.data)) :
    e.toDict.every F.finiteLeaf (fun _ => true) = true := by
  refine Value.every_obj.mpr ⟨rfl,fun entry hentry => ?_⟩
  simp only [List.mem_cons,List.not_mem_nil,or_false] at hentry
  rcases hentry with rfl | rfl | rfl | rfl | rfl
  · rfl
  · rfl
  · rfl
  · rfl
  · exact h.finite

theorem fromLine_line {env : Env φ} {e : RunEvent φ} (hclean : Clean env.float (.obj e.data)) {text : List Char}
    (h : e.line env.float = some text) :
    fromLine env text = .ok e.settled ∧ (∀ c ∈ text, Printable c) ∧ text.head? = some openBrace := by
  obtain ⟨hloads,hprintable⟩ := loads_dumps (finite_toDict hclean) h
  refine ⟨?_,hprintable,?_⟩
  · rw [fromLine,hloads]
    exact fromDict_toDict env e
  · obtain ⟨-,hprint⟩ := Option.ite_none_right_eq_some.mp h
    rw [← Option.some.inj hprint,sorted_toDict]
    rfl

end RunEvent
end

end Verdict.EventLog

import Verdict.Receipt.NodeRecord

/-! # The receipt of a run

`build_run_receipt` projects the event log and the graph, and `completion_verdict` judges
the projection. All barrier events of one name share a slot, whichever node they are of,
and the last one wins. Free-form copies of events, digests and times are left out; a run
directory has neither a `review.json` nor an OpenSpec block.
-/
namespace Verdict.Receipt
open Verdict.Runtime

def stateName : NodeState → String
  | .planned => "PLANNED"
  | .admitted => "ADMITTED"
  | .dispatched => "DISPATCHED"
  | .running => "RUNNING"
  | .terminalSuccess => "TERMINAL_SUCCESS"
  | .terminalFailure => "TERMINAL_FAILURE"
  | .validated => "VALIDATED"
  | .rejected => "REJECTED"
  | .blocked => "BLOCKED"

def reviewName : Option ReviewStatus → String
  | some .pass => "PASS"
  | some .fail => "FAIL"
  | some .error => "ERROR"
  | none => "MISSING"

structure BarrierRow where
  name : String
  ok : Bool
  seq : ℕ

def barrierRow (e : Event) (seq : ℕ) : Option BarrierRow := match e.body with
  | .barrier name ok => some ⟨if name ≠ "" then name else if e.nodeId ≠ "" then e.nodeId else "integration",ok,seq⟩
  | _ => none

variable (log : List Event)

def barriers : Dict String BarrierRow :=
  log.zipIdx.foldl (fun rows e => match barrierRow e.1 e.2 with
    | some row => rows.set row.name row
    | none => rows) .empty

variable (g : WorkGraph)

def declared : List String :=
  ((g.nodes.filterMap WorkNode.barrier).map Barrier.name).dedup.insertionSort fun a b => a ≤ b

structure Integration where
  ok : Bool
  barriers : List BarrierRow
  missing : List String

def integration (log : List Event) : Integration :=
  let rows := barriers log
  let missing := (declared g).filter fun name => !rows.contains name
  ⟨decide (rows.entries ≠ []) && decide (missing = []) && rows.values.all BarrierRow.ok,
    (rows.entries.insertionSort fun a b => a.1 ≤ b.1).map Prod.snd,missing⟩

/-- `status` is `none` when the log has no review. -/
structure ReviewBlock where
  status : Option ReviewStatus := none
  routeId : String := ""
  blocking : ℕ := 0

def reviewBlock : ReviewBlock :=
  ((log.filterMap (fun e => match e.body with
    | .review status routeId blocking => some (ReviewBlock.mk (some status) routeId blocking)
    | _ => none)).getLast?).getD {}

def claimedOutcome : Option RunOutcome :=
  (log.filterMap (fun e => match e.body with
    | .runFinished outcome => some outcome
    | _ => none)).getLast?

def noChangeNodes (log : List Event) : List String :=
  (g.nodes.filter (fun n =>
    let events := nodeEvents n.nodeId log
    let last := fun bodies => ((events.filter fun e => decide (e.2 ∈ bodies)).map Prod.fst).getLast?
    decide (n.kind = .implement ∧ (nodeRecord n events).finalState = .validated) &&
      match last [.barrier "no_change" true], last [.barrier "ownership" true,.barrier "ownership" false] with
      | some seq, some ownership => decide (ownership < seq)
      | some _, none => true
      | none, _ => false)).map WorkNode.nodeId

structure RunReceipt where
  nodes : List NodeRecord
  integration : Integration
  review : ReviewBlock
  claimedOutcome : Option RunOutcome
  noChangeNodes : List String
  eventCount : ℕ

def buildRunReceipt (log : List Event) : RunReceipt where
  nodes := g.nodes.map fun n => nodeRecord n (nodeEvents n.nodeId log)
  integration := integration g log
  review := reviewBlock log
  claimedOutcome := claimedOutcome log
  noChangeNodes := noChangeNodes g log
  eventCount := log.length

namespace RunReceipt

variable (r : RunReceipt)

def work : List NodeRecord :=
  r.nodes.filter fun node => decide (node.kind = .implement ∨ node.kind = .integrate)

def barrierReason (i : Integration) : String :=
  let failed := (i.barriers.filter fun b => !b.ok).map BarrierRow.name
  if failed ≠ [] then "integration barrier failed: " ++ ", ".intercalate failed
  else if i.missing ≠ [] then "integration barrier missing: " ++ ", ".intercalate i.missing
  else "integration barrier not recorded"

/-- Outcome and reason; complete only with validated work, an ok integration barrier and a
clean review. -/
def completionVerdict : RunOutcome × String :=
  if r.claimedOutcome = some .cancelled then (.cancelled,"run cancelled by operator")
  else if r.work = [] then (.blocked,"no implement/integrate nodes to validate")
  else match r.work.find? (fun node => decide (node.finalState ≠ .validated)) with
  | some node => (.blocked,"node " ++ node.nodeId ++ " not VALIDATED (final_state=" ++ stateName node.finalState ++ ")")
  | none =>
    if ¬ r.integration.ok then (.blocked,barrierReason r.integration)
    else if r.review.status ≠ some .pass then
      (.blocked,"review status " ++ reviewName r.review.status ++ " (PASS required)")
    else if r.review.blocking ≠ 0 then
      (.blocked,"review has " ++ toString r.review.blocking ++ " blocking finding(s)")
    else (.complete,"all implement/integrate nodes validated, barrier ok, review PASS")

theorem completionVerdict_complete : r.completionVerdict.1 = .complete ↔ r.claimedOutcome ≠
    some .cancelled ∧ r.work ≠ [] ∧ (∀ node ∈ r.work, node.finalState = .validated) ∧ r.integration.ok =
    true ∧ r.review.status = some .pass ∧ r.review.blocking = 0 := by
  simp only [completionVerdict]
  split
  · simp_all
  · rename_i hcancelled
    split
    · simp_all
    · rename_i hwork
      cases hfind : r.work.find? (fun node => decide (node.finalState ≠ .validated)) with
      | some node =>
        have hne : node.finalState ≠ .validated := by simpa using List.find?_some hfind
        have hmem := List.mem_of_find?_eq_some hfind
        constructor
        · intro h
          cases h
        · intro h
          exact absurd (h.2.2.1 node hmem) hne
      | none =>
        have hall : ∀ node ∈ r.work, node.finalState = .validated := by simpa using hfind
        dsimp only
        split
        · simp_all
        · split
          · simp_all
          · split <;> simp_all

end RunReceipt

/-! ### The slots of the barriers -/

variable (name : String)

def barrierEvents (log : List Event) : List (String × Bool) :=
  log.filterMap (fun e => match e.body with
    | .barrier k ok => if k = name then some (e.nodeId,ok) else none
    | _ => none)

def lastBarrier (log : List Event) : Option (String × Bool) := (barrierEvents name log).getLast?

def Named : Prop := ∀ i ok, (⟨i,.barrier "" ok⟩ : Event) ∉ log

theorem barriers_snoc (e : Event) :
    barriers (log ++ [e]) = match barrierRow e log.length with
      | some row => (barriers log).set row.name row
      | none => barriers log := by
  simp only [barriers,List.zipIdx_append,List.foldl_append]
  simp only [List.zipIdx_singleton,List.foldl_cons,List.foldl_nil,Nat.zero_add]

theorem barrierEvents_append (l l' : List Event) :
    barrierEvents name (l ++ l') = barrierEvents name l ++ barrierEvents name l' := List.filterMap_append

theorem mem_barrierEvents {name i : String} {ok : Bool} {log : List Event} :
    (i,ok) ∈ barrierEvents name log ↔ ⟨i,.barrier name ok⟩ ∈ log := by
  simp only [barrierEvents,List.mem_filterMap]
  constructor
  · rintro ⟨⟨j,b⟩,he,hb⟩
    cases b with
    | barrier k ok' =>
      dsimp only at hb
      split at hb
      · rename_i hk
        cases hb
        exact hk ▸ he
      · cases hb
    | _ => cases hb
  · intro he
    exact ⟨_,he,by simp⟩

theorem barriers_get? {log : List Event} (hnamed : Named log) (name : String) :
    ((barriers log).get? name).map BarrierRow.ok = (lastBarrier name log).map Prod.snd := by
  induction log using List.reverseRecOn with
  | nil => rfl
  | append_singleton log e ih =>
    have ih := ih fun i ok he => hnamed i ok (List.mem_append_left _ he)
    obtain ⟨j,b⟩ := e
    rw [barriers_snoc,lastBarrier,barrierEvents_append]
    cases b with
    | barrier k ok =>
      have hk : k ≠ "" := by
        rintro rfl
        exact hnamed j ok (List.mem_append_right _ (List.mem_singleton_self _))
      simp only [barrierRow,hk,ne_eq,not_false_eq_true,if_true,Dict.get?_set]
      by_cases hn : name = k
      · simp [hn,barrierEvents]
      · rw [if_neg hn,ih]
        simp [barrierEvents,lastBarrier,Ne.symm hn]
    | _ => simpa [barrierRow,barrierEvents,lastBarrier] using ih

theorem mem_declared {g : WorkGraph} {name : String} :
    name ∈ declared g ↔ ∃ n ∈ g.nodes, ∃ b, n.barrier = some b ∧ b.name = name := by
  simp only [declared,List.mem_insertionSort,List.mem_dedup,List.mem_map,List.mem_filterMap]
  constructor
  · rintro ⟨b,⟨n,hn,hb⟩,rfl⟩
    exact ⟨n,hn,b,hb,rfl⟩
  · rintro ⟨n,hn,b,hb,rfl⟩
    exact ⟨b,⟨n,hn,hb⟩,rfl⟩

theorem integration_ok {g : WorkGraph} {log : List Event} (hnamed : Named log) : (integration g log).ok =
    true ↔ (∃ name, lastBarrier name log ≠ none) ∧
    (∀ n ∈ g.nodes, ∀ b, n.barrier = some b → lastBarrier b.name log ≠ none) ∧ ∀ name i ok, lastBarrier name
    log = some (i,ok) → ok = true := by
  have hslot := barriers_get? hnamed
  have hnone : ∀ name, (barriers log).get? name = none ↔ lastBarrier name log = none := fun name => by
    rw [← Option.map_eq_none_iff (f := BarrierRow.ok),hslot,Option.map_eq_none_iff]
  have hentries : (barriers log).entries ≠ [] ↔ ∃ name, lastBarrier name log ≠ none := by
    constructor
    · intro h
      obtain ⟨⟨name,row⟩,hmem⟩ := List.exists_mem_of_ne_nil _ h
      refine ⟨name,fun hlast => ?_⟩
      have hget := (Dict.mem_entries_iff _ _ _).mp hmem
      rw [(hnone name).mpr hlast] at hget
      cases hget
    · rintro ⟨name,hne⟩
      obtain ⟨row,hrow⟩ := Option.ne_none_iff_exists'.mp fun h => hne ((hnone name).mp h)
      exact List.ne_nil_of_mem ((Dict.mem_entries_iff _ _ _).mpr hrow)
  have hmissing : ((declared g).filter (fun name => !(barriers log).contains name) = []) ↔
      ∀ n ∈ g.nodes, ∀ b, n.barrier = some b → lastBarrier b.name log ≠ none := by
    simp only [List.filter_eq_nil_iff,mem_declared,Dict.contains,Bool.not_eq_true',Option.isSome_eq_false_iff,
      Option.isNone_iff_eq_none,hnone]
    constructor
    · exact fun h n hn b hb => h b.name ⟨n,hn,b,hb,rfl⟩
    · rintro h _ ⟨n,hn,b,hb,rfl⟩
      exact h n hn b hb
  have hvalues : (barriers log).values.all BarrierRow.ok = true ↔
      ∀ name i ok, lastBarrier name log = some (i,ok) → ok = true := by
    simp only [Dict.values,List.all_eq_true,List.mem_map,forall_exists_index,and_imp]
    constructor
    · intro h name i ok hlast
      have hget := hslot name
      rw [hlast] at hget
      obtain ⟨row,hrow,hok⟩ := Option.map_eq_some_iff.mp hget
      exact hok.symm.trans (h row (name,row) ((Dict.mem_entries_iff _ _ _).mpr hrow) rfl)
    · rintro h _ ⟨name,row⟩ hmem rfl
      have hget := hslot name
      rw [(Dict.mem_entries_iff _ _ _).mp hmem] at hget
      obtain ⟨⟨i,ok⟩,hlast,hok⟩ := Option.map_eq_some_iff.mp hget.symm
      exact hok.symm.trans (h name i ok hlast)
  simp only [integration,Bool.and_eq_true,decide_eq_true_eq,hentries,hmissing,hvalues,and_assoc]

end Verdict.Receipt

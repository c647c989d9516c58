import Verdict.Evidence.Finite

/-! # The receipt of a directory over many calls

`write_run_receipt`, `verify_run_receipt` and what `run_golden_path` does to the files of a
run directory. What a run makes of its goal is left open: a call comes with the events it
emits, the graph it saves and how its writes of the receipt end.
-/
namespace Verdict.Evidence
open Json Raising Run
open EventsFile (lines repair)

/-- `lost`: the write raises with the old file in place; `late`: behind the replacement. -/
inductive WriteEnd
  | done | lost | late
  deriving DecidableEq

/-- An event as `emit` lets it pass: `_clean` raises for a number that is not finite. -/
structure Emitted where
  type : EventType
  nodeId : String := ""
  time : String
  data : Fields := []
  finite : Json.Finite data := by decide

/-- A graph as it is saved: the `openspec` object is made of texts and lists. -/
structure SavedGraph where
  file : GraphFile
  finite : ∀ j ∈ file.openspec, j.hasNan = false := by decide

namespace RunDir

def repaired (d : RunDir) : RunDir := {d with events := d.events.map repair}

def lastSeq (d : RunDir) : ℕ :=
  ((((d.events.map lines).getD []).filterMap (fun l => match l with
    | .event e => some e.seq
    | _ => none)).getLast?).getD 0

/-- `EventLog.emit`. -/
def emit (d : RunDir) (e : Emitted) : RunDir := {d with
  events := some ⟨(d.events.map lines).getD [] ++ [.event ⟨d.lastSeq + 1,e.time,e.type,e.nodeId,e.data⟩],false⟩}

def emitAll (d : RunDir) (es : List Emitted) : RunDir := es.foldl emit d

def save (d : RunDir) (graph : Option SavedGraph) : RunDir := match graph with
  | some g => {d with graph := some (.ok g.file)}
  | none => d

def resetConformance (d : RunDir) : RunDir := {d with graph := d.graph.map (fun file => file.map (fun g =>
  {g with openspec := g.openspec.map (fun j => match j with
    | .obj block => if (get block "conformance_result").isObj then .obj (Dict.put "conformance_result" .null block) else j
    | j => j)}))}

def opened (d : RunDir) : Option RunDir := match d.events with
  | none => some d.resetConformance
  | some file => if file.read.isOk then some d.repaired.resetConformance else none

def startedBefore (d : RunDir) : Bool :=
  ((d.events.map lines).getD []).any (fun l => match l with
    | .event e => decide (e.type = .runStarted)
    | _ => false)

end RunDir

section
variable (env : Env) (sha256 : EventsFile → String)

/-- The receipt as it is read back, and the directory behind it. -/
def writeRunReceipt (d : RunDir) (w : WriteEnd) : Except Raised Fields × RunDir :=
  match buildRunReceipt env sha256 d with
  | .error e => (.error e,d.repaired)
  | .ok receipt =>
    let stored := canonFields receipt
    match w with
    | .done => (.ok stored,{d.repaired with receipt := some (.ok stored)})
    | .lost => (.error (.other "OSError"),d.repaired)
    | .late => (.error (.other "OSError"),{d.repaired with receipt := some (.ok stored)})

def mismatches (fresh stored : Fields) : List String :=
  ((((fresh ++ stored).map Prod.fst).dedup.insertionSort (· ≤ ·)).filter (fun key =>
    decide (key ≠ "events_digest") && !pyEq (get fresh key) (get stored key))).map (fun key =>
      key ++ " mismatch: stored receipt differs from recomputed evidence")

def verifyRunReceipt (d : RunDir) : Except Raised (List String) := match d.receipt with
  | none => .ok ["missing receipt.json"]
  | some (.error (.orchestration message)) => .ok [message]
  | some (.error e) => .error e
  | some (.ok stored) =>
    let schema := if get stored "schema" ≠ .str receiptSchema then
      ["unexpected schema " ++ env.repr (get stored "schema")] else []
    match d.events with
    | none => .ok (schema ++ ["missing events.jsonl"])
    | some file =>
      let digest := if get stored "events_digest" ≠ .str (sha256 file) then
        ["events_digest mismatch: events.jsonl changed after receipt was written"] else []
      match buildRunReceipt env sha256 d with
      | .error (.orchestration message) => .ok (schema ++ digest ++ ["cannot rebuild receipt: " ++ message])
      | .error e => .error e
      | .ok fresh => .ok (schema ++ digest ++ mismatches fresh stored)

/-- What a call of `run_golden_path` is given and meets. -/
inductive Call
  /-- A resume with other constraints. -/
  | refused (time : String)
  /-- `_blocked_before_plan`. -/
  | settled (new : List Emitted) (graph : Option SavedGraph) (write : WriteEnd)
  /-- The runtime has run; the second write covers an override of its outcome. -/
  | executed (new : List Emitted) (graph : SavedGraph) (outcome : RunOutcome) (first : WriteEnd)
      (time detail : String) (regraph : SavedGraph) (second : WriteEnd)
  /-- A call that does not return: it dies, perhaps behind a write and in the middle of a line. -/
  | raised (new : List Emitted) (graph : Option SavedGraph) (write : Option WriteEnd) (more : List Emitted) (torn : Bool)

def Call.returns : Call → Bool
  | .raised _ _ _ _ _ => false
  | _ => true

def runOutcomeName : RunOutcome → String
  | .complete => "COMPLETE"
  | .blocked => "BLOCKED"
  | .cancelled => "CANCELLED"

def refusal : String := "resume constraints differ from the constraints the run was planned under"

def refusedEvent (time : String) : Emitted where
  type := .runFinished
  time := time
  data := [("outcome",.str "BLOCKED"),("reason",.str refusal)]
  finite := rfl

/-- `RECEIPT_FAILED` or `VERDICT_OVERRIDE`. -/
def controllerEvent (time state detail : String) : Emitted where
  type := .controller
  time := time
  data := [("state",.str state),("detail",.str detail)]
  finite := rfl

def Agrees (receipt : Fields) (outcome : RunOutcome) : Prop := (completionVerdict env receipt).1 = runOutcomeName outcome

instance (receipt : Fields) (outcome : RunOutcome) : Decidable (Agrees env receipt outcome) :=
  inferInstanceAs (Decidable (_ = _))

def conclude (written : Except Raised Fields × RunDir) (outcome : RunOutcome) (time detail : String)
    (regraph : SavedGraph) (second : WriteEnd) : RunDir := match written with
  | (.error _,d) => (d.emit (controllerEvent time "RECEIPT_FAILED" detail)).save (some regraph)
  | (.ok receipt,d) =>
    if Agrees env receipt outcome then d
    else (writeRunReceipt env sha256 ((d.emit (controllerEvent time "VERDICT_OVERRIDE" detail)).save (some regraph)) second).2

def RunDir.run (d : RunDir) : Call → RunDir
  | .refused time => d.emit (refusedEvent time)
  | .settled new graph write => (writeRunReceipt env sha256 ((d.emitAll new).save graph) write).2
  | .executed new graph outcome first time detail regraph second =>
    conclude env sha256 (writeRunReceipt env sha256 ((d.emitAll new).save (some graph)) first) outcome time detail regraph
      second
  | .raised new graph write more torn =>
    let d := (d.emitAll new).save graph
    let d := ((match write with
      | some w => (writeRunReceipt env sha256 d w).2
      | none => d).emitAll more)
    {d with events := d.events.map (fun file => {file with torn := torn})}

def RunDir.call (d : RunDir) (c : Call) : Option RunDir :=
  d.opened.bind (fun d => match c with
    | .refused _ => if d.startedBefore then some (d.run env sha256 c) else none
    | _ => some (d.run env sha256 c))

def Lands (d : RunDir) (w : WriteEnd) : Prop := w ≠ .lost ∧ (buildRunReceipt env sha256 d).isOk = true

instance (d : RunDir) (w : WriteEnd) : Decidable (Lands env sha256 d w) := inferInstanceAs (Decidable (_ ∧ _))

def Rewritten (d : RunDir) : Call → Prop
  | .refused _ => d.receipt = none
  | .settled new graph write => d.receipt = none ∨ Lands env sha256 ((d.emitAll new).save graph) write
  | .executed new graph outcome first time detail regraph second =>
    let written := writeRunReceipt env sha256 ((d.emitAll new).save (some graph)) first
    match written.1 with
    | .error _ => written.2.receipt = none
    | .ok receipt => Agrees env receipt outcome ∨
        Lands env sha256 ((written.2.emit (controllerEvent time "VERDICT_OVERRIDE" detail)).save (some regraph)) second
  | .raised _ _ _ _ _ => True

def RunDir.Kept (d : RunDir) (c : Call) : Prop := ∀ d' ∈ d.opened, Rewritten env sha256 d' c

instance (d : RunDir) (c : Call) : Decidable (Rewritten env sha256 d c) := by
  have hnone : ∀ d : RunDir, Decidable (d.receipt = none) := fun d => match h : d.receipt with
    | none => isTrue rfl
    | some r => isFalse fun e => by cases e
  cases c with
  | refused => exact hnone d
  | settled => exact instDecidableOr
  | executed new graph outcome first time detail regraph second =>
    simp only [Rewritten]
    split <;> infer_instance
  | raised => exact isTrue trivial

instance (d : RunDir) (c : Call) : Decidable (d.Kept env sha256 c) := inferInstanceAs (Decidable (∀ d' ∈ d.opened, _))

def Matches (d : RunDir) : Prop := d.receipt = none ∨ verifyRunReceipt env sha256 d = .ok []

end
/-! ### A receipt that was just written -/

section
variable {env : Env} {sha256 : EventsFile → String} {d d' : RunDir} {receipt : Fields} {w : WriteEnd}

theorem get_append {fs gs : Fields} {key : String} {j : Json} (h : fs.lookup key = some j) : get (fs ++ gs) key = j := by
  rw [Json.get,List.lookup_append,h]
  rfl

theorem buildRunReceipt_head (h : buildRunReceipt env sha256 d = .ok receipt) : ∃ file, d.events = some file ∧
    get receipt "schema" = .str receiptSchema ∧ get receipt "events_digest" = .str (sha256 file.repair) := by
  simp only [buildRunReceipt] at h
  obtain ⟨file,hfile,h⟩ := bind_ok.mp h
  obtain ⟨events,-,h⟩ := bind_ok.mp h
  obtain ⟨graph,-,h⟩ := bind_ok.mp h
  obtain ⟨plan,-,h⟩ := bind_ok.mp h
  split at h
  · cases h
  · obtain ⟨nodes,-,h⟩ := bind_ok.mp h
    obtain ⟨review,-,h⟩ := bind_ok.mp h
    cases h
    simp only [RunDir.eventsFile] at hfile
    split at hfile
    · rename_i file' hsome
      cases hfile
      exact ⟨file',hsome,get_append (by simp [receiptBody]),
        get_append (by simp [receiptBody,List.lookup_cons])⟩
    · cases hfile

theorem buildRunReceipt_written (stored : Option (Except Raised Fields)) :
    buildRunReceipt env sha256 {d.repaired with receipt := stored} = buildRunReceipt env sha256 d := by
  have hfile : ({d.repaired with receipt := stored} : RunDir).eventsFile = d.eventsFile := by
    simp only [RunDir.eventsFile,RunDir.repaired]
    cases d.events <;> rfl
  simp only [buildRunReceipt,hfile]
  rfl

theorem verify_written (h : buildRunReceipt env sha256 d = .ok receipt) : verifyRunReceipt env sha256
    {d.repaired with receipt := some (.ok (canonFields receipt))} = .ok [] ↔ ∀ key, (get receipt key).hasNan
    = false := by
  obtain ⟨file,hfile,hschema,hdigest⟩ := buildRunReceipt_head h
  have hevents : d.repaired.events = some file.repair := by rw [RunDir.repaired,hfile]; rfl
  have hstored : get (canonFields receipt) "schema" = .str receiptSchema := by rw [get_canonFields,hschema]; rfl
  have hsum : get (canonFields receipt) "events_digest" = .str (sha256 file.repair) := by
    rw [get_canonFields,hdigest]
    rfl
  have hfresh : buildRunReceipt env sha256 {d.repaired with receipt := some (.ok (canonFields receipt))} =
      buildRunReceipt env sha256 d := buildRunReceipt_written _
  rw [h] at hfresh
  generalize hw : ({d.repaired with receipt := some (.ok (canonFields receipt))} : RunDir) = written at hfresh
  have hreceipt : written.receipt = some (.ok (canonFields receipt)) := by rw [← hw]
  have hfile : written.events = some file.repair := by rw [← hw,← hevents]
  simp only [verifyRunReceipt,hreceipt,hfile,hfresh,hstored,hsum,ne_eq,not_true_eq_false,if_false,
    List.nil_append,Except.ok.injEq,mismatches,List.map_eq_nil_iff,List.filter_eq_nil_iff,get_canonFields,pyEq_canon,
    Bool.not_not,Bool.and_eq_true,decide_eq_true_eq,not_and,Bool.not_eq_true]
  constructor
  · intro hkeys key
    by_cases hkey : key = "events_digest"
    · rw [hkey,hdigest]
      rfl
    · by_cases hmem : key ∈ receipt.map Prod.fst
      · refine hkeys key ?_ hkey
        rw [List.mem_insertionSort,List.mem_dedup,List.map_append]
        exact List.mem_append_left _ hmem
      · rw [Json.get,Dict.lookup_eq_none_of_not_mem hmem]
        rfl
  · exact fun hfields key _ _ => hfields key

theorem written_matches (hd : d.Clean) (h : buildRunReceipt env sha256 d = .ok receipt) :
    Matches env sha256 {d.repaired with receipt := some (.ok (canonFields receipt))} :=
  .inr ((verify_written h).mpr (buildRunReceipt_finite hd h).get)

theorem writeRunReceipt_cases (env : Env) (sha256 : EventsFile → String) (d : RunDir) (w : WriteEnd) :
    (∃ e, writeRunReceipt env sha256 d w = (.error e,d.repaired) ∧ ¬ Lands env sha256 d w) ∨ ∃ receipt,
    buildRunReceipt env sha256 d = .ok receipt ∧ Lands env sha256 d w ∧ (writeRunReceipt env sha256 d w).2 =
    {d.repaired with receipt := some (.ok (canonFields receipt))} := by
  simp only [writeRunReceipt,Lands]
  cases hbuild : buildRunReceipt env sha256 d with
  | error e => exact .inl ⟨e,rfl,fun hl => by cases hl.2⟩
  | ok receipt =>
    cases w with
    | done => exact .inr ⟨receipt,rfl,⟨by decide,rfl⟩,rfl⟩
    | lost => exact .inl ⟨_,rfl,fun hl => hl.1 rfl⟩
    | late => exact .inr ⟨receipt,rfl,⟨by decide,rfl⟩,rfl⟩

theorem lands_matches (hd : d.Clean) (h : Lands env sha256 d w) : Matches env sha256 (writeRunReceipt env sha256 d w).2 := by
  rcases writeRunReceipt_cases env sha256 d w with ⟨_,_,hnot⟩ | ⟨receipt,hbuild,_,hwrite⟩
  · exact absurd h hnot
  · rw [hwrite]
    exact written_matches hd hbuild

end
/-! ### What calls keep -/

section
variable {env : Env} {sha256 : EventsFile → String} {d d' : RunDir} {c : Call}

theorem repaired_clean (h : d.Clean) : d.repaired.Clean := by
  refine ⟨fun file hfile e he => ?_,h.openspec⟩
  obtain ⟨old,hold,rfl⟩ := Option.map_eq_some_iff.mp hfile
  exact h.events old hold e he

theorem emit_clean (h : d.Clean) (e : Emitted) : (d.emit e).Clean := by
  refine ⟨fun file hfile x hx => ?_,h.openspec⟩
  cases hfile
  rcases List.mem_append.mp hx with hx | hx
  · cases hevents : d.events with
    | none =>
      rw [hevents] at hx
      cases hx
    | some file =>
      rw [hevents] at hx
      exact h.events file hevents x hx
  · cases List.mem_singleton.mp hx
    exact e.finite

theorem emitAll_clean {es : List Emitted} (h : d.Clean) : (d.emitAll es).Clean := by
  induction es generalizing d with
  | nil => exact h
  | cons e es ih => exact ih (emit_clean h e)

theorem save_clean (h : d.Clean) (graph : Option SavedGraph) : (d.save graph).Clean := by
  cases graph with
  | none => exact h
  | some g =>
    refine ⟨h.events,fun file hfile => ?_⟩
    cases hfile
    exact g.finite

theorem resetConformance_clean (h : d.Clean) : d.resetConformance.Clean := by
  refine ⟨h.events,fun file hfile j hj => ?_⟩
  obtain ⟨loaded,hloaded,hok⟩ := Option.map_eq_some_iff.mp hfile
  obtain ⟨g,rfl,rfl⟩ := map_ok.mp hok
  obtain ⟨old,hold,rfl⟩ := Option.map_eq_some_iff.mp hj
  have hfinite := h.openspec g hloaded old hold
  split
  · split
    · exact (hasNan_obj _).mpr (((hasNan_obj _).mp hfinite).put rfl)
    · exact hfinite
  · exact hfinite

theorem opened_clean (h : d.Clean) (ho : d.opened = some d') : d'.Clean ∧ d'.receipt = d.receipt := by
  simp only [RunDir.opened] at ho
  split at ho
  · cases ho
    exact ⟨resetConformance_clean h,rfl⟩
  · split at ho
    · cases ho
      exact ⟨resetConformance_clean (repaired_clean h),rfl⟩
    · cases ho

theorem withReceipt_clean (h : d.Clean) (receipt : Option (Except Raised Fields)) :
    ({d with receipt := receipt} : RunDir).Clean := ⟨h.events,h.openspec⟩

theorem writeRunReceipt_clean (h : d.Clean) (w : WriteEnd) : (writeRunReceipt env sha256 d w).2.Clean := by
  rcases writeRunReceipt_cases env sha256 d w with ⟨_,hwrite,_⟩ | ⟨_,_,_,hwrite⟩
  · rw [hwrite]
    exact repaired_clean h
  · rw [hwrite]
    exact withReceipt_clean (repaired_clean h) _

theorem run_clean (h : d.Clean) : (d.run env sha256 c).Clean := by
  cases c with
  | refused time => exact emit_clean h _
  | settled new graph write => exact writeRunReceipt_clean (save_clean (emitAll_clean h) _) _
  | executed new graph outcome first time detail regraph second =>
    have hfirst : (writeRunReceipt env sha256 ((d.emitAll new).save (some graph)) first).2.Clean :=
      writeRunReceipt_clean (save_clean (emitAll_clean h) _) _
    simp only [RunDir.run,conclude]
    split
    · rename_i hwrite
      rw [hwrite] at hfirst
      exact save_clean (emit_clean hfirst _) _
    · rename_i hwrite
      rw [hwrite] at hfirst
      split
      · exact hfirst
      · exact writeRunReceipt_clean (save_clean (emit_clean hfirst _) _) _
  | raised new graph write more torn =>
    have hwritten : ((match write with
        | some w => (writeRunReceipt env sha256 ((d.emitAll new).save graph) w).2
        | none => (d.emitAll new).save graph).emitAll more).Clean := by
      refine emitAll_clean ?_
      split
      · exact writeRunReceipt_clean (save_clean (emitAll_clean h) _) _
      · exact save_clean (emitAll_clean h) _
    refine ⟨fun file hfile e he => ?_,hwritten.openspec⟩
    obtain ⟨old,hold,rfl⟩ := Option.map_eq_some_iff.mp hfile
    exact hwritten.events old hold e he

theorem save_receipt (d : RunDir) (graph : Option SavedGraph) : (d.save graph).receipt = d.receipt := by
  cases graph <;> rfl

theorem emitAll_receipt (d : RunDir) (es : List Emitted) : (d.emitAll es).receipt = d.receipt := by
  induction es generalizing d with
  | nil => rfl
  | cons e es ih => exact (ih (d.emit e)).trans rfl

theorem write_matches (hd : d.Clean) {w : WriteEnd} (h : d.receipt = none ∨ Lands env sha256 d w) :
    Matches env sha256 (writeRunReceipt env sha256 d w).2 := by
  rcases writeRunReceipt_cases env sha256 d w with ⟨_,hwrite,hnot⟩ | ⟨_,_,hlands,_⟩
  · rw [hwrite]
    exact .inl (h.resolve_right hnot)
  · exact lands_matches hd hlands

theorem run_matches (hd : d.Clean) (hc : Rewritten env sha256 d c) (hreturns : c.returns = true) :
    Matches env sha256 (d.run env sha256 c) := by
  cases c with
  | refused time => exact .inl hc
  | settled new graph write =>
    refine write_matches (save_clean (emitAll_clean hd) _) ?_
    rw [save_receipt,emitAll_receipt]
    exact hc
  | executed new graph outcome first time detail regraph second =>
    have hclean : ((d.emitAll new).save (some graph)).Clean := save_clean (emitAll_clean hd) _
    have hfirst : (writeRunReceipt env sha256 ((d.emitAll new).save (some graph)) first).2.Clean :=
      writeRunReceipt_clean hclean first
    simp only [RunDir.run,conclude]
    simp only [Rewritten] at hc
    cases hwrite : writeRunReceipt env sha256 ((d.emitAll new).save (some graph)) first with
    | mk written d' =>
      rw [hwrite] at hc hfirst
      cases written with
      | error e => exact .inl hc
      | ok receipt =>
        dsimp only at hc ⊢
        split
        · -- a write without an exception has landed
          have hlands : Lands env sha256 ((d.emitAll new).save (some graph)) first := by
            rcases writeRunReceipt_cases env sha256 ((d.emitAll new).save (some graph)) first
              with ⟨e,herror,_⟩ | ⟨_,_,hlands,_⟩
            · rw [hwrite] at herror
              cases herror
            · exact hlands
          have hmatches := lands_matches hclean hlands
          rwa [hwrite] at hmatches
        · rename_i hdisagree
          exact write_matches (save_clean (emit_clean hfirst _) _) (.inr (hc.resolve_left hdisagree))
  | raised => cases hreturns

theorem call_run (h : d.call env sha256 c = some d') : ∃ o, d.opened = some o ∧ d' = o.run env sha256 c := by
  obtain ⟨o,ho,h⟩ := Option.bind_eq_some_iff.mp h
  refine ⟨o,ho,?_⟩
  cases c with
  | refused time =>
    dsimp only at h
    split at h
    · exact (Option.some.inj h).symm
    · cases h
  | _ => exact (Option.some.inj h).symm

theorem call_clean (hd : d.Clean) (h : d.call env sha256 c = some d') : d'.Clean := by
  obtain ⟨o,ho,rfl⟩ := call_run h
  exact run_clean (opened_clean hd ho).1

/-- In every sequence of calls that meet the condition, the receipt that a returned call leaves
matches its evidence; and a receipt just written matches exactly when it has no NaN, as it
has not when the log and the graph have none. -/
theorem receipt_matches_evidence (env : Env) (sha256 : EventsFile → String) :
    (∀ d₀ d : RunDir, ∀ cs c, d₀.Clean → AllSteps (RunDir.call env sha256) (RunDir.Kept env sha256) d₀ (cs ++ [c]) →
      exec (RunDir.call env sha256) d₀ (cs ++ [c]) = some d → c.returns = true → Matches env sha256 d) ∧
    ∀ d receipt, buildRunReceipt env sha256 d = .ok receipt →
      (verifyRunReceipt env sha256 (writeRunReceipt env sha256 d .done).2 = .ok [] ↔ ∀ key, (get receipt key).hasNan = false) ∧
      (d.Clean → verifyRunReceipt env sha256 (writeRunReceipt env sha256 d .done).2 = .ok []) := by
  refine ⟨fun d₀ d cs c hclean hkept h hreturns => ?_,fun d receipt hbuild => ?_⟩
  · obtain ⟨w,hw,hlast⟩ := Option.bind_eq_some_iff.mp ((exec_append _ _ _).symm.trans h)
    have hwclean : w.Clean := exec_invariant (fun _ _ _ => call_clean) hw hclean
    obtain ⟨d',hcall,hnil⟩ := exec_cons hlast
    cases hnil
    obtain ⟨o,ho,rfl⟩ := call_run hcall
    exact run_matches (opened_clean hwclean ho).1 ((hkept.drop hw).1 o ho) hreturns
  · have hwrite : (writeRunReceipt env sha256 d .done).2 = {d.repaired with receipt := some (.ok (canonFields receipt))} := by
      simp only [writeRunReceipt,hbuild]
    rw [hwrite]
    exact ⟨verify_written hbuild,fun hd => (verify_written hbuild).mpr (buildRunReceipt_finite hd hbuild).get⟩

end

def plainEnv : Env where
  lower s := s
  upper s := s
  str _ := ""
  repr _ := ""
  float n := some n
  redactText s := s

def lengthDigest (file : EventsFile) : String := toString file.lines.length

def unplanned : Call :=
  .settled [{type := .runStarted, time := "t1", data := [("run_id",.str "r1")]},
    {type := .runFinished, time := "t2", data := [("outcome",.str "BLOCKED"),("reason",.str "no planner")]}] none .done

theorem receipt_matches_evidence_unplanned : ∃ d, exec (RunDir.call plainEnv lengthDigest) {name := "r1"} [unplanned,unplanned] = some d ∧
    d.receipt ≠ none ∧ Matches plainEnv lengthDigest d := by
  obtain ⟨d,hd,hreceipt⟩ : ∃ d ∈ exec (RunDir.call plainEnv lengthDigest) {name := "r1"} [unplanned,unplanned],
      d.receipt.isSome = true := by
    decide +kernel
  refine ⟨d,hd,?_,?_⟩
  · intro h
    rw [h] at hreceipt
    cases hreceipt
  refine (receipt_matches_evidence plainEnv lengthDigest).1 {name := "r1"} d [unplanned] unplanned ⟨?_,?_⟩ (by decide +kernel) hd rfl
  · exact fun file hfile => by cases hfile
  · exact fun g hg => by cases hg

/-- A resume with other constraints is refused, and the receipt of the first call, which had
no problems, has one. -/
theorem refused_resume_leaves_mismatch :
    (∃ d ∈ exec (RunDir.call plainEnv lengthDigest) {name := "r1"} [unplanned],
      verifyRunReceipt plainEnv lengthDigest d = .ok []) ∧
    ∃ d ∈ exec (RunDir.call plainEnv lengthDigest) {name := "r1"} [unplanned,.refused "t3"], d.receipt.isSome = true ∧
      verifyRunReceipt plainEnv lengthDigest d =
        .ok ["events_digest mismatch: events.jsonl changed after receipt was written",
          "claimed_reason mismatch: stored receipt differs from recomputed evidence",
          "event_count mismatch: stored receipt differs from recomputed evidence",
          "finished_at mismatch: stored receipt differs from recomputed evidence",
          "reason mismatch: stored receipt differs from recomputed evidence"] := by
  decide +kernel

end Verdict.Evidence

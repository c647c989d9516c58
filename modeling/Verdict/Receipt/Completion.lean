import Verdict.Runtime.Conclusion
import Verdict.Receipt.RunReceipt

/-! # Completed runs and their receipts

When the runtime completes a run, does the receipt confirm it? The runtime judges each
node by its own barriers, the receipt one slot for all nodes, so a failed barrier that
the node overcame may stay in its slot. `Confirmable` lists what has to be the case.
-/
namespace Verdict.Receipt
open Verdict.Runtime Verdict.Run Verdict.Runtime.Driver
open Sys (init step)

def Produced (g : WorkGraph) (log : List Event) : Barrier → Prop
  | .integration => True
  | .ownership => ∃ m ∈ g.nodes, m.kind = .implement ∨ (¬ Worker m ∧ m.barrier = some .ownership)
  | .noChange => ∃ m ∈ g.nodes, (m.kind = .implement ∧ .barrier "no_change" true ∈ nodeLog m.nodeId log) ∨
      (¬ Worker m ∧ m.barrier = some .noChange)

structure Confirmable (g : WorkGraph) (log : List Event) : Prop where
  /-- No research node has the last word on ownership: it reports violations only. -/
  ownership : ∀ e ∈ lastBarrier "ownership" log, ∀ n ∈ g.nodes, n.nodeId = e.1 → n.kind ≠ .research
  verified : ∀ n ∈ g.nodes, n.kind = .integrate → n.verificationCommand ≠ []
  declared : ∀ n ∈ g.nodes, ∀ b ∈ n.barrier, Produced g log b
  /-- No driver crashed behind the validation of its node. -/
  uncrashed : ∀ n ∈ g.nodes, n.kind = .implement ∨ n.kind = .integrate →
    lastState (nodeLog n.nodeId log) ≠ some .blocked

instance (g : WorkGraph) (log : List Event) : DecidablePred (Produced g log)
  | .integration => isTrue trivial
  | .ownership => inferInstanceAs (Decidable (∃ m ∈ g.nodes, _ ∨ _))
  | .noChange => inferInstanceAs (Decidable (∃ m ∈ g.nodes, _ ∨ _))

instance (g : WorkGraph) (log : List Event) : Decidable (Confirmable g log) :=
  decidable_of_iff ((∀ e ∈ lastBarrier "ownership" log, ∀ n ∈ g.nodes, n.nodeId = e.1 → n.kind ≠ .research) ∧
      (∀ n ∈ g.nodes, n.kind = .integrate → n.verificationCommand ≠ []) ∧
      (∀ n ∈ g.nodes, ∀ b ∈ n.barrier, Produced g log b) ∧
      ∀ n ∈ g.nodes, n.kind = .implement ∨ n.kind = .integrate → lastState (nodeLog n.nodeId log) ≠ some .blocked)
    ⟨fun h => ⟨h.1,h.2.1,h.2.2.1,h.2.2.2⟩,fun h => ⟨h.ownership,h.verified,h.declared,h.uncrashed⟩⟩

theorem barrierName_injective : Function.Injective Barrier.name := by
  intro a b h
  cases a <;> cases b <;> first | rfl | exact absurd h (by decide)

theorem gateName_cases (n : WorkNode) : (Worker n ∧ gateName n = "ownership") ∨
    (¬ Worker n ∧ ∃ b : Barrier, gateName n = b.name ∧ (b = .integration ∨ n.barrier = some b)) := by
  by_cases hw : Worker n
  · exact .inl ⟨hw,if_pos hw⟩
  · refine .inr ⟨hw,?_⟩
    rw [gateName,if_neg hw,barrierName]
    cases hb : n.barrier with
    | none => exact ⟨.integration,rfl,.inl rfl⟩
    | some b => exact ⟨b,rfl,.inr rfl⟩

theorem gateName_ne (n : WorkNode) : gateName n ≠ "" := by
  rcases gateName_cases n with ⟨_,h⟩ | ⟨_,b,h,_⟩ <;> rw [h]
  · decide
  · cases b <;> decide

variable {n : WorkNode} {ok : Bool} {log : List Event}

theorem lastBarrier_gate (h : lastBarrier (gateName n) log = some (n.nodeId,ok)) : (track n (nodeLog n.nodeId log)).gate = some ok := by
  induction log using List.reverseRecOn with
  | nil => cases h
  | append_singleton log e ih =>
    obtain ⟨j,b⟩ := e
    rw [lastBarrier,barrierEvents_append] at h
    have hskip : barrierEvents (gateName n) [⟨j,b⟩] = [] → lastBarrier (gateName n) log = some (n.nodeId,ok) := by
      intro hnil
      rwa [hnil,List.append_nil] at h
    rw [nodeLog_append,track_append]
    by_cases hj : j = n.nodeId
    · subst hj
      have hown : nodeLog n.nodeId [⟨n.nodeId,b⟩] = [b] := by simp [nodeLog]
      rw [hown,Track.after_cons,Track.after_nil]
      cases b with
      | barrier k ok' =>
        by_cases hk : k = gateName n
        · subst hk
          have hok : ok' = ok := by simpa [barrierEvents] using h
          simp [Track.next,hok]
        · simpa [Track.next,hk] using ih (hskip (by simp [barrierEvents,hk]))
      | terminal ok' => cases ok' <;> exact ih (hskip rfl)
      | verify ok' => cases ok' <;> exact ih (hskip rfl)
      | _ => exact ih (hskip rfl)
    · have hother : nodeLog n.nodeId [⟨j,b⟩] = [] := by simp [nodeLog,hj]
      rw [hother,Track.after_nil]
      refine ih (hskip ?_)
      cases b with
      | barrier k ok' =>
        by_cases hk : k = gateName n
        · subst hk
          exact absurd (by simpa [barrierEvents] using h) fun h : j = n.nodeId ∧ ok' = ok => hj h.1
        · simp [barrierEvents,hk]
      | _ => rfl

theorem gate_emitted {log : List Body} (h : (track n log).gate = some ok) :
    .barrier (gateName n) ok ∈ log := by
  induction log using List.reverseRecOn with
  | nil => cases h
  | append_singleton log b ih =>
    rw [track_snoc] at h
    have hrest : (track n log).gate = some ok → .barrier (gateName n) ok ∈ log ++ [b] :=
      fun h => List.mem_append_left _ (ih h)
    cases b with
    | barrier k ok' =>
      simp only [Track.next] at h
      split at h
      · rename_i hk
        cases h
        exact List.mem_append_right _ (hk ▸ List.mem_singleton_self _)
      · exact hrest h
    | terminal ok' => cases ok' <;> exact hrest h
    | verify ok' => cases ok' <;> exact hrest h
    | _ => exact hrest h

variable {name i : String}

theorem lastBarrier_mem (h : lastBarrier name log = some (i,ok)) :
    ⟨i,.barrier name ok⟩ ∈ log := mem_barrierEvents.mp (List.mem_of_getLast? h)

theorem lastBarrier_ne_none (h : ⟨i,.barrier name ok⟩ ∈ log) : lastBarrier name log ≠ none := by
  rw [lastBarrier,ne_eq,List.getLast?_eq_none_iff]
  exact List.ne_nil_of_mem (mem_barrierEvents.mpr h)

section
variable {g : WorkGraph} {cfg : Config} {s : Sys} {as : List Act}
variable {i name : String} {ok : Bool}

theorem barrier_source (h : exec (step g cfg) (init g) as = some s) (hb : ⟨i,.barrier name ok⟩ ∈ s.log) :
    (i = "" ∧ name = "integration" ∧ ok = true) ∨ ∃ n ∈ g.nodes, n.nodeId = i ∧
    ((name = gateName n ∧ (n.kind = .research → ok = false)) ∨ (n.kind = .implement ∧ name = "no_change" ∧ ok = true))
    := by
  rcases reachable_sourced h _ hb with hi | ⟨hi,hrun⟩
  · obtain ⟨n,hn,rfl⟩ := List.mem_map.mp hi
    exact .inr ⟨n,hn,rfl,(reachable_conform h hn).barrier (mem_nodeLog.mpr hb)⟩
  · exact .inl ⟨hi,by simpa [Body.runLevel] using hrun⟩

theorem reachable_named (h : exec (step g cfg) (init g) as = some s) : Named s.log := by
  intro i ok hb
  rcases barrier_source h hb with ⟨_,hname,_⟩ | ⟨n,_,_,⟨hname,_⟩ | ⟨_,hname,_⟩⟩
  · exact absurd hname (by decide)
  · exact gateName_ne n hname.symm
  · exact absurd hname (by decide)

/-- What the theorems on completed runs share: every node was validated by the runtime. -/
def AllDone (g : WorkGraph) (log : List Event) : Prop :=
  ∀ n ∈ g.nodes, (track n (nodeLog n.nodeId log)).done = true

theorem lastBarrier_ok (h : exec (step g cfg) (init g) as = some s) (hdone : AllDone g s.log)
    (hlast : lastBarrier name s.log = some (i,ok)) :
    ok = true ∨ (name = "ownership" ∧ ∃ n ∈ g.nodes, n.nodeId = i ∧ n.kind = .research) := by
  rcases barrier_source h (lastBarrier_mem hlast) with ⟨_,_,hok⟩ | ⟨n,hn,rfl,⟨rfl,_⟩ | ⟨_,_,hok⟩⟩
  · exact .inl hok
  · by_cases hk : n.kind = .research
    · exact .inr ⟨if_pos (.inr hk),n,hn,rfl,hk⟩
    · have hgate := ((reachable_conform h hn).done (hdone n hn)).2.2 hk
      rw [lastBarrier_gate hlast] at hgate
      exact .inl (Option.some.inj hgate)
  · exact .inl hok

variable {n : WorkNode}

theorem ownership_of_ok (h : exec (step g cfg) (init g) as = some s)
    (hok : ∀ name i ok, lastBarrier name s.log = some (i,ok) → ok = true)
    (hlast : lastBarrier "ownership" s.log = some (i,ok)) (hn : n ∈ g.nodes) (hi : n.nodeId = i) :
    n.kind ≠ .research := by
  intro hk
  have htrue := hok _ _ _ hlast
  subst hi htrue
  rcases (reachable_conform h hn).barrier (mem_nodeLog.mpr (lastBarrier_mem hlast)) with ⟨_,hfalse⟩ | ⟨himpl,_⟩
  · cases hfalse hk
  · rw [hk] at himpl
    cases himpl

theorem recorded_iff_produced (h : exec (step g cfg) (init g) as = some s) (hdone : AllDone g s.log)
    (hmerged : lastBarrier "integration" s.log ≠ none)
    (hown : ∀ e ∈ lastBarrier "ownership" s.log, ∀ n ∈ g.nodes, n.nodeId = e.1 → n.kind ≠ .research)
    (b : Barrier) : lastBarrier b.name s.log ≠ none ↔ Produced g s.log b := by
  have hgate : ∀ m ∈ g.nodes, m.kind ≠ .research → lastBarrier (gateName m) s.log ≠ none := fun m hm hk =>
    lastBarrier_ne_none (mem_nodeLog.mp (gate_emitted (((reachable_conform h hm).done (hdone m hm)).2.2 hk)))
  have hmerge : ∀ m ∈ g.nodes, ¬ Worker m → m.barrier = some b → lastBarrier b.name s.log ≠ none := by
    intro m hm hw hb
    have hname : gateName m = b.name := by rw [gateName,if_neg hw,barrierName,hb]
    exact hname ▸ hgate m hm fun hk => hw (.inr hk)
  have hsource : lastBarrier b.name s.log ≠ none → ∃ i ok, lastBarrier b.name s.log = some (i,ok) := by
    intro hne
    obtain ⟨⟨i,ok⟩,hlast⟩ := Option.ne_none_iff_exists'.mp hne
    exact ⟨i,ok,hlast⟩
  cases b with
  | integration => exact ⟨fun _ => trivial,fun _ => hmerged⟩
  | ownership =>
    constructor
    · intro hne
      obtain ⟨i,ok,hlast⟩ := hsource hne
      rcases barrier_source h (lastBarrier_mem hlast) with ⟨_,hname,_⟩ | ⟨n,hn,hi,⟨hname,_⟩ | ⟨_,hname,_⟩⟩
      · exact absurd hname (by decide)
      · have hk := hown (i,ok) hlast n hn hi
        rcases gateName_cases n with ⟨hw,_⟩ | ⟨hw,b,hb,hdecl⟩
        · exact ⟨n,hn,.inl (hw.resolve_right hk)⟩
        · cases barrierName_injective (hname.trans hb)
          exact ⟨n,hn,.inr ⟨hw,hdecl.resolve_left (by simp)⟩⟩
      · exact absurd hname (by decide)
    · rintro ⟨m,hm,hk | ⟨hw,hb⟩⟩
      · have hname : gateName m = Barrier.ownership.name := if_pos (.inl hk)
        exact hname ▸ hgate m hm (by rw [hk]; decide)
      · exact hmerge m hm hw hb
  | noChange =>
    constructor
    · intro hne
      obtain ⟨i,ok,hlast⟩ := hsource hne
      have hmem := lastBarrier_mem hlast
      rcases barrier_source h hmem with ⟨_,hname,_⟩ | ⟨n,hn,rfl,⟨hname,_⟩ | ⟨hk,hname,hok⟩⟩
      · exact absurd hname (by decide)
      · rcases gateName_cases n with ⟨_,hb⟩ | ⟨hw,b,hb,hdecl⟩
        · exact absurd (hname.trans hb) (by decide)
        · cases barrierName_injective (hname.trans hb)
          exact ⟨n,hn,.inr ⟨hw,hdecl.resolve_left (by simp)⟩⟩
      · subst hok
        exact ⟨n,hn,.inl ⟨hk,mem_nodeLog.mpr hmem⟩⟩
    · rintro ⟨m,hm,⟨_,hmem⟩ | ⟨hw,hb⟩⟩
      · exact lastBarrier_ne_none (mem_nodeLog.mp hmem)
      · exact hmerge m hm hw hb

variable {log : List Event}

theorem done_finalState {maxAttempts : ℕ} (hconf : Conform n maxAttempts (nodeLog n.nodeId log))
    (hd : (track n (nodeLog n.nodeId log)).done = true) :
    (nodeRecord n (nodeEvents n.nodeId log)).finalState = .validated ↔ verifies n = true ∧ lastState
    (nodeLog n.nodeId log) ≠ some .blocked := by
  obtain ⟨hfresh,hclaimed,_⟩ := hconf.done hd
  rw [finalState_validated hconf,← track_fresh (n := n),hfresh,← track_claimed (n := n)]
  rcases hclaimed with hc | hc <;> simp [hc]

theorem accepted_receipt {routeId : String} (h : Accepted routeId log) : claimedOutcome log = some .complete
    ∧ reviewBlock log = ⟨some .pass,routeId,0⟩ ∧ lastBarrier "integration" log = some ("",true) := by
  obtain ⟨before,⟨pre,notes,rfl,hnotes⟩,rfl⟩ := h
  refine ⟨by simp [claimedOutcome],by simp [reviewBlock],?_⟩
  have hquiet : barrierEvents "integration" notes = [] := by
    refine List.filterMap_eq_nil_iff.mpr fun e he => ?_
    obtain ⟨type,rfl⟩ := hnotes e he
    rfl
  have hmerge : barrierEvents "integration" (⟨"",.barrier "integration" true⟩ :: notes) = [("",true)] := by
    rw [← List.singleton_append,barrierEvents_append,hquiet]
    rfl
  rw [lastBarrier,barrierEvents_append,barrierEvents_append,hmerge]
  simp [barrierEvents]

theorem completed_verdict (h : exec (step g cfg) (init g) as = some s)
    (hreview : cfg.policy.requireReview = true) (hfinished : s.phase = .finished .complete)
    (hwork : ∃ n ∈ g.nodes, n.kind = .implement ∨ n.kind = .integrate) :
    AllDone g s.log ∧ lastBarrier "integration" s.log ≠ none ∧
    ((buildRunReceipt g s.log).completionVerdict.1 = .complete ↔
      (∀ n ∈ g.nodes, n.kind = .implement ∨ n.kind = .integrate →
        verifies n = true ∧ lastState (nodeLog n.nodeId s.log) ≠ some .blocked) ∧
      (∀ n ∈ g.nodes, ∀ b, n.barrier = some b → lastBarrier b.name s.log ≠ none) ∧
      ∀ name i ok, lastBarrier name s.log = some (i,ok) → ok = true) := by
  have hconcluded := reachable_concluded h
  simp only [Concluded,hfinished] at hconcluded
  obtain ⟨hquiet,haccepted⟩ := hconcluded
  obtain ⟨routeId,haccepted,_⟩ := haccepted hreview
  obtain ⟨hclaimed,hblock,hmerged⟩ := accepted_receipt haccepted
  have hdone : AllDone g s.log := fun n hn => ((reachable_nodes h).1 n hn).link.done.mp (hquiet.validated n hn)
  have hnodes : (∀ node ∈ (buildRunReceipt g s.log).work, node.finalState = .validated) ↔
      ∀ n ∈ g.nodes, n.kind = .implement ∨ n.kind = .integrate →
        verifies n = true ∧ lastState (nodeLog n.nodeId s.log) ≠ some .blocked := by
    simp only [RunReceipt.work,buildRunReceipt,List.mem_filter,List.mem_map,decide_eq_true_eq]
    constructor
    · intro hall n hn hk
      exact (done_finalState (reachable_conform h hn) (hdone n hn)).mp (hall _ ⟨⟨n,hn,rfl⟩,hk⟩)
    · rintro hall _ ⟨⟨n,hn,rfl⟩,hk⟩
      exact (done_finalState (reachable_conform h hn) (hdone n hn)).mpr (hall n hn hk)
  have hsome : (buildRunReceipt g s.log).work ≠ [] := by
    obtain ⟨n,hn,hk⟩ := hwork
    exact List.ne_nil_of_mem (List.mem_filter.mpr ⟨List.mem_map_of_mem hn,decide_eq_true hk⟩)
  refine ⟨hdone,by simp [hmerged],?_⟩
  rw [RunReceipt.completionVerdict_complete,hnodes]
  simp only [buildRunReceipt] at hsome ⊢
  rw [hclaimed,hblock,integration_ok (reachable_named h)]
  constructor
  · rintro ⟨_,_,hvalid,⟨_,hdecl,hok⟩,_⟩
    exact ⟨hvalid,hdecl,hok⟩
  · rintro ⟨hvalid,hdecl,hok⟩
    exact ⟨by simp,hsome,hvalid,⟨⟨"integration",by simp [hmerged]⟩,hdecl,hok⟩,rfl,rfl⟩

theorem confirmable_completes (h : exec (step g cfg) (init g) as = some s)
    (hreview : cfg.policy.requireReview = true) (hfinished : s.phase = .finished .complete)
    (hwork : ∃ n ∈ g.nodes, n.kind = .implement ∨ n.kind = .integrate) (hc : Confirmable g s.log) :
    (buildRunReceipt g s.log).completionVerdict.1 = .complete := by
  obtain ⟨hdone,hmerged,hverdict⟩ := completed_verdict h hreview hfinished hwork
  refine hverdict.mpr ⟨fun n hn hk => ⟨?_,hc.uncrashed n hn hk⟩,fun n hn b hb => ?_,fun name i ok hlast => ?_⟩
  · rcases hk with hk | hk
    · simp [verifies,Worker,hk]
    · simp [verifies,hc.verified n hn hk]
  · exact (recorded_iff_produced h hdone hmerged hc.ownership b).mpr (hc.declared n hn b hb)
  · rcases lastBarrier_ok h hdone hlast with hok | ⟨rfl,n,hn,hi,hk⟩
    · exact hok
    · exact absurd hk (hc.ownership (i,ok) hlast n hn hi)

/-- The receipt confirms a run that the runtime completed with a review exactly when it is
confirmable. -/
theorem completion_iff_confirmable (h : exec (step g cfg) (init g) as = some s)
    (hreview : cfg.policy.requireReview = true) (hfinished : s.phase = .finished .complete)
    (hwork : ∃ n ∈ g.nodes, n.kind = .implement ∨ n.kind = .integrate) :
    (buildRunReceipt g s.log).completionVerdict.1 = .complete ↔ Confirmable g s.log := by
  refine ⟨fun hcomplete => ?_,confirmable_completes h hreview hfinished hwork⟩
  obtain ⟨hdone,hmerged,hverdict⟩ := completed_verdict h hreview hfinished hwork
  obtain ⟨hvalid,hdecl,hok⟩ := hverdict.mp hcomplete
  have hown : ∀ e ∈ lastBarrier "ownership" s.log, ∀ n ∈ g.nodes, n.nodeId = e.1 → n.kind ≠ .research :=
    fun e hlast n hn hi => ownership_of_ok h hok hlast hn hi
  refine ⟨hown,fun n hn hk => ?_,fun n hn b hb => ?_,fun n hn hk => (hvalid n hn hk).2⟩
  · simpa [verifies,Worker,hk] using (hvalid n hn (.inr hk)).1
  · exact (recorded_iff_produced h hdone hmerged hown b).mp (hdecl n hn b hb)

end

theorem completion_iff_confirmable_solo : ∃ s, exec (step soloGraph {}) (init soloGraph)
    (sendAlpha "glm" ++ sealAlpha "c1" ++ [.live (.wake false)] ++ acceptRun "opus") = some s ∧
    (buildRunReceipt soloGraph s.log).completionVerdict.1 = .complete := by
  obtain ⟨s,hs,hphase,hconfirmable⟩ : ∃ s ∈ exec (step soloGraph {}) (init soloGraph)
      (sendAlpha "glm" ++ sealAlpha "c1" ++ [.live (.wake false)] ++ acceptRun "opus"),
      s.phase = .finished .complete ∧ Confirmable soloGraph s.log := by
    decide +kernel
  exact ⟨s,hs,(completion_iff_confirmable hs rfl hphase ⟨alpha,by decide,by decide⟩).mpr hconfirmable⟩

def rho : WorkNode where
  nodeId := "rho"
  objective := "survey"
  kind := .research
  ownedNormal := WorkNode.normal_nil
  contextNormal := WorkNode.normal_nil

def surveyGraph : WorkGraph where
  nodes := [alpha,rho]
  parallel := WorkGraph.parallel_default

/-- `rho` leaves a file in its first attempt, which violates ownership, and none in the second. -/
def surveyRho : List Act :=
  let none : FailureClassification := ⟨.other "unknown",.reroute,0,.none⟩
  [.live (.drive "rho" .started),.live (.drive "rho" (.route "kimi" false)),.live (.drive "rho" (.slot false)),
    .live (.drive "rho" (.prepared false true .matched)),.live (.drive "rho" (.executed true true none)),
    .live (.drive "rho" (.changed ["notes.md"] ⟨.ownershipViolation,.rehydrate,0,.none⟩)),
    .live (.drive "rho" (.salvaged false)),.live (.drive "rho" (.removed true)),
    .live (.drive "rho" (.route "gpt" false)),.live (.drive "rho" (.slot false)),
    .live (.drive "rho" (.prepared false true .matched)),.live (.drive "rho" (.executed true true none)),
    .live (.drive "rho" (.changed [] none)),.live (.drive "rho" (.committed "c2")),
    .live (.drive "rho" (.removed true))]

/-- The runtime completes the run; the receipt is blocked by the violation that `rho` overcame. -/
theorem overcome_violation_blocks : ∃ s ∈ exec (step surveyGraph {}) (init surveyGraph)
      (sendAlpha "glm" ++ sealAlpha "c1" ++ surveyRho ++ [.live (.wake false)] ++ acceptRun "opus"),
    s.phase = .finished .complete ∧ (∀ n ∈ surveyGraph.nodes, (s.cells n.nodeId).run.state = .validated) ∧
      (buildRunReceipt surveyGraph s.log).completionVerdict = (.blocked,"integration barrier failed: ownership") := by
  decide +kernel

end Verdict.Receipt

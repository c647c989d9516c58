import Verdict.Runtime.Conclusion

/-! # Reviewer independence

`_conclude` excludes from the review the bound route of each node and the routes of its history. A
route that was sent work is missing there when its attempt ended without a history row and the
node was bound again, which takes a crash of the driver and an operator's retry, or when the
controller died: a new life restores the routes of validated nodes only. `Careful` excludes these
two steps.
-/
namespace Verdict.Runtime
open Driver Run
open Sys (init step)

def Known (g : WorkGraph) (s : Sys) (r : String) : Prop :=
  ∃ m ∈ g.nodes, (s.cells m.nodeId).run.state = .validated ∧ (s.cells m.nodeId).run.routeId = r

instance (g : WorkGraph) (s : Sys) (r : String) : Decidable (Known g s r) :=
  inferInstanceAs (Decidable (∃ m ∈ g.nodes, _))

def Covered (g : WorkGraph) (log : List Event) : Prop :=
  ∀ n ∈ g.nodes, ∀ r ∈ dispatchedRoutes (nodeLog n.nodeId log),
    ∃ m ∈ g.nodes, (priorValidated (nodeLog m.nodeId log)).map Prod.snd = some r

instance (g : WorkGraph) (log : List Event) : Decidable (Covered g log) :=
  inferInstanceAs (Decidable (∀ n ∈ g.nodes, _))

def OnRecord (g : WorkGraph) (s : Sys) (n : WorkNode) : Prop :=
  ∀ r ∈ dispatchedRoutes (nodeLog n.nodeId s.log), r ∈ (s.cells n.nodeId).run.historyRoutes ∨ Known g s r

instance (g : WorkGraph) (s : Sys) (n : WorkNode) : Decidable (OnRecord g s n) :=
  inferInstanceAs (Decidable (∀ r ∈ dispatchedRoutes _, _))

def Careful (g : WorkGraph) (cfg : Config) (s : Sys) : Act → Prop
  | .restart during _ => ∀ cut ∈ s.cutLog g cfg during, Covered g cut
  | .live (.control req) => req.kind = .retryNode → ∀ n ∈ g.nodes, req.nodeId = some n.nodeId →
      (s.cells n.nodeId).retriable cfg → OnRecord g s n
  | .live _ => True

instance (g : WorkGraph) (cfg : Config) (s : Sys) : DecidablePred (Careful g cfg s)
  | .restart during _ => inferInstanceAs (Decidable (∀ cut ∈ s.cutLog g cfg during, Covered g cut))
  | .live (.control req) => inferInstanceAs (Decidable (req.kind = .retryNode → ∀ n ∈ g.nodes, _))
  | .live (.wake _) | .live .launch | .live (.drive _ _) | .live (.raised _ _ _) | .live (.cancelled _)
  | .live .drained | .live (.merged _) | .live (.reviewed _) => isTrue trivial

def passing : Act → Option String
  | .live (.reviewed r) => if r.passed then some r.routeId else none
  | _ => none

/-- The reviewer honours `exclude_routes`. -/
def Honours (g : WorkGraph) (s : Sys) (a : Act) : Prop := ∀ r ∈ passing a, r ∉ s.implementers g

instance (g : WorkGraph) (s : Sys) : DecidablePred (Honours g s) := fun a =>
  inferInstanceAs (Decidable (∀ r ∈ passing a, _))

section
variable {S : String → Prop} {g : WorkGraph} {cfg : Config} {n : WorkNode} {s t : Sys} {c : Cell} {bodies : List Body}

theorem At.leaving {maxAttempts : ℕ} {run : NodeRun} {tr : Track} {pc : Pc} (h : At S n maxAttempts run tr pc)
    (hv : run.state = .validated) : pc = .leaving := by
  have hopen : ∀ state, state ≠ .validated → ¬ Open state run := fun _ hne ho => ho.notValidated hne hv
  have hsucceeded : ¬ Succeeded run tr := by
    intro hs
    have hstate := hs.1
    rw [hv] at hstate
    cases hstate
  cases pc with
  | leaving => rfl
  | start => exact absurd h.1 (hopen _ (by decide))
  | top | cooldown | select | bindProof | slot | prepare => exact absurd h.2.1 (hopen _ (by decide))
  | commitPermit | execute | checkEpoch | mergeBase => exact absurd h.2 (hopen _ (by decide))
  | validate => exact absurd h.2 hsucceeded
  | mergeRemove base failed =>
    cases failed with
    | none => exact absurd h.2.1 hsucceeded
    | some reason => exact absurd h.2 hsucceeded
  | verify | gates | commit | «seal» | mergeWorktree | mergeVerify | mergeGates => exact absurd h.2.1 hsucceeded
  | failing | settling | infraSleep => rcases h.2.1 with hs | hs <;> rw [hv] at hs <;> cases hs

theorem script_leaving {u : Task} {run : NodeRun} {reply : Reply} {effs : List Eff} {u' : Task}
    (hpc : u.pc = .leaving) (h : script cfg n u run reply = some (effs,u')) : effs = [] := by
  obtain ⟨⟨effs',u''⟩,hseg,hres⟩ := Option.map_eq_some_iff.mp h
  rw [hpc] at hseg
  cases reply with
  | removed gone =>
    cases hseg
    simp only [ret,hpc] at hres
    cases hres
    rfl
  | _ => cases hseg

theorem CellStep.route {R stop : Prop} {log : List Body} (hinv : NodeInv S cfg n (s.cells n.nodeId) log)
    (h : CellStep cfg R stop s n c bodies) (hv : (s.cells n.nodeId).run.state = .validated) :
    c.run.routeId = (s.cells n.nodeId).run.routeId := by
  have hleaving : ∀ u, (s.cells n.nodeId).task = some u → u.status = .running → u.pc = .leaving := by
    intro u hu hrun
    have hat := hinv.task u hu
    simp only [TaskInv,hrun] at hat
    exact hat.leaving hv
  cases h with
  | spawn => rfl
  | drive h =>
    simp only [Cell.drive] at h
    split at h
    · cases h
    · rename_i u hu
      split at h
      · cases h
      · rename_i hrun
        obtain ⟨⟨effs,u'⟩,hseg,hres⟩ := Option.map_eq_some_iff.mp h
        cases hres
        rw [script_leaving (hleaving u hu (not_not.mp hrun)) hseg]
        rfl
  | raised h =>
    simp only [Cell.raised] at h
    split at h
    · cases h
    · rename_i u hu
      split at h
      · cases h
      · rename_i hrun
        split at h
        · cases h
          rfl
        · obtain ⟨⟨effs,u'⟩,hseg,hres⟩ := Option.map_eq_some_iff.mp h
          cases hres
          rw [script_leaving (hleaving u hu (not_not.mp hrun)) hseg,List.take_nil]
          rfl
  | cancelled h =>
    obtain ⟨_,_,_,_,hrun,_⟩ := cancelled_cases h
    rw [hrun]
  | reap =>
    simp only [Cell.reap]
    split
    · rfl
    · split <;> rfl
  | cancelTask => rfl
  | cancelRun => simp [Cell.cancelRun,Cell.cancelTask,hv]
  | cancelNode => simp [Cell.cancelNode,hv]
  | retry =>
    simp only [Cell.retryNode]
    split <;> rfl
  | block => rfl

theorem Known.put {R stop : Prop} {r : String} (h : Known g s r) (hnodes : Nodes g cfg S s) (hn : n ∈ g.nodes)
    (hstep : CellStep cfg R stop s n c bodies) : Known g (s.put n.nodeId c bodies) r := by
  obtain ⟨m,hm,hv,hroute⟩ := h
  refine ⟨m,hm,?_⟩
  by_cases hid : m.nodeId = n.nodeId
  · rw [hid] at hv hroute
    rw [hid,put_cells_self]
    exact ⟨hstep.validated hv,(hstep.route (hnodes n hn) hv).trans hroute⟩
  · rw [put_cells_ne hid]
    exact ⟨hv,hroute⟩

theorem onRecord_recorded (h : OnRecord g s n) : RetryRecorded (Known g s) s n := by
  intro r hr
  rw [track_routes,List.mem_reverse] at hr
  exact h r hr

theorem move_known {stop : Prop} (h : Nodes g cfg (Known g s) s) (hm : Move g cfg (OnRecord g) stop s t) :
    Nodes g cfg (Known g t) t := by
  cases hm with
  | cell hn hstep =>
    have hmove := Move.cell (R := RetryRecorded (Known g s)) hn (hstep.mono onRecord_recorded)
    exact fun m hm => (move_nodes h hmove m hm).mono fun r hr => hr.put h hn hstep
  | say hb =>
    have hmove : Move g cfg (RetryRecorded (Known g s)) stop s (s.say _) := .say hb
    exact move_nodes h hmove
  | phase p => exact h

theorem boot_known {log : List Event}
    (hconf : ∀ n ∈ g.nodes, Conform n cfg.policy.maxAttemptsPerNode (nodeLog n.nodeId log)) (hcovered : Covered g log) :
    Nodes g cfg (Known g (Sys.boot g log)) (Sys.boot g log) := by
  refine boot_nodes hconf fun n hn r hr => ?_
  obtain ⟨m,hm,hr⟩ := hcovered n hn r hr
  obtain ⟨⟨commit,routeId⟩,hprior,rfl⟩ := Option.map_eq_some_iff.mp hr
  exact ⟨m,hm,by simp [Sys.boot,Cell.boot,hprior]⟩

structure IndependenceInv (g : WorkGraph) (cfg : Config) (s : Sys) : Prop where
  nodes : Nodes g cfg (Known g s) s
  tidy : Tidy g s
  concluded : Concluded g cfg (fun r implementers => r ∉ implementers) s

theorem step_independence {a : Act} (h : IndependenceInv g cfg s) (hok : Careful g cfg s a ∧ Honours g s a)
    (hstep : s.step g cfg a = some t) : IndependenceInv g cfg t := by
  obtain ⟨hcareful,hhonours⟩ := hok
  have hall : Nodes g cfg (fun _ => True) s ∧ Tidy g s := ⟨fun n hn => (h.nodes n hn).mono fun _ _ => trivial,h.tidy⟩
  refine ⟨?_,(step_nodes hall hstep).2,step_concluded h.concluded (fun r ha hp => ?_) hstep⟩
  · cases a with
    | live a =>
      have hretry : ∀ req, a = .control req → ∀ n ∈ g.nodes, req.kind = .retryNode → req.nodeId = some n.nodeId →
          (s.cells n.nodeId).retriable cfg → OnRecord g s n := by
        rintro req rfl n hn hkind hid hr
        exact hcareful hkind n hn hid hr
      exact moves_invariant (P := fun t => Nodes g cfg (Known g t) t) (fun _ _ => move_known)
        (liveStep_moves h.tidy hretry (fun _ _ => trivial) hstep) h.nodes
    | restart during reports =>
      -- the new life starts from a prefix of a log that followed the protocol
      obtain ⟨cut,hcut,rfl⟩ := step_restart hstep
      refine boot_known (cut_conform hall.1 hall.2 hcut reports) fun n hn r hr => ?_
      rw [nodeLog_reports n.nodeId_ne] at hr
      obtain ⟨m,hm,hr⟩ := hcareful cut hcut n hn r hr
      exact ⟨m,hm,by rw [nodeLog_reports m.nodeId_ne]; exact hr⟩
  · subst ha
    exact hhonours r.routeId (by simp [passing,hp])

theorem init_independence : IndependenceInv g cfg (init g) :=
  ⟨boot_known (fun _ _ => trivial) (by simp [Covered,nodeLog,dispatchedRoutes]),boot_tidy [],trivial⟩

theorem dispatched_implementers (h : Nodes g cfg (Known g s) s) (hsrc : Sourced g s.log)
    {i r : String} {attempt : ℕ} (hd : ⟨i,.dispatch r attempt⟩ ∈ s.log) : r ∈ s.implementers g := by
  rcases hsrc _ hd with hi | ⟨_,hrun⟩
  · obtain ⟨n,hn,rfl⟩ := List.mem_map.mp hi
    have hr : r ∈ dispatchedRoutes (nodeLog n.nodeId s.log) :=
      List.mem_filterMap.mpr ⟨_,mem_nodeLog.mpr hd,rfl⟩
    have hne := (h n hn).conform.dispatched hr
    refine List.mem_filter.mpr ⟨List.mem_flatMap.mpr ?_,decide_eq_true hne⟩
    rcases (h n hn).link.routes r (by rw [track_routes,List.mem_reverse]; exact hr) with hbound | hrow | ⟨m,hm,_,hroute⟩
    · exact ⟨n,hn,hbound ▸ List.mem_cons_self⟩
    · exact ⟨n,hn,List.mem_cons_of_mem _ hrow⟩
    · exact ⟨m,hm,hroute ▸ List.mem_cons_self⟩
  · cases hrun

/-- In every run whose controllers die, and whose retries are accepted, only while no
dispatched route is lost, the reviewer is given every route that was ever sent work, and
the accepted review is by none of them. -/
theorem reviewer_independence {as : List Act} (hcareful : AllSteps (step g cfg) (Careful g cfg) (init g) as)
    (hreviewer : AllSteps (step g cfg) (Honours g) (init g) as)
    (h : exec (step g cfg) (init g) as = some s) :
    (∀ i r attempt, ⟨i,.dispatch r attempt⟩ ∈ s.log → r ∈ s.implementers g) ∧
    (cfg.policy.requireReview = true → s.phase = .finished .complete →
      ∃ routeId, Accepted routeId s.log ∧ ∀ i attempt, ⟨i,.dispatch routeId attempt⟩ ∉ s.log) := by
  have hinv := exec_invariant_of (I := IndependenceInv g cfg) (fun _ _ _ => step_independence)
    (hcareful.and hreviewer) h init_independence
  have hroutes : ∀ i r attempt, ⟨i,.dispatch r attempt⟩ ∈ s.log → r ∈ s.implementers g :=
    fun _ _ _ hd => dispatched_implementers hinv.nodes (reachable_sourced h) hd
  refine ⟨hroutes,fun hreview hphase => ?_⟩
  have hconcluded := hinv.concluded
  simp only [Concluded,hphase] at hconcluded
  obtain ⟨routeId,haccepted,hnot⟩ := hconcluded.2 hreview
  exact ⟨routeId,haccepted,fun i attempt hd => hnot (hroutes i routeId attempt hd)⟩

end

/-- The controller dies behind the validation of `alpha`; the second life still knows its route. -/
theorem reviewer_independence_restored : ∃ s, exec (step soloGraph {}) (init soloGraph)
    (sendAlpha "glm" ++ sealAlpha "c1" ++ [.restart none] ++ acceptRun "opus") = some s ∧ s.phase =
    .finished .complete ∧ ∃ routeId, Accepted routeId s.log ∧ ∀ i attempt, ⟨i,.dispatch routeId attempt⟩ ∉
    s.log := by
  obtain ⟨s,hs,hphase⟩ : ∃ s ∈ exec (step soloGraph {}) (init soloGraph)
      (sendAlpha "glm" ++ sealAlpha "c1" ++ [.restart none] ++ acceptRun "opus"), s.phase = .finished .complete := by
    decide +kernel
  exact ⟨s,hs,hphase,(reviewer_independence (by decide +kernel) (by decide +kernel) hs).2 rfl hphase⟩

/-- The controller dies while the first attempt of `alpha` is running; the work is then
reviewed by the route that attempt was sent to. -/
theorem lost_implementer_reviews :
    AllSteps (step soloGraph {}) (Honours soloGraph) (init soloGraph)
      (sendAlpha "glm" ++ [.restart none] ++ sendAlpha "kimi" ++ sealAlpha "c1" ++ [.live (.wake false)] ++ acceptRun "glm") ∧
    ∃ s ∈ exec (step soloGraph {}) (init soloGraph)
        (sendAlpha "glm" ++ [.restart none] ++ sendAlpha "kimi" ++ sealAlpha "c1" ++ [.live (.wake false)] ++ acceptRun "glm"),
      s.phase = .finished .complete ∧ ⟨"alpha",.dispatch "glm" 1⟩ ∈ s.log ∧ ⟨"",.review .pass "glm" 0⟩ ∈ s.log := by
  decide +kernel

end Verdict.Runtime

import Verdict.Runtime.Attempts
import Verdict.Runtime.Dependencies

/-! # Settlement

The loop is left only when no task is pending. At that point block propagation has reached
its fixed point and nothing was ready, so by induction along the dependencies every node
is validated or blocked.
-/
namespace Verdict.Runtime
open Driver Controls Run
open Sys (blockOne init liveStep propagateBlocks spawnOne step sweep)

/-- A driver leaves the cancellation request of its task alone, and ends it only by
returning. -/
def Keeps (t t' : Task) : Prop :=
  t'.cancelRequested = t.cancelRequested ∧ (t'.status = t.status ∨ t'.status = .returned)

section
variable {cfg : Config} {n : WorkNode} {t t' : Task} {run : NodeRun} {effs : List Eff}

theorem keeps_goto (pc : Pc) : Keeps t (goto t pc) := ⟨rfl,.inl rfl⟩

theorem keeps_ret : Keeps t (ret t) := ⟨rfl,.inr rfl⟩

theorem keeps_loopHead : Keeps t (loopHead cfg t run).2 := by
  simp only [loopHead]
  split
  · exact keeps_ret
  · exact keeps_goto _

theorem keeps_revoked (routeId : String) : Keeps t (revoked cfg t routeId).2 := by
  simp only [revoked]
  split
  · exact ⟨rfl,.inr rfl⟩
  · exact ⟨rfl,.inl rfl⟩

theorem keeps_prepared (restored fits : Bool) (origin : Origin) :
    Keeps t (prepared cfg n t run restored fits origin).2 := by
  simp only [prepared]
  cases origin <;> repeat' split
  all_goals exact keeps_goto _

theorem keeps_executed (ok usable : Bool) (failure : FailureClassification) :
    Keeps t (executed cfg t run ok usable failure).2 := by
  simp only [executed]
  repeat' split
  all_goals exact keeps_goto _

theorem keeps_verifying (changed : Bool) : Keeps t (verifying n t changed).2 := by
  simp only [verifying]
  split <;> exact keeps_goto _

theorem keeps_validated (files : List String) (failure : FailureClassification) :
    Keeps t (validated cfg n t run files failure).2 := by
  simp only [validated]
  split
  · split
    · exact keeps_goto _
    · exact keeps_verifying _
  · split
    · exact keeps_goto _
    · exact keeps_verifying _

theorem keeps_settle : Keeps t (settle cfg t run).2 := by
  simp only [settle]
  repeat' split
  all_goals first | exact keeps_goto _ | exact keeps_ret

theorem keeps_mergeRemoved (base : String) (failed : Option String) :
    Keeps t (mergeRemoved cfg t run base failed).2 := by
  cases failed <;> exact keeps_ret

variable {reply : Reply}

theorem keeps_segment {pc : Pc} {seg : Segment}
    (h : Driver.segment cfg n t run pc reply = some seg) : Keeps t seg.2 := by
  unfold Driver.segment at h
  split at h
  all_goals
    repeat' split at h
    all_goals
      cases h <;> first
      | exact keeps_goto _
      | exact keeps_ret
      | exact keeps_revoked _
      | exact keeps_prepared _ _ _
      | exact keeps_executed _ _ _
      | exact keeps_validated _ _
      | exact keeps_settle
      | exact keeps_mergeRemoved _ _
      | exact keeps_leave
      | exact ⟨rfl,.inl rfl⟩

theorem keeps_script (h : script cfg n t run reply = some (effs,t')) : Keeps t t' := by
  simp only [script,Option.map_eq_some_iff] at h
  obtain ⟨seg,hseg,hres⟩ := h
  have hkeeps := keeps_segment hseg
  split at hres
  · rename_i htop
    cases hres
    obtain ⟨hflag,hstatus⟩ : Keeps seg.2 (loopHead cfg seg.2 (perform run seg.1).run).2 := keeps_loopHead
    refine ⟨hflag.trans hkeeps.1,hstatus.imp_left fun h => h.trans ?_⟩
    rcases hkeeps.2 with h | h
    · exact h
    · rw [htop.2] at h
      cases h
  · cases hres
    exact hkeeps

end

/-- While the loop runs, a node without a task is at rest, and only `cancel_node` asks a
task to stop. -/
structure CellOk (c : Cell) : Prop where
  rest : c.task = none → c.run.state = .planned ∨ c.run.state = .blocked ∨ c.run.state = .validated
  asked : ∀ t, c.task = some t → t.cancelRequested = true → c.run.state = .blocked
  stopped : ∀ t, c.task = some t → t.status = .cancelled → t.cancelRequested = true

section
variable {g : WorkGraph} {cfg : Config} {R : Sys → WorkNode → Prop} {s t : Sys} {n : WorkNode}
  {c : Cell} {bodies : List Body}

theorem perform_blocked {run : NodeRun} (effs : List Eff) (h : run.state = .blocked) :
    (perform run effs).run.state = .blocked := by
  rw [perform_final effs (by rw [h]; rfl),h]

theorem cancelNode_ok (h : CellOk c) : CellOk c.cancelNode.1 := by
  have hblocked : ∀ reason, CellOk (c.cancelTask.block reason).1 := by
    intro reason
    refine ⟨fun _ => .inr (.inl rfl),fun _ _ _ => rfl,fun t ht hst => ?_⟩
    obtain ⟨t',_,rfl⟩ := Option.map_eq_some_iff.mp ht
    rfl
  simp only [Cell.cancelNode]
  cases c.run.state <;> first | exact hblocked _ | exact h

theorem retryNode_ok (h : CellOk c) (hended : ∀ t, c.task = some t → t.status = .running) :
    CellOk (c.retryNode cfg).1 := by
  simp only [Cell.retryNode]
  split
  · rename_i hretry
    have hnone : c.task = none := by
      cases ht : c.task with
      | none => rfl
      | some t =>
        have hactive := hretry.2.1
        simp [Cell.active,ht,hended t ht] at hactive
    exact ⟨fun _ => .inl rfl,by simp [hnone],by simp [hnone]⟩
  · exact h

variable {log : List Body}

theorem reap_ok {S : String → Prop} (h : CellOk c) (hinv : NodeInv S cfg n c log) :
    CellOk c.reap.1 := by
  simp only [Cell.reap]
  split
  · exact h
  · rename_i t ht
    split
    · exact h
    · rename_i hstatus
      have hret := hinv.task t ht
      simp only [TaskInv,hstatus] at hret
      exact ⟨fun _ => .inr hret,by simp,by simp⟩
    · rename_i hstatus
      exact ⟨fun _ => .inr (.inl (h.asked t ht (h.stopped t ht hstatus))),by simp,by simp⟩
    · refine ⟨fun _ => ?_,by simp,by simp⟩
      simp only
      split
      · rename_i hfinal
        exact .inr hfinal.symm
      · exact .inr (.inl rfl)

theorem CellStep.ok {R : Prop} {S : String → Prop} (hstep : CellStep cfg R False s n c bodies)
    (hinv : NodeInv S cfg n (s.cells n.nodeId) log) (h : CellOk (s.cells n.nodeId)) : CellOk c := by
  cases hstep with
  | spawn =>
    refine ⟨by simp,fun t ht hc => ?_,fun t ht hst => ?_⟩
    · cases ht
      cases hc
    · cases ht
      cases hst
  | drive hd =>
    obtain ⟨t,effs,ht,hrunning,hrun,t',ht',hcase⟩ := drive_cases hd
    obtain ⟨hflag,hstatus⟩ : t'.cancelRequested = t.cancelRequested ∧ t'.status ≠ .cancelled := by
      rcases hcase with hscript | ⟨text,rfl⟩
      · obtain ⟨hflag,hstatus⟩ := keeps_script hscript
        refine ⟨hflag,?_⟩
        rcases hstatus with hst | hst <;> simp [hst,hrunning]
      · exact ⟨rfl,by simp⟩
    refine ⟨by simp [ht'],fun u hu hc => ?_,fun u hu hst => ?_⟩
    · rw [ht'] at hu
      cases hu
      rw [hrun]
      exact perform_blocked effs (h.asked t ht (hflag ▸ hc))
    · rw [ht'] at hu
      cases hu
      exact absurd hst hstatus
  | raised hr =>
    obtain ⟨t,effs,ht,_,hrun,ht'⟩ := raised_cases hr
    refine ⟨by simp [ht'],fun u hu hc => ?_,fun u hu hst => ?_⟩
    · rw [ht'] at hu
      cases hu
      rw [hrun]
      exact perform_blocked effs (h.asked t ht hc)
    · rw [ht'] at hu
      cases hu
      cases hst
  | cancelled hc =>
    obtain ⟨t,ht,_,hflag,hrun,_,ht'⟩ := cancelled_cases hc
    refine ⟨by simp [ht'],fun u hu hc => ?_,fun u hu _ => ?_⟩
    · rw [hrun]
      exact h.asked t ht hflag
    · rw [ht'] at hu
      cases hu
      exact hflag
  | reap => exact reap_ok h hinv
  | cancelTask hstop => exact hstop.elim
  | cancelRun hstop => exact hstop.elim
  | cancelNode => exact cancelNode_ok h
  | retry hended => exact retryNode_ok h hended
  | block => exact ⟨fun _ => .inr (.inl rfl),fun _ _ _ => rfl,h.stopped⟩

def Phase.looping (p : Phase) : Prop := p = .idle ∨ p = .polling

def CellsOk (g : WorkGraph) (s : Sys) : Prop := ∀ n ∈ g.nodes, CellOk (s.cells n.nodeId)

theorem move_cellsOk (h : Nodes g cfg (fun _ => True) s ∧ CellsOk g s)
    (hm : Move g cfg (RetryRecorded fun _ => True) False s t) : Nodes g cfg (fun _ => True) t ∧ CellsOk g t := by
  obtain ⟨hnodes,hok⟩ := h
  refine ⟨move_nodes hnodes hm,?_⟩
  cases hm with
  | cell hn hstep =>
    rename_i n c bodies
    intro m hm
    by_cases hid : m.nodeId = n.nodeId
    · have hmn : m = n := List.inj_on_of_nodup_map g.nodup hm hn hid
      subst hmn
      rw [put_cells_self]
      exact hstep.ok (hnodes m hm) (hok m hm)
    · rw [put_cells_ne hid]
      exact hok m hm
  | say | phase => exact hok

variable {a : Live}

theorem liveStep_looping (h : s.liveStep g cfg a = some t) (ht : t.phase.looping) : s.phase.looping := by
  cases a with
  | wake =>
    simp only [liveStep] at h
    split at h
    · cases h
    · exact .inl (not_not.mp ‹_›)
  | control | launch =>
    simp only [liveStep] at h
    split at h
    · exact .inr ‹_›
    · cases h
  | drive =>
    simp only [liveStep] at h
    split at h
    · cases h
    · rwa [driven_samePhase h] at ht
  | raised | cancelled =>
    simp only [liveStep] at h
    rwa [driven_samePhase h] at ht
  | drained =>
    simp only [liveStep] at h
    split at h
    · cases h
      rcases ht with ht | ht <;> cases ht
    · cases h
  | merged =>
    simp only [liveStep] at h
    split at h
    · cases h
      simp only [Sys.integrated] at ht
      repeat' split at ht
      all_goals rcases ht with ht | ht <;> cases ht
    · cases h
  | reviewed =>
    simp only [liveStep] at h
    split at h
    · cases h
      simp only [Sys.reviewed] at ht
      repeat' split at ht
      all_goals rcases ht with ht | ht <;> cases ht
    · cases h

theorem liveStep_cellsOk (hnodes : Nodes g cfg (fun _ => True) s) (htidy : Tidy g s)
    (hok : s.phase.looping → CellsOk g s) (h : s.liveStep g cfg a = some t) : t.phase.looping → CellsOk g t := by
  intro ht
  have hstop : t.phase ≠ .idle → t.phase ≠ .polling → False := fun hi hp => ht.elim hi hp
  exact (moves_invariant (fun _ _ => move_cellsOk) (liveStep_moves htidy
    (fun _ _ _ _ _ _ _ _ _ => .inr trivial) hstop h) ⟨hnodes,hok (liveStep_looping h ht)⟩).2

theorem boot_cellsOk (log : List Event) : CellsOk g (Sys.boot g log) := by
  intro n _
  simp only [Sys.boot,Cell.boot]
  split
  · exact ⟨fun _ => .inr (.inr rfl),by simp,by simp⟩
  · exact ⟨fun _ => .inl rfl,by simp,by simp⟩

theorem reachable_cellsOk {as : List Act} (h : exec (step g cfg) (init g) as = some s) :
    s.phase.looping → CellsOk g s := by
  refine (exec_invariant (I := fun s => (Nodes g cfg (fun _ => True) s ∧ Tidy g s) ∧ (s.phase.looping → CellsOk g s))
    (fun s a t hi hstep => ⟨step_nodes hi.1 hstep,?_⟩) h ⟨init_nodes,fun _ => boot_cellsOk []⟩).2
  cases a with
  | live a => exact liveStep_cellsOk hi.1.1 hi.1.2 hi.2 hstep
  | restart during reports =>
    obtain ⟨cut,_,rfl⟩ := step_restart hstep
    exact fun _ => boot_cellsOk _

/-! ### The fixed point of block propagation -/

def plannedNodes (g : WorkGraph) (s : Sys) : List WorkNode :=
  g.nodes.filter fun n => decide ((s.cells n.nodeId).run.state = .planned)

theorem blockOne_state (m : WorkNode) (i : String) :
    let t := s.put m.nodeId (blockOne s m).1 (blockOne s m).2
    ((t.cells i).run.state = (s.cells i).run.state ∨ (t.cells i).run.state = .blocked) ∧
      ((t.cells i).run.state = .planned → ¬ (i = m.nodeId ∧ s.blockable m)) := by
  intro t
  by_cases hi : i = m.nodeId
  · subst hi
    simp only [t,put_cells_self,blockOne]
    split
    · exact ⟨.inr rfl,fun h => by cases h⟩
    · rename_i hb
      exact ⟨.inl rfl,fun _ h => hb h.2⟩
  · simp only [t,put_cells_ne hi]
    exact ⟨.inl trivial,fun _ h => hi h.1⟩

variable (nodes : List WorkNode)

theorem sweep_blockOne :
    (∀ i, ((sweep blockOne s nodes).cells i).run.state = (s.cells i).run.state ∨
      ((sweep blockOne s nodes).cells i).run.state = .blocked) ∧
    ∀ n ∈ nodes, s.blockable n → ((sweep blockOne s nodes).cells n.nodeId).run.state ≠ .planned := by
  induction nodes generalizing s with
  | nil => exact ⟨fun _ => .inl rfl,by simp⟩
  | cons m nodes ih =>
    obtain ⟨hkeep,htake⟩ := ih (s := s.put m.nodeId (blockOne s m).1 (blockOne s m).2)
    have hstate := fun i => (blockOne_state (s := s) m i).1
    refine ⟨fun i => ?_,fun n hn hb => ?_⟩
    · rcases hkeep i with h | h
      · rcases hstate i with h' | h'
        · exact .inl (h.trans h')
        · exact .inr (h.trans h')
      · exact .inr h
    · intro hp
      by_cases hnow : ((s.put m.nodeId (blockOne s m).1 (blockOne s m).2).cells n.nodeId).run.state = .planned
      · rcases List.mem_cons.mp hn with rfl | hn
        · exact (blockOne_state (s := s) n n.nodeId).2 hnow ⟨rfl,hb⟩
        · -- still planned, and its blocked dependencies are still blocked
          refine htake n hn ⟨hnow,?_⟩ hp
          obtain ⟨d,hd⟩ := List.exists_mem_of_ne_nil _ hb.2
          obtain ⟨hdep,hdb⟩ := List.mem_filter.mp hd
          refine List.ne_nil_of_mem (a := d) (List.mem_filter.mpr ⟨hdep,?_⟩)
          rcases hstate d with h | h <;> simp_all
      · rcases hkeep n.nodeId with h | h
        · exact hnow (h ▸ hp)
        · exact absurd (hp.symm.trans h) (by decide)

variable {fuel : ℕ}

theorem propagateBlocks_fixed (hfuel : (plannedNodes g s).length ≤ fuel) :
    ∀ n ∈ g.nodes, ¬ (propagateBlocks g fuel s).blockable n := by
  induction fuel generalizing s with
  | zero =>
    intro n hn hb
    have hnil := List.length_eq_zero_iff.mp (Nat.le_zero.mp hfuel)
    exact List.ne_nil_of_mem (List.mem_filter.mpr ⟨hn,decide_eq_true hb.1⟩) hnil
  | succ fuel ih =>
    simp only [propagateBlocks]
    split
    · rename_i hex
      obtain ⟨n,hn,hb⟩ := hex
      obtain ⟨hkeep,htake⟩ := sweep_blockOne (s := s) g.nodes
      refine ih (Nat.le_of_lt_succ (lt_of_lt_of_le ?_ hfuel))
      have hsub : plannedNodes g (sweep blockOne s g.nodes) = (plannedNodes g s).filter
          (fun m => decide (((sweep blockOne s g.nodes).cells m.nodeId).run.state = .planned)) := by
        simp only [plannedNodes,List.filter_filter]
        refine List.filter_congr fun m _ => ?_
        rcases hkeep m.nodeId with h | h <;> simp [h]
      rw [hsub,List.length_filter_lt_length_iff_exists]
      exact ⟨n,List.mem_filter.mpr ⟨hn,decide_eq_true hb.1⟩,by simpa using htake n hn hb⟩
    · rename_i hnone
      exact fun n hn hb => hnone ⟨n,hn,hb⟩

/-! ### Leaving the loop -/

theorem spawnOne_state (m : WorkNode) (i : String) :
    ((s.put m.nodeId (spawnOne s m).1 (spawnOne s m).2).cells i).run = (s.cells i).run := by
  by_cases hi : i = m.nodeId
  · subst hi
    rw [put_cells_self]
    simp only [spawnOne]
    split <;> rfl
  · rw [put_cells_ne hi]

theorem sweep_spawnOne_run (i : String) :
    ((sweep spawnOne s nodes).cells i).run = (s.cells i).run :=
  sweep_invariant (P := fun t => (t.cells i).run = (s.cells i).run)
    (fun _ m _ ht => (spawnOne_state m i).trans ht) rfl

theorem ready_congr {u : Sys} (h : ∀ i, (u.cells i).run = (s.cells i).run) : u.ready n ↔ s.ready n := by
  simp only [Sys.ready,h]

theorem sweep_spawnOne_task {i : String} (h : (s.cells i).task ≠ none) :
    ((sweep spawnOne s nodes).cells i).task ≠ none := by
  refine sweep_invariant (P := fun t => (t.cells i).task ≠ none) (fun t m _ ht => ?_) h
  by_cases hi : i = m.nodeId
  · subst hi
    rw [put_cells_self]
    simp only [spawnOne]
    split
    · simp
    · exact ht
  · rw [put_cells_ne hi]
    exact ht

theorem sweep_spawnOne_ready {nodes : List WorkNode} : ∀ n ∈ nodes, s.ready n →
    ((sweep spawnOne s nodes).cells n.nodeId).task ≠ none := by
  induction nodes generalizing s with
  | nil => simp
  | cons m nodes ih =>
    intro n hn hready
    rcases List.mem_cons.mp hn with rfl | hn
    · refine sweep_spawnOne_task nodes ?_
      rw [put_cells_self]
      simp only [spawnOne]
      split
      · simp
      · rename_i hnot
        exact fun hnone => hnot ⟨hready,hnone⟩
    · exact ih n hn ((ready_congr fun i => spawnOne_state m i).mpr hready)

theorem propagateBlocks_cellsOk (h : CellsOk g s) : CellsOk g (propagateBlocks g fuel s) := by
  induction fuel generalizing s with
  | zero => exact h
  | succ fuel ih =>
    simp only [propagateBlocks]
    split
    · refine ih (sweep_invariant (P := CellsOk g) (fun t m _ ht => ?_) h)
      intro k hk
      by_cases hi : k.nodeId = m.nodeId
      · have hok := ht k hk
        rw [hi] at hok ⊢
        rw [put_cells_self]
        simp only [blockOne]
        split
        · exact ⟨fun _ => .inr (.inl rfl),fun _ _ _ => rfl,hok.stopped⟩
        · exact hok
      · rw [put_cells_ne hi]
        exact ht k hk
    · exact h

theorem launch_settled (hok : CellsOk g s) (hexit : (s.launch g).phase ≠ .idle) : ∀ n ∈ g.nodes,
    ((s.launch g).cells n.nodeId).run.state = .validated ∨ ((s.launch g).cells n.nodeId).run.state =
    .blocked := by
  let p := propagateBlocks g g.nodes.length s
  have hp : CellsOk g p := propagateBlocks_cellsOk hok
  have hfixed : ∀ n ∈ g.nodes, ¬ p.blockable n := propagateBlocks_fixed (List.length_filter_le _ _)
  have hrun : ∀ i, ((s.launch g).cells i).run = (p.cells i).run := by
    intro i
    refine Eq.trans ?_ (sweep_spawnOne_run (s := p) g.nodes i)
    simp only [Sys.launch]
    repeat' split
    all_goals rfl
  -- the loop is left only without tasks
  have hnone : ∀ n ∈ g.nodes, ((sweep spawnOne p g.nodes).cells n.nodeId).task = none := by
    intro n hn
    by_contra hne
    exact hexit (by simp only [Sys.launch]; rw [if_pos ⟨n,hn,hne⟩])
  have hidle : ∀ n ∈ g.nodes, (p.cells n.nodeId).task = none := by
    intro n hn
    by_contra hne
    exact sweep_spawnOne_task g.nodes hne (hnone n hn)
  have hall := g.induction (P := fun i => (p.cells i).run.state = .validated ∨ (p.cells i).run.state = .blocked)
    (fun i hi hdeps => by
      obtain ⟨n,hn,rfl⟩ := List.mem_map.mp hi
      have hdeps : ∀ d ∈ n.dependsOn, (p.cells d).run.state = .validated ∨ (p.cells d).run.state = .blocked :=
        fun d hd => hdeps d (by rw [WorkGraph.DependsOn,g.dependsOf_of_mem hn]; exact hd)
      rcases (hp n hn).rest (hidle n hn) with hplanned | hblocked | hvalid
      · exfalso
        by_cases hblk : ∃ d ∈ n.dependsOn, (p.cells d).run.state = .blocked
        · obtain ⟨d,hd,hb⟩ := hblk
          exact hfixed n hn ⟨hplanned,List.ne_nil_of_mem (List.mem_filter.mpr ⟨hd,decide_eq_true hb⟩)⟩
        · refine sweep_spawnOne_ready n hn ⟨hplanned,fun d hd => ?_⟩ (hnone n hn)
          exact (hdeps d hd).resolve_right fun hb => hblk ⟨d,hd,hb⟩
      · exact .inr hblocked
      · exact .inl hvalid)
  intro n hn
  rw [hrun]
  exact hall n.nodeId (List.mem_map_of_mem hn)

/-- In every reachable state a node past admission has all its ancestors validated, and a
normal exit of the loop leaves every node validated or blocked. -/
theorem dependency_barrier {as : List Act} (h : exec (step g cfg) (init g) as = some s) :
    (∀ n ∈ g.nodes, (s.cells n.nodeId).run.state.started = true →
      ∀ a ∈ WorkGraph.ancestors g.nodes n.nodeId, (s.cells a).run.state = .validated) ∧
    ∀ u, s.liveStep g cfg .launch = some u → u.phase ≠ .idle →
      ∀ n ∈ g.nodes, (u.cells n.nodeId).run.state = .validated ∨ (u.cells n.nodeId).run.state = .blocked := by
  refine ⟨fun n hn => (reachable_barrier h).1.held.ancestors hn,fun u hu hexit => ?_⟩
  simp only [liveStep] at hu
  split at hu
  · rename_i hpoll
    cases hu
    exact launch_settled (reachable_cellsOk h (.inr hpoll)) hexit
  · cases hu

end

def beta : WorkNode where
  nodeId := "beta"
  objective := "write b.py"
  dependsOn := ["alpha"]
  ownedFiles := ["b.py"]
  verificationCommand := ["pytest"]
  contextNormal := WorkNode.normal_nil
  implementVerifies := WorkNode.verifies_pytest

def chainGraph : WorkGraph where
  nodes := [alpha,beta]
  parallel := WorkGraph.parallel_default

/-- The sent attempt of `alpha` succeeds, verifies and is committed. -/
def sealAlpha (sha : String) : List Act :=
  [.live (.drive "alpha" (.executed true true ⟨.other "unknown",.reroute,0,.none⟩)),
    .live (.drive "alpha" (.changed ["a.py"] ⟨.other "unknown",.reroute,0,.none⟩)),
    .live (.drive "alpha" (.ran true ⟨.other "unknown",.reroute,0,.none⟩ "")),
    .live (.drive "alpha" (.gated true ⟨.other "unknown",.reroute,0,.none⟩ "")),
    .live (.drive "alpha" (.committed sha)),.live (.drive "alpha" (.removed true))]

/-- `beta` is started only behind the validated `alpha`. -/
theorem dependency_barrier_chain :
    ∃ s, exec (step chainGraph {}) (init chainGraph) (sendAlpha "glm" ++ sealAlpha "c1" ++
        [.live (.wake false),.live .launch,.live (.drive "beta" .started),
          .live (.drive "beta" (.route "kimi" false)),.live (.drive "beta" (.slot false))]) = some s ∧
      (s.cells "beta").run.state = .admitted ∧
      ∀ a ∈ WorkGraph.ancestors chainGraph.nodes "beta", (s.cells a).run.state = .validated := by
  obtain ⟨s,hs,hstate⟩ : ∃ s ∈ exec (step chainGraph {}) (init chainGraph) (sendAlpha "glm" ++ sealAlpha "c1" ++
        [.live (.wake false),.live .launch,.live (.drive "beta" .started),
          .live (.drive "beta" (.route "kimi" false)),.live (.drive "beta" (.slot false))]),
      (s.cells "beta").run.state = .admitted := by
    decide +kernel
  refine ⟨s,hs,hstate,(dependency_barrier hs).1 beta (by decide) ?_⟩
  rw [show beta.nodeId = "beta" from rfl,hstate]
  rfl

end Verdict.Runtime

import Verdict.Runtime.Reachable

/-! # What a step of a life does to one node

The loop sweeps over all nodes, and a driver step moves one of them. `Touch` lists what a
step can do to a node, with the action that does it: the cell after the step and the data of
the events the step appended for the node.
-/
namespace Verdict.Runtime
open Driver Controls
open Sys (blockOne liveStep propagateBlocks reapOne say spawnOne sweep)

inductive Touch (cfg : Config) (n : WorkNode) (c : Cell) : Live → Cell → List Body → Prop
  | kept {a : Live} : Touch cfg n c a c []
  | reaped : Touch cfg n c (.wake false) c.reap.1 c.reap.2
  | abandoned : Touch cfg n c (.wake true) c.reap.1.cancelTask c.reap.2
  | cancelRun {req : ControlRequest} (hkind : req.kind = .cancelRun) :
      Touch cfg n c (.control req) c.cancelRun.1 c.cancelRun.2
  | cancelNode {req : ControlRequest} (hkind : req.kind = .cancelNode) (hid : req.nodeId = some n.nodeId) :
      Touch cfg n c (.control req) c.cancelNode.1 c.cancelNode.2
  | retryNode {req : ControlRequest} (hkind : req.kind = .retryNode) (hid : req.nodeId = some n.nodeId) :
      Touch cfg n c (.control req) (c.retryNode cfg).1 (c.retryNode cfg).2
  | blocked {reason : String} (hplanned : c.run.state = .planned) :
      Touch cfg n c .launch (c.block reason).1 (c.block reason).2
  | spawned (hplanned : c.run.state = .planned) (hnone : c.task = none) :
      Touch cfg n c .launch {c with task := some {}} []
  | drive {reply : Reply} {c' : Cell} {bodies : List Body} (h : c.drive cfg n reply = some (c',bodies)) :
      Touch cfg n c (.drive n.nodeId reply) c' bodies
  | raised {during : Option (Reply × ℕ)} {text : String} {c' : Cell} {bodies : List Body}
      (h : c.raised cfg n during text = some (c',bodies)) : Touch cfg n c (.raised n.nodeId during text) c' bodies
  | cancelled {c' : Cell} {bodies : List Body} (h : c.cancelled = some (c',bodies)) :
      Touch cfg n c (.cancelled n.nodeId) c' bodies

section
variable {g : WorkGraph} {cfg : Config} {s t : Sys} {n : WorkNode}

theorem sweep_node {f : Sys → WorkNode → Cell × List Body} {nodes : List WorkNode}
    (hnodup : (WorkGraph.nodeIds nodes).Nodup) (hn : n ∈ nodes) : ∃ s' : Sys, s'.cells n.nodeId = s.cells
    n.nodeId ∧ (sweep f s nodes).cells n.nodeId = (f s' n).1 ∧ nodeLog n.nodeId (sweep f s nodes).log =
    nodeLog n.nodeId s.log ++ (f s' n).2 := by
  induction nodes generalizing s with
  | nil => cases hn
  | cons m nodes ih =>
    obtain ⟨hm,hnodup⟩ := List.nodup_cons.mp hnodup
    have hsweep : sweep f s (m :: nodes) = sweep f (s.put m.nodeId (f s m).1 (f s m).2) nodes := rfl
    rw [hsweep]
    rcases List.mem_cons.mp hn with rfl | hn
    · -- the rest of the sweep is about other nodes
      refine ⟨s,rfl,?_⟩
      refine sweep_invariant (P := fun t => t.cells n.nodeId = (f s n).1 ∧
        nodeLog n.nodeId t.log = nodeLog n.nodeId s.log ++ (f s n).2) (fun t k hk ht => ?_) ?_
      · have hne : n.nodeId ≠ k.nodeId := fun he => hm (he ▸ List.mem_map_of_mem hk)
        rw [put_cells_ne hne,nodeLog_put_ne hne]
        exact ht
      · rw [put_cells_self,nodeLog_put_self]
        exact ⟨rfl,rfl⟩
    · have hne : n.nodeId ≠ m.nodeId := fun he => hm (he ▸ List.mem_map_of_mem hn)
      obtain ⟨s',hs',hcell,hlog⟩ := ih (s := s.put m.nodeId (f s m).1 (f s m).2) hnodup hn
      rw [put_cells_ne hne] at hs'
      rw [nodeLog_put_ne hne] at hlog
      exact ⟨s',hs',hcell,hlog⟩

/-- Block propagation leaves a node alone or blocks it once, from `PLANNED`. -/
theorem propagateBlocks_node (fuel : ℕ) (hn : n ∈ g.nodes) :
    ((propagateBlocks g fuel s).cells n.nodeId = s.cells n.nodeId ∧
      nodeLog n.nodeId (propagateBlocks g fuel s).log = nodeLog n.nodeId s.log) ∨
    ((s.cells n.nodeId).run.state = .planned ∧ ∃ reason,
      (propagateBlocks g fuel s).cells n.nodeId = ((s.cells n.nodeId).block reason).1 ∧
      nodeLog n.nodeId (propagateBlocks g fuel s).log
        = nodeLog n.nodeId s.log ++ ((s.cells n.nodeId).block reason).2) := by
  induction fuel generalizing s with
  | zero => exact .inl ⟨rfl,rfl⟩
  | succ fuel ih =>
    simp only [propagateBlocks]
    split
    · obtain ⟨s',hs',hcell,hlog⟩ := sweep_node (f := blockOne) (s := s) g.nodup hn
      simp only [blockOne] at hcell hlog
      split at hcell
      · -- blocked in this pass; later passes look at planned nodes only
        rename_i hblockable
        rw [if_pos hblockable] at hlog
        have hplanned : (s.cells n.nodeId).run.state = .planned := hs' ▸ hblockable.1
        rcases ih (s := sweep blockOne s g.nodes) with ⟨hkeep,hkeepLog⟩ | ⟨hp,_⟩
        · rw [hs'] at hcell hlog
          exact .inr ⟨hplanned,_,hkeep.trans hcell,hkeepLog.trans hlog⟩
        · rw [hcell] at hp
          cases hp
      · rename_i hblockable
        rw [if_neg hblockable,List.append_nil] at hlog
        have hsame : (sweep blockOne s g.nodes).cells n.nodeId = s.cells n.nodeId := by rw [hcell,hs']
        have hrest := ih (s := sweep blockOne s g.nodes)
        rw [hsame,hlog] at hrest
        exact hrest
    · exact .inl ⟨rfl,rfl⟩

theorem launch_cells : (s.launch g).cells
    = (sweep spawnOne (propagateBlocks g g.nodes.length s) g.nodes).cells := by
  simp only [Sys.launch]
  repeat' split
  all_goals rfl

theorem launch_touch (hn : n ∈ g.nodes) : ∃ bodies, nodeLog n.nodeId (s.launch g).log = nodeLog n.nodeId
    s.log ++ bodies ∧ Touch cfg n (s.cells n.nodeId) .launch ((s.launch g).cells n.nodeId) bodies := by
  have hend : nodeLog n.nodeId (s.launch g).log
      = nodeLog n.nodeId (sweep spawnOne (propagateBlocks g g.nodes.length s) g.nodes).log := by
    simp only [Sys.launch]
    split
    · rfl
    · split
      · rfl
      · exact nodeLog_say n.nodeId_ne _
  obtain ⟨s',hs',hcell,hlog⟩ := sweep_node (f := spawnOne) (s := propagateBlocks g g.nodes.length s) g.nodup hn
  rw [launch_cells,hend,hcell,hlog]
  simp only [spawnOne]
  rcases propagateBlocks_node (s := s) g.nodes.length hn with ⟨hkeep,hkeepLog⟩ | ⟨hplanned,reason,hblock,hblockLog⟩
  · rw [hkeepLog]
    have hcells := hs'.trans hkeep
    split
    · rename_i hready
      have hstate := hready.1.1
      rw [hcells] at hready hstate ⊢
      exact ⟨[],rfl,.spawned hstate hready.2⟩
    · rw [hcells]
      exact ⟨[],rfl,.kept⟩
  · rw [hblockLog,List.append_assoc]
    have hcells := hs'.trans hblock
    split
    · rename_i hready
      have hstate := hready.1.1
      rw [hcells] at hstate
      cases hstate
    · rw [hcells]
      exact ⟨_,rfl,by simpa using .blocked hplanned⟩

variable {i : String} {a : Live}

theorem put_touch {c : Cell} {bodies : List Body}
    (h : n.nodeId = i → Touch cfg n (s.cells n.nodeId) a c bodies) : ∃ bodies', nodeLog n.nodeId
    (s.put i c bodies).log = nodeLog n.nodeId s.log ++ bodies' ∧ Touch cfg n (s.cells n.nodeId) a
    ((s.put i c bodies).cells n.nodeId) bodies' := by
  by_cases hid : n.nodeId = i
  · have ht := h hid
    subst hid
    rw [put_cells_self,nodeLog_put_self]
    exact ⟨bodies,rfl,ht⟩
  · rw [put_cells_ne hid,nodeLog_put_ne hid]
    exact ⟨[],by simp,.kept⟩

theorem driven_touch {f : WorkNode → Cell → Option (Cell × List Body)} (hn : n ∈ g.nodes)
    (hf : n.nodeId = i → ∀ c bodies, f n (s.cells n.nodeId) = some (c,bodies) →
      Touch cfg n (s.cells n.nodeId) a c bodies) (h : s.driven g i f = some t) : ∃ bodies,
    nodeLog n.nodeId t.log = nodeLog n.nodeId s.log ++ bodies ∧
      Touch cfg n (s.cells n.nodeId) a (t.cells n.nodeId) bodies := by
  simp only [Sys.driven] at h
  split at h
  · cases h
  · obtain ⟨m,hm,h⟩ := Option.bind_eq_some_iff.mp h
    obtain ⟨⟨c,bodies⟩,hc,rfl⟩ := Option.map_eq_some_iff.mp h
    obtain ⟨hmem,rfl⟩ := WorkGraph.node?_some hm
    refine put_touch fun hid => ?_
    have hnm : n = m := List.inj_on_of_nodup_map g.nodup hn hmem hid
    subst hnm
    exact hf rfl c bodies hc

theorem handle_touch {req : ControlRequest} (hn : n ∈ g.nodes) : ∃ bodies, nodeLog n.nodeId
    (s.handle g cfg req).log = nodeLog n.nodeId s.log ++ bodies ∧ Touch cfg n (s.cells n.nodeId)
    (.control req) ((s.handle g cfg req).cells n.nodeId) bodies := by
  have hsaid : ∀ bodies, ∃ bodies', nodeLog n.nodeId (s.say bodies).log = nodeLog n.nodeId s.log ++ bodies' ∧
      Touch cfg n (s.cells n.nodeId) (.control req) ((s.say bodies).cells n.nodeId) bodies' := by
    intro bodies
    rw [nodeLog_say n.nodeId_ne]
    exact ⟨[],by simp,.kept⟩
  -- a request without a node id is about the empty id, which no node has
  have hgetD : n.nodeId = req.nodeId.getD "" → req.nodeId = some n.nodeId := by
    intro hid
    cases hreq : req.nodeId with
    | none =>
      rw [hreq] at hid
      exact absurd hid n.nodeId_ne
    | some i =>
      rw [hreq] at hid
      rw [hid]
      rfl
  simp only [Sys.handle]
  split
  · rename_i hkind
    obtain ⟨s',hs',hcell,hlog⟩ := sweep_node (f := Sys.cancelRunOne) (s := s) g.nodup hn
    simp only [Sys.cancelRunOne,hs'] at hcell hlog
    refine ⟨_,(nodeLog_say n.nodeId_ne _).trans hlog,?_⟩
    simp only [say,hcell]
    exact .cancelRun hkind
  · rename_i hkind
    split
    · exact hsaid _
    · refine put_touch (fun hid => ?_)
      have hreq := hgetD hid
      rw [hreq]
      exact .cancelNode hkind hreq
  · rename_i hkind
    split
    · exact hsaid _
    · refine put_touch (fun hid => ?_)
      have hreq := hgetD hid
      rw [hreq]
      exact .retryNode hkind hreq

theorem liveStep_touch (h : s.liveStep g cfg a = some t) (hn : n ∈ g.nodes) : ∃ bodies, nodeLog
    n.nodeId t.log = nodeLog n.nodeId s.log ++ bodies ∧ Touch cfg n (s.cells n.nodeId) a (t.cells n.nodeId)
    bodies := by
  have hquiet : ∀ {u : Sys}, u.cells = s.cells → nodeLog n.nodeId u.log = nodeLog n.nodeId s.log → ∃ bodies,
      nodeLog n.nodeId u.log = nodeLog n.nodeId s.log ++ bodies ∧
        Touch cfg n (s.cells n.nodeId) a (u.cells n.nodeId) bodies := by
    intro u hcells hlog
    rw [hcells,hlog]
    exact ⟨[],by simp,.kept⟩
  cases a with
  | wake deadline =>
    simp only [liveStep] at h
    split at h
    · cases h
    · cases h
      obtain ⟨s',hs',hcell,hlog⟩ := sweep_node (f := reapOne) (s := s) g.nodup hn
      simp only [reapOne,hs'] at hcell hlog
      cases deadline with
      | false =>
        refine ⟨_,hlog,?_⟩
        simp only [Bool.false_eq_true,if_false,hcell]
        exact .reaped
      | true =>
        obtain ⟨u,hu,hcell',hlog'⟩ :=
          sweep_node (f := Sys.cancelOne) (s := sweep reapOne s g.nodes) g.nodup hn
        simp only [Sys.cancelOne,hu,hcell,List.append_nil] at hcell' hlog'
        refine ⟨_,((nodeLog_say n.nodeId_ne _).trans hlog').trans hlog,?_⟩
        simp only [if_true,Sys.finish,say,hcell']
        exact .abandoned
  | control req =>
    simp only [liveStep] at h
    split at h
    · cases h
      exact handle_touch hn
    · cases h
  | launch =>
    simp only [liveStep] at h
    split at h
    · cases h
      exact launch_touch hn
    · cases h
  | drive i reply =>
    simp only [liveStep] at h
    split at h
    · cases h
    · refine driven_touch hn (fun hid c bodies hc => ?_) h
      subst hid
      exact .drive hc
  | raised i during text =>
    simp only [liveStep] at h
    refine driven_touch hn (fun hid c bodies hc => ?_) h
    subst hid
    exact .raised hc
  | cancelled i =>
    simp only [liveStep] at h
    refine driven_touch hn (fun hid c bodies hc => ?_) h
    subst hid
    exact .cancelled hc
  | drained =>
    simp only [liveStep] at h
    split at h
    · cases h
      exact hquiet rfl (nodeLog_say n.nodeId_ne _)
    · cases h
  | merged ref =>
    simp only [liveStep] at h
    split at h
    · cases h
      simp only [Sys.integrated]
      split
      · exact hquiet rfl ((nodeLog_say n.nodeId_ne _).trans (nodeLog_say n.nodeId_ne _))
      · split
        · exact hquiet rfl ((nodeLog_say n.nodeId_ne _).trans (nodeLog_say n.nodeId_ne _))
        · exact hquiet rfl (nodeLog_say n.nodeId_ne _)
    · cases h
  | reviewed r =>
    simp only [liveStep] at h
    split at h
    · cases h
      simp only [Sys.reviewed]
      split
      · exact hquiet rfl (nodeLog_say n.nodeId_ne _)
      · have hsay : nodeLog n.nodeId ((s.say [.note .controller]).say (List.replicate r.attempts (.note .reviewAttempt)
            ++ [.review r.status r.routeId r.blocking])).log = nodeLog n.nodeId s.log :=
          (nodeLog_say n.nodeId_ne _).trans (nodeLog_say n.nodeId_ne _)
        split <;> exact hquiet rfl ((nodeLog_say n.nodeId_ne _).trans hsay)
    · cases h

end
end Verdict.Runtime

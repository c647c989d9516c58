import Verdict.Runtime.Settlement
import Verdict.Runtime.Transitions

/-! # Retries and the blocks behind them

A retry reopens one node. The nodes that `_propagate_blocks` blocked because of it have no
failure of their own, so no retry reopens them, and `_ready` only looks at planned nodes. A
retry that is handled before the block has spread leaves its dependents planned.
-/
namespace Verdict.Runtime
open Driver Controls Run
open Sys (blockOne liveStep propagateBlocks)

def Prompt (g : WorkGraph) (cfg : Config) (s : Sys) : Live → Prop
  | .control req => req.kind = .retryNode → ∀ n ∈ g.nodes, req.nodeId = some n.nodeId →
      (s.cells n.nodeId).retriable cfg → (s.cells n.nodeId).run.state = .blocked →
      ∀ m ∈ g.nodes, n.nodeId ∈ m.dependsOn → (s.cells m.nodeId).run.state ≠ .blocked
  | _ => True

instance (g : WorkGraph) (cfg : Config) (s : Sys) (a : Live) : Decidable (Prompt g cfg s a) := by
  cases a <;> unfold Prompt <;> infer_instance

def DrivenBehind (g : WorkGraph) (s : Sys) : Prop :=
  ∀ n ∈ g.nodes, (s.cells n.nodeId).task ≠ none ∨ (s.cells n.nodeId).run.failures ≠ [] →
    ∀ d ∈ n.dependsOn, (s.cells d).run.state = .validated

section
variable {g : WorkGraph} {cfg : Config} {s t u : Sys} {n m : WorkNode} {c : Cell} {bodies : List Body} {R stop : Prop}

theorem CellStep.driven (h : CellStep cfg R stop s n c bodies) (hc : c.task ≠ none ∨ c.run.failures ≠ []) :
    s.ready n ∨ (s.cells n.nodeId).task ≠ none ∨ (s.cells n.nodeId).run.failures ≠ [] := by
  cases h with
  | spawn hready => exact .inl hready
  | drive h =>
    obtain ⟨t,_,ht,_⟩ := drive_cases h
    exact .inr (.inl (by simp [ht]))
  | raised h =>
    obtain ⟨t,_,ht,_⟩ := raised_cases h
    exact .inr (.inl (by simp [ht]))
  | cancelled h =>
    obtain ⟨t,ht,_⟩ := cancelled_cases h
    exact .inr (.inl (by simp [ht]))
  | reap =>
    simp only [Cell.reap] at hc
    split at hc
    · exact .inr hc
    · rename_i t ht
      exact .inr (.inl (by simp [ht]))
  | cancelTask => exact .inr (by simpa [Cell.cancelTask] using hc)
  | cancelRun =>
    refine .inr ?_
    simp only [Cell.cancelRun] at hc
    cases hs : (s.cells n.nodeId).run.state <;> simpa [Cell.cancelTask,Cell.block,hs] using hc
  | cancelNode =>
    refine .inr ?_
    simp only [Cell.cancelNode] at hc
    cases hs : (s.cells n.nodeId).run.state <;> simpa [Cell.cancelTask,Cell.block,hs] using hc
  | retry =>
    refine .inr ?_
    simp only [Cell.retryNode] at hc
    split at hc <;> exact hc
  | block => exact .inr hc

theorem move_drivenBehind {R : Sys → WorkNode → Prop} (h : DrivenBehind g s) (hm : Move g cfg R stop s t) :
    DrivenBehind g t := by
  cases hm with
  | cell hn hstep =>
    rename_i n c bodies
    -- a validated dependency stays validated
    have hkeep : ∀ d, (s.cells d).run.state = .validated →
        ((s.put n.nodeId c bodies).cells d).run.state = .validated := by
      intro d hd
      by_cases hdn : d = n.nodeId
      · subst hdn
        rw [put_cells_self]
        exact hstep.validated hd
      · rw [put_cells_ne hdn]
        exact hd
    intro m hm hdriven d hd
    by_cases hid : m.nodeId = n.nodeId
    · have hmn : m = n := List.inj_on_of_nodup_map g.nodup hm hn hid
      subst hmn
      rw [put_cells_self] at hdriven
      rcases hstep.driven hdriven with hready | hold
      · exact hkeep d (hready.2 d hd)
      · exact hkeep d (h m hm hold d hd)
    · rw [put_cells_ne hid] at hdriven
      exact hkeep d (h m hm hdriven d hd)
  | say | phase => exact h

theorem boot_drivenBehind (past : List Event) : DrivenBehind g (Sys.boot g past) := by
  intro n _ hdriven
  simp only [Sys.boot,Cell.boot] at hdriven
  split at hdriven <;> simp at hdriven

/-! ### What keeps a propagated block in place -/

theorem propagateBlocks_invariant {P : Sys → Prop}
    (hblock : ∀ r, ∀ k ∈ g.nodes, P r → P (r.put k.nodeId (blockOne r k).1 (blockOne r k).2))
    (fuel : ℕ) (hs : P s) : P (propagateBlocks g fuel s) := by
  induction fuel generalizing s with
  | zero => exact hs
  | succ fuel ih =>
    simp only [propagateBlocks]
    split
    · exact ih (sweep_invariant hblock hs)
    · exact hs

theorem propagateBlocks_pins (fuel : ℕ) (hm : m ∈ g.nodes) (hplanned : (s.cells m.nodeId).run.state = .planned)
    (hb : ((propagateBlocks g fuel s).cells m.nodeId).run.state = .blocked) :
    ∃ d ∈ m.dependsOn, ((propagateBlocks g fuel s).cells d).run.state = .blocked := by
  refine propagateBlocks_invariant (P := fun r => (r.cells m.nodeId).run.state = .blocked →
    ∃ d ∈ m.dependsOn, (r.cells d).run.state = .blocked) (fun r k hk hr hb => ?_) fuel (fun h => ?_) hb
  · -- blocking `k` unblocks nobody
    have hkeep : ∀ d, (r.cells d).run.state = .blocked →
        ((r.put k.nodeId (blockOne r k).1 (blockOne r k).2).cells d).run.state = .blocked := by
      intro d hd
      rcases (blockOne_state (s := r) k d).1 with h | h
      · exact h.trans hd
      · exact h
    by_cases hold : (r.cells m.nodeId).run.state = .blocked
    · obtain ⟨d,hd,hdb⟩ := hr hold
      exact ⟨d,hd,hkeep d hdb⟩
    · by_cases hid : m.nodeId = k.nodeId
      · have hmk : m = k := List.inj_on_of_nodup_map g.nodup hm hk hid
        subst hmk
        rw [put_cells_self] at hb
        simp only [blockOne] at hb
        split at hb
        · rename_i hblockable
          obtain ⟨d,hd⟩ := List.exists_mem_of_ne_nil _ hblockable.2
          obtain ⟨hdm,hdb⟩ := List.mem_filter.mp hd
          exact ⟨d,hdm,hkeep d (of_decide_eq_true hdb)⟩
        · exact absurd hb hold
      · rw [put_cells_ne hid] at hb
        exact absurd hb hold
  · rw [hplanned] at h
    cases h

theorem launch_pins (hm : m ∈ g.nodes) (hplanned : (s.cells m.nodeId).run.state = .planned)
    (hb : ((s.launch g).cells m.nodeId).run.state = .blocked) :
    ∃ d ∈ m.dependsOn, ((s.launch g).cells d).run.state = .blocked := by
  have hrun : ∀ i, ((s.launch g).cells i).run = ((propagateBlocks g g.nodes.length s).cells i).run := by
    intro i
    rw [launch_cells]
    exact sweep_spawnOne_run g.nodes i
  simp only [hrun] at hb ⊢
  exact propagateBlocks_pins _ hm hplanned hb

theorem Touch.blocked_or_retried {a : Live} {c' : Cell} (h : Touch cfg n c a c' bodies)
    (hb : c.run.state = .blocked) : c'.run.state = .blocked ∨ c.retriable cfg ∧ ∃ req, a = .control req ∧
    req.kind = .retryNode ∧ req.nodeId = some n.nodeId := by
  have hreap : c.reap.1.run.state = .blocked := by
    simp only [Cell.reap]
    repeat' split
    all_goals simp_all
  cases h with
  | kept => exact .inl hb
  | reaped => exact .inl hreap
  | abandoned => exact .inl hreap
  | cancelRun => exact .inl (by simp [Cell.cancelRun,Cell.cancelTask,hb])
  | cancelNode => exact .inl (by simp [Cell.cancelNode,hb])
  | retryNode hkind hid =>
    simp only [Cell.retryNode]
    split
    · rename_i hretry
      exact .inr ⟨hretry,_,rfl,hkind,hid⟩
    · exact .inl hb
  | blocked => exact .inl rfl
  | spawned => exact .inl hb
  | drive h =>
    obtain ⟨_,effs,_,_,hrun,_⟩ := drive_cases h
    exact .inl (by rw [hrun]; exact perform_blocked effs hb)
  | raised h =>
    obtain ⟨_,effs,_,_,hrun,_⟩ := raised_cases h
    exact .inl (by rw [hrun]; exact perform_blocked effs hb)
  | cancelled h =>
    obtain ⟨_,_,_,_,hrun,_⟩ := cancelled_cases h
    exact .inl (by rw [hrun]; exact hb)

def Pinned (m : WorkNode) (s : Sys) : Prop :=
  (s.cells m.nodeId).run.state = .blocked ∧ ∃ d ∈ m.dependsOn, (s.cells d).run.state = .blocked

theorem step_pinned {a : Live} (hm : m ∈ g.nodes) (hdriven : DrivenBehind g s) (hprompt : Prompt g cfg s a)
    (h : Pinned m s) (hstep : s.liveStep g cfg a = some t) : Pinned m t := by
  obtain ⟨hb,d,hd,hdb⟩ := h
  obtain ⟨k,hk,rfl⟩ := List.mem_map.mp (g.known m hm d hd)
  obtain ⟨_,_,htouch⟩ := liveStep_touch hstep hm
  obtain ⟨_,_,htouchDep⟩ := liveStep_touch hstep hk
  -- the node was never driven, so it has no failure that a retry could go by
  have hfresh : (s.cells m.nodeId).run.failures = [] := by
    by_contra hf
    have hv := hdriven m hm (.inr hf) k.nodeId hd
    rw [hv] at hdb
    cases hdb
  refine ⟨?_,k.nodeId,hd,?_⟩
  · rcases htouch.blocked_or_retried hb with h | ⟨hretry,_⟩
    · exact h
    · exact absurd hfresh hretry.2.2.2.1
  · rcases htouchDep.blocked_or_retried hdb with h | ⟨hretry,req,rfl,hkind,hid⟩
    · exact h
    · exact absurd hb (hprompt hkind k hk hid hretry hdb m hm hd)

theorem liveStep_drivenBehind {a : Live} (htidy : Tidy g s) (h : DrivenBehind g s) (hstep : s.liveStep g cfg a = some t) :
    DrivenBehind g t :=
  moves_invariant (fun _ _ => move_drivenBehind)
    (liveStep_moves (R := fun _ _ => True) htidy (fun _ _ _ _ _ _ _ => trivial) (fun _ _ => trivial) hstep) h

theorem run_drivenBehind {as : List Live} {past : List Event}
    (h : exec (liveStep g cfg) (Sys.boot g past) as = some s) : Tidy g s ∧ DrivenBehind g s :=
  exec_invariant (I := fun s => Tidy g s ∧ DrivenBehind g s)
    (fun _ _ _ hi hstep => ⟨liveStep_tidy hi.1 hstep,liveStep_drivenBehind hi.1 hi.2 hstep⟩) h
    ⟨boot_tidy past,boot_drivenBehind past⟩

theorem launch_spawns (hm : m ∈ g.nodes) (hready : (s.launch g).ready m) : ((s.launch g).cells m.nodeId).task ≠ none := by
  have hready' : (propagateBlocks g g.nodes.length s).ready m := by
    refine (ready_congr fun i => ?_).mp hready
    rw [launch_cells]
    exact sweep_spawnOne_run g.nodes i
  rw [launch_cells]
  exact sweep_spawnOne_ready m hm hready'

/-- In a run with prompt retries only, a node blocked by propagation always has a dependency
that is not validated, and what is ready is driven. -/
theorem prompt_retries_strand_none {as : List Live} {past : List Event}
    (hok : AllSteps (liveStep g cfg) (Prompt g cfg) (Sys.boot g past) as)
    (h : exec (liveStep g cfg) (Sys.boot g past) as = some u) :
    (∀ before after s t, as = before ++ .launch :: after →
      exec (liveStep g cfg) (Sys.boot g past) before = some s → s.liveStep g cfg .launch = some t →
      ∀ m ∈ g.nodes, (s.cells m.nodeId).run.state = .planned → (t.cells m.nodeId).run.state = .blocked →
        ¬ ((u.cells m.nodeId).run.state = .blocked ∧ ∀ d ∈ m.dependsOn, (u.cells d).run.state = .validated)) ∧
    ∀ v, u.liveStep g cfg .launch = some v → ∀ m ∈ g.nodes, v.ready m → (v.cells m.nodeId).task ≠ none := by
  constructor
  · rintro before after s t rfl hs ht m hm hplanned hblocked ⟨-,hall⟩
    rw [exec_append,hs] at h
    obtain ⟨t',ht',hrest⟩ := exec_cons h
    cases ht.symm.trans ht'
    have hpin : Pinned m t := by
      refine ⟨hblocked,?_⟩
      simp only [liveStep] at ht
      split at ht
      · cases ht
        exact launch_pins hm hplanned hblocked
      · cases ht
    obtain ⟨htidy,hdriven⟩ := run_drivenBehind hs
    -- the pin holds from the launch on
    have hinv := exec_invariant_of (I := fun s => (Tidy g s ∧ DrivenBehind g s) ∧ Pinned m s)
      (fun s a t hi hprompt hstep => ⟨⟨liveStep_tidy hi.1.1 hstep,liveStep_drivenBehind hi.1.1 hi.1.2 hstep⟩,
        step_pinned hm hi.1.2 hprompt hi.2 hstep⟩) ((hok.drop hs).2 t ht) hrest
      ⟨⟨liveStep_tidy htidy ht,liveStep_drivenBehind htidy hdriven ht⟩,hpin⟩
    obtain ⟨-,-,d,hd,hdb⟩ := hinv
    rw [hall d hd] at hdb
    cases hdb
  · intro v hv m hm hready
    simp only [liveStep] at hv
    split at hv
    · cases hv
      exact launch_spawns hm hready
    · cases hv

end

def gamma : WorkNode where
  nodeId := "gamma"
  objective := "write c.py"
  ownedFiles := ["c.py"]
  verificationCommand := ["pytest"]
  contextNormal := WorkNode.normal_nil
  implementVerifies := WorkNode.verifies_pytest

/-- `beta` behind `alpha`, and `gamma` beside them. -/
def forkGraph : WorkGraph where
  nodes := [alpha,beta,gamma]
  parallel := WorkGraph.parallel_default

/-- The reopened `alpha` is driven to `VALIDATED`, and the loop goes round once more. -/
def redoAlpha : List Live :=
  [.launch,.drive "alpha" .started,.drive "alpha" (.route "kimi" false),.drive "alpha" (.slot false),
    .drive "alpha" (.prepared false true .matched),
    .drive "alpha" (.executed true true ⟨.other "unknown",.reroute,0,.none⟩),
    .drive "alpha" (.changed ["a.py"] ⟨.other "unknown",.reroute,0,.none⟩),
    .drive "alpha" (.ran true ⟨.other "unknown",.reroute,0,.none⟩ ""),
    .drive "alpha" (.gated true ⟨.other "unknown",.reroute,0,.none⟩ ""),
    .drive "alpha" (.committed "c1"),.drive "alpha" (.removed true),.wake false]

/-- The retry comes in the poll that follows the block, so `beta` is driven behind it. -/
theorem prompt_retries_strand_none_fork : ∃ u v, exec (liveStep forkGraph {}) (Sys.boot forkGraph [])
    (strandAlpha ++ [.control retryAlphaNow] ++ redoAlpha) = some u ∧ u.liveStep forkGraph {} .launch = some
    v ∧ (v.cells "alpha").run.state = .validated ∧ (v.cells "beta").task ≠ none := by
  obtain ⟨u,hu,v,hv,hstate,hready⟩ : ∃ u ∈ exec (liveStep forkGraph {}) (Sys.boot forkGraph [])
      (strandAlpha ++ [.control retryAlphaNow] ++ redoAlpha), ∃ v ∈ u.liveStep forkGraph {} .launch,
      (v.cells "alpha").run.state = .validated ∧ v.ready beta := by decide +kernel
  exact ⟨u,v,hu,hv,hstate,(prompt_retries_strand_none (by decide +kernel) hu).2 v hv beta (by decide) hready⟩

/-- One round later `beta` is blocked already; the accepted retry of `alpha` succeeds, and
`beta` stays blocked behind its validated dependency, with no failure of its own. -/
theorem late_retry_strands : ∃ s ∈ exec (liveStep forkGraph {}) (Sys.boot forkGraph []) strandAlpha, ∃ t ∈
    s.liveStep forkGraph {} .launch, ∃ r ∈ exec (liveStep forkGraph {}) t [.wake false], ∃ u ∈ exec
    (liveStep forkGraph {}) r (.control retryAlphaNow :: redoAlpha ++ [.launch]), (s.cells "beta").run.state
    = .planned ∧ (t.cells "beta").run.state = .blocked ∧
    ((r.cells "alpha").run.state = .blocked ∧ (r.cells "alpha").retriable {}) ∧ (u.cells "alpha").run.state
    = .validated ∧ (u.cells "beta").run.state = .blocked ∧ (u.cells "beta").run.failures = [] ∧
    (u.cells "beta").task = none := by
  decide +kernel

end Verdict.Runtime

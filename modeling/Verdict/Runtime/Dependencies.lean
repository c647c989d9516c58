import Verdict.Runtime.Reachable

/-! # The dependency barrier

A node that has a driver or is past admission has all its dependencies validated. Within a
life this holds because drivers are started behind the barrier and `VALIDATED` is never
left; across lives because the log of every reachable state, cut anywhere, names a
validated node only behind its validated dependencies.
-/
namespace Verdict.Runtime
open Driver Controls Run
open List (mem_map prefix_rfl)

/-- The node holds its dependencies: it has a driver, or its state is past admission. -/
def Cell.started (c : Cell) : Prop := c.task ≠ none ∨ c.run.state.started = true

def Held (g : WorkGraph) (s : Sys) : Prop :=
  ∀ n ∈ g.nodes, (s.cells n.nodeId).started → ∀ d ∈ n.dependsOn, (s.cells d).run.state = .validated

def Grounded (g : WorkGraph) (log : List Event) : Prop :=
  ∀ cut, cut <+: log → ∀ n ∈ g.nodes, priorValidated (nodeLog n.nodeId cut) ≠ none →
    ∀ d ∈ n.dependsOn, priorValidated (nodeLog d cut) ≠ none

section
variable {g : WorkGraph} {cfg : Config} {R : Sys → WorkNode → Prop} {stop : Prop} {s t : Sys} {n : WorkNode}
  {c : Cell} {bodies : List Body}

theorem drive_cases {c c' : Cell} {reply : Reply} (h : c.drive cfg n reply = some (c',bodies)) : ∃ t effs,
    c.task = some t ∧ t.status = .running ∧ c'.run = (perform c.run effs).run ∧ ∃ t', c'.task = some t' ∧
    (script cfg n t c.run reply = some (effs,t') ∨ ∃ text, t' = {t with status := .raised text}) := by
  simp only [Cell.drive] at h
  split at h
  · cases h
  · rename_i t ht
    split at h
    · cases h
    · rename_i hrun
      obtain ⟨⟨effs,t'⟩,hseg,hres⟩ := Option.map_eq_some_iff.mp h
      cases hres
      refine ⟨t,effs,ht,not_not.mp hrun,rfl,_,rfl,?_⟩
      split
      · exact .inl hseg
      · exact .inr ⟨_,rfl⟩

theorem raised_cases {c c' : Cell} {during : Option (Reply × ℕ)} {text : String}
    (h : c.raised cfg n during text = some (c',bodies)) : ∃ t effs, c.task = some t ∧ t.status = .running ∧
    c'.run = (perform c.run effs).run ∧ c'.task = some {t with status := .raised text} := by
  simp only [Cell.raised] at h
  split at h
  · cases h
  · rename_i t ht
    split at h
    · cases h
    · rename_i hrun
      split at h
      · cases h
        exact ⟨t,[],ht,not_not.mp hrun,rfl,rfl⟩
      · rename_i reply k
        obtain ⟨⟨effs,t'⟩,_,hres⟩ := Option.map_eq_some_iff.mp h
        cases hres
        exact ⟨t,effs.take k,ht,not_not.mp hrun,rfl,rfl⟩

theorem cancelled_cases {c c' : Cell} (h : c.cancelled = some (c',bodies)) : ∃ t, c.task = some t ∧ t.status
    = .running ∧ t.cancelRequested = true ∧ c'.run = c.run ∧ bodies = [] ∧ c'.task = some
    {t with status := .cancelled} := by
  simp only [Cell.cancelled] at h
  split at h
  · cases h
  · rename_i t ht
    split at h
    · rename_i hrun
      cases h
      exact ⟨t,ht,hrun.1,hrun.2,rfl,rfl,rfl⟩
    · cases h

/-- `VALIDATED` is never left within a life. -/
theorem CellStep.validated {R : Prop} (h : CellStep cfg R stop s n c bodies)
    (hv : (s.cells n.nodeId).run.state = .validated) : c.run.state = .validated := by
  cases h with
  | spawn => exact hv
  | drive h =>
    obtain ⟨_,effs,_,_,hrun,_⟩ := drive_cases h
    rw [hrun,perform_final effs (by rw [hv]; rfl),hv]
  | raised h =>
    obtain ⟨_,effs,_,_,hrun,_⟩ := raised_cases h
    rw [hrun,perform_final effs (by rw [hv]; rfl),hv]
  | cancelled h =>
    obtain ⟨_,_,_,_,hrun,_⟩ := cancelled_cases h
    rw [hrun,hv]
  | reap =>
    simp only [Cell.reap]
    split
    · exact hv
    · split <;> simp [hv]
  | cancelTask => exact hv
  | cancelRun => simp [Cell.cancelRun,Cell.cancelTask,hv]
  | cancelNode => simp [Cell.cancelNode,hv]
  | retry =>
    have : ¬ (s.cells n.nodeId).retriable cfg := by simp [Cell.retriable,hv]
    simp [Cell.retryNode,this,hv]
  | block hb => exact absurd (hb.1.symm.trans hv) (by decide)

/-- Only `_ready` starts a node. -/
theorem CellStep.started {R : Prop} (h : CellStep cfg R stop s n c bodies) (hc : c.started) :
    (s.cells n.nodeId).started ∨ s.ready n := by
  cases h with
  | spawn hready => exact .inr hready
  | drive h =>
    obtain ⟨_,_,ht,_⟩ := drive_cases h
    exact .inl (.inl (by simp [ht]))
  | raised h =>
    obtain ⟨_,_,ht,_⟩ := raised_cases h
    exact .inl (.inl (by simp [ht]))
  | cancelled h =>
    obtain ⟨_,ht,_⟩ := cancelled_cases h
    exact .inl (.inl (by simp [ht]))
  | reap =>
    left
    simp only [Cell.reap] at hc
    split at hc
    · exact hc
    · rename_i ht
      exact .inl (by simp [ht])
  | cancelTask =>
    left
    rcases hc with hc | hc
    · exact .inl (by simpa [Cell.cancelTask] using hc)
    · exact .inr hc
  | cancelRun =>
    left
    simp only [Cell.cancelRun,Cell.cancelTask,Cell.block] at hc
    split at hc <;> rcases hc with hc | hc <;> first | exact .inl (by simpa using hc) | exact .inr hc | cases hc
  | cancelNode =>
    left
    simp only [Cell.cancelNode,Cell.cancelTask,Cell.block] at hc
    split at hc <;> rcases hc with hc | hc <;> first | exact .inl (by simpa using hc) | exact .inr hc | cases hc
  | retry =>
    left
    simp only [Cell.retryNode] at hc
    split at hc
    · rcases hc with hc | hc
      · exact .inl hc
      · cases hc
    · exact hc
  | block =>
    left
    rcases hc with hc | hc
    · exact .inl hc
    · cases hc

theorem CellStep.validates {R : Prop} (h : CellStep cfg R stop s n c bodies) (hv : priorValidated bodies ≠ none) :
    (s.cells n.nodeId).task ≠ none := by
  cases h with
  | drive h =>
    obtain ⟨_,_,ht,_⟩ := drive_cases h
    simp [ht]
  | raised h =>
    obtain ⟨_,_,ht,_⟩ := raised_cases h
    simp [ht]
  | cancelled h =>
    obtain ⟨_,ht,_⟩ := cancelled_cases h
    simp [ht]
  | spawn | cancelTask => exact absurd rfl hv
  | reap =>
    intro hnone
    simp [Cell.reap,hnone,priorValidated] at hv
  | cancelRun =>
    simp only [Cell.cancelRun,Cell.block] at hv
    split at hv <;> exact absurd rfl hv
  | cancelNode =>
    simp only [Cell.cancelNode,Cell.block] at hv
    split at hv <;> exact absurd rfl hv
  | retry =>
    simp only [Cell.retryNode] at hv
    split at hv <;> exact absurd rfl hv
  | block => exact absurd rfl hv

theorem Held.put (h : Held g s) (hn : n ∈ g.nodes) (hstep : CellStep cfg (R s n) stop s n c bodies) :
    Held g (s.put n.nodeId c bodies) := by
  -- dependencies that were validated still are
  have hkeep : ∀ d, (s.cells d).run.state = .validated →
      ((s.put n.nodeId c bodies).cells d).run.state = .validated := by
    intro d hd
    by_cases hdn : d = n.nodeId
    · subst hdn
      rw [put_cells_self]
      exact hstep.validated hd
    · rw [put_cells_ne hdn]
      exact hd
  intro m hm hstarted d hd
  refine hkeep d ?_
  by_cases hid : m.nodeId = n.nodeId
  · have hmn : m = n := List.inj_on_of_nodup_map g.nodup hm hn hid
    subst hmn
    rw [put_cells_self] at hstarted
    rcases hstep.started hstarted with hold | hready
    · exact h m hm hold d hd
    · exact hready.2 d hd
  · rw [put_cells_ne hid] at hstarted
    exact h m hm hstarted d hd

theorem prefix_append_cases {α : Type} {cut l l' : List α} (h : cut <+: l ++ l') :
    cut <+: l ∨ ∃ l'', l'' <+: l' ∧ cut = l ++ l'' := by
  rcases List.prefix_or_prefix_of_prefix h (List.prefix_append l l') with hc | ⟨l'',rfl⟩
  · exact .inl hc
  · exact .inr ⟨l'',(List.prefix_append_right_inj l).mp h,rfl⟩

theorem priorValidated_mono {log bs : List Body} (h : priorValidated log ≠ none) : priorValidated (log ++ bs) ≠ none := by
  rw [priorValidated_append]
  cases priorValidated bs with
  | none => rwa [Option.none_or]
  | some found => simp

theorem Nodes.validated_iff {S : String → Prop} (h : Nodes g cfg S s) (hn : n ∈ g.nodes) :
    (s.cells n.nodeId).run.state = .validated ↔ priorValidated (nodeLog n.nodeId s.log) ≠ none := by
  rw [(h n hn).link.done,track_done,Option.isSome_iff_ne_none]

theorem Grounded.put {S : String → Prop} (h : Grounded g s.log) (hheld : Held g s) (hnodes : Nodes g cfg S s)
    (hn : n ∈ g.nodes) (hstep : CellStep cfg (R s n) stop s n c bodies) :
    Grounded g (s.put n.nodeId c bodies).log := by
  intro cut hcut m hm hv d hd
  rcases prefix_append_cases hcut with hcut | ⟨bs,hbs,rfl⟩
  · exact h cut hcut m hm hv d hd
  · obtain ⟨bs,rfl,hpre⟩ : ∃ bs', bs = bs'.map (Event.mk n.nodeId) ∧ bs' <+: bodies := by
      obtain ⟨rest,hrest⟩ := hbs
      obtain ⟨l,l',hl,rfl,_⟩ := List.map_eq_append_iff.mp hrest.symm
      exact ⟨l,rfl,l',hl.symm⟩
    have hdn : priorValidated (nodeLog d s.log) ≠ none := by
      rw [nodeLog_append] at hv
      by_cases hid : m.nodeId = n.nodeId
      · have hmn : m = n := List.inj_on_of_nodup_map g.nodup hm hn hid
        subst hmn
        by_cases hold : priorValidated (nodeLog m.nodeId s.log) = none
        · -- validated in this step, by its driver, behind the barrier
          rw [nodeLog_own,priorValidated_append,hold,Option.or_none] at hv
          obtain ⟨rest,rfl⟩ := hpre
          have htask := hstep.validates (priorValidated_mono hv)
          have hdep := hheld m hm (.inl htask) d hd
          obtain ⟨k,hk,rfl⟩ := mem_map.mp (g.known m hm d hd)
          exact (hnodes.validated_iff hk).mp hdep
        · exact h s.log prefix_rfl m hm hold d hd
      · rw [nodeLog_other (Ne.symm hid),List.append_nil] at hv
        exact h s.log prefix_rfl m hm hv d hd
    rw [nodeLog_append]
    exact priorValidated_mono hdn

theorem Grounded.quiet {log bs : List Event} (h : Grounded g log)
    (hbs : ∀ b ∈ bs, priorValidated [b.body] = none) : Grounded g (log ++ bs) := by
  have hnone : ∀ (i : String) (es : List Event), (∀ b ∈ es, priorValidated [b.body] = none) →
      priorValidated (nodeLog i es) = none := by
    intro i es hes
    induction es with
    | nil => rfl
    | cons e es ih =>
      have happ : nodeLog i (e :: es) = nodeLog i [e] ++ nodeLog i es := nodeLog_append i [e] es
      rw [happ,priorValidated_append,ih fun b hb => hes b (List.mem_cons_of_mem _ hb),Option.none_or]
      by_cases he : e.nodeId = i
      · simpa [nodeLog,he] using hes e List.mem_cons_self
      · simp [nodeLog,he,priorValidated]
  intro cut hcut m hm hv d hd
  rcases prefix_append_cases hcut with hcut | ⟨es,hes,rfl⟩
  · exact h cut hcut m hm hv d hd
  · have hes' : ∀ b ∈ es, priorValidated [b.body] = none := fun b hb => hbs b (hes.subset hb)
    rw [nodeLog_append,priorValidated_append,hnone _ es hes',Option.none_or] at hv ⊢
    exact h log prefix_rfl m hm hv d hd

structure BarrierInv (g : WorkGraph) (cfg : Config) (s : Sys) : Prop where
  nodes : Nodes g cfg (fun _ => True) s
  held : Held g s
  grounded : Grounded g s.log

theorem move_barrier (h : BarrierInv g cfg s) (hm : Move g cfg (RetryRecorded fun _ => True) stop s t) :
    BarrierInv g cfg t := by
  refine ⟨move_nodes h.nodes hm,?_,?_⟩
  · cases hm with
    | cell hn hstep => exact h.held.put hn hstep
    | say | phase => exact h.held
  · cases hm with
    | cell hn hstep => exact h.grounded.put h.held h.nodes hn hstep
    | say hb =>
      refine h.grounded.quiet fun e he => ?_
      obtain ⟨b,hbm,rfl⟩ := mem_map.mp he
      have hrun := hb b hbm
      cases b <;> first | rfl | cases hrun
    | phase => exact h.grounded

theorem liveStep_barrier {a : Live} (h : BarrierInv g cfg s) (htidy : Tidy g s)
    (hstep : s.liveStep g cfg a = some t) : BarrierInv g cfg t :=
  moves_invariant (fun _ _ => move_barrier) (liveStep_moves htidy
    (fun _ _ _ _ _ _ _ _ _ => .inr trivial) (fun _ _ => trivial) hstep) h

theorem boot_validated {log : List Body} : (Cell.boot log).run.state = .validated ↔ priorValidated log ≠ none := by
  simp only [Cell.boot]
  cases priorValidated log <;> simp

theorem boot_barrier {log : List Event}
    (hconf : ∀ n ∈ g.nodes, Conform n cfg.policy.maxAttemptsPerNode (nodeLog n.nodeId log))
    (h : Grounded g log) : BarrierInv g cfg (Sys.boot g log) := by
  refine ⟨boot_nodes hconf fun _ _ _ _ => trivial,fun n hn hstarted d hd => ?_,?_⟩
  · have hv : priorValidated (nodeLog n.nodeId log) ≠ none := by
      intro hnone
      simp [Sys.boot,Cell.boot,Cell.started,hnone,NodeState.started] at hstarted
    exact boot_validated.mpr (h log prefix_rfl n hn hv d hd)
  · simp only [Sys.boot,List.append_assoc]
    refine h.quiet fun e he => ?_
    simp only [List.mem_append,List.mem_singleton,mem_map] at he
    rcases he with rfl | he | ⟨n,_,rfl⟩ | rfl
    · rfl
    · split at he
      · cases List.mem_singleton.mp he
        rfl
      · cases he
    · rfl
    · rfl

theorem reachable_barrier {as : List Act} (h : exec (Sys.step g cfg) (Sys.init g) as = some s) :
    BarrierInv g cfg s ∧ Tidy g s := by
  refine exec_invariant (I := fun s => BarrierInv g cfg s ∧ Tidy g s) (fun s a t hi hstep => ?_) h
    ⟨boot_barrier (fun _ _ => trivial) ?_,boot_tidy []⟩
  · obtain ⟨hb,htidy⟩ := hi
    cases a with
    | live a => exact ⟨liveStep_barrier hb htidy hstep,liveStep_tidy htidy hstep⟩
    | restart during reports =>
      obtain ⟨cut,hcut,rfl⟩ := step_restart hstep
      obtain ⟨u,hu,hpre⟩ := cutLog_le hcut
      have hu : BarrierInv g cfg u := by
        rcases hu with rfl | ⟨a,ha⟩
        · exact hb
        · exact liveStep_barrier hb htidy ha
      have hcutGrounded : Grounded g cut := fun cut' hcut' => hu.grounded cut' (hcut'.trans hpre)
      refine ⟨boot_barrier (cut_conform hb.nodes htidy hcut reports) ?_,boot_tidy _⟩
      refine hcutGrounded.quiet fun e he => ?_
      obtain ⟨r,_,rfl⟩ := mem_map.mp he
      cases r <;> rfl
  · intro cut hcut n hn hv
    rw [List.prefix_nil.mp hcut] at hv
    exact absurd rfl hv

theorem Held.ancestors (h : Held g s) {n : WorkNode} (hn : n ∈ g.nodes)
    (hstarted : (s.cells n.nodeId).run.state.started = true) :
    ∀ a ∈ WorkGraph.ancestors g.nodes n.nodeId, (s.cells a).run.state = .validated := by
  intro a ha
  rw [WorkGraph.mem_ancestors_iff] at ha
  induction ha with
  | single hd =>
    rw [WorkGraph.DependsOn,g.dependsOf_of_mem hn] at hd
    exact h n hn (.inr hstarted) _ hd
  | tail hb hd ih =>
    obtain ⟨m,hm,rfl⟩ : ∃ m ∈ g.nodes, m.nodeId = _ := by
      cases hb with
      | single hd' => exact mem_map.mp (g.mem_ids_of_dependsOn hd')
      | tail _ hd' => exact mem_map.mp (g.mem_ids_of_dependsOn hd')
    rw [WorkGraph.DependsOn,g.dependsOf_of_mem hm] at hd
    exact h m hm (.inr (by rw [ih]; rfl)) _ hd

end
end Verdict.Runtime

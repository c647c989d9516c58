import Verdict.Runtime.Awaits
import Verdict.Runtime.Moves

/-! # The invariant of every reachable state

`NodeInv` is the invariant of one node: its log conforms to the event protocol, its record
is linked to the log, and its task is where it says. Every cell function of the loop keeps
it; `move_nodes` lifts this to the controller and `boot_nodes` to a new life, which needs
nothing but the conforming log.
-/
namespace Verdict.Runtime
open Driver Controls Run
open List (append_assoc append_nil mem_append mem_cons mem_cons_self mem_map mem_singleton)
open Sys (driven init liveStep sweep)
open Option (map_eq_some_iff)
open Report (event)

structure NodeInv (S : String → Prop) (cfg : Config) (n : WorkNode) (c : Cell) (log : List Body) : Prop where
  conform : Conform n cfg.maxAttempts log
  link : Link S n cfg.maxAttempts c.run (track n log)
  task : ∀ t, c.task = some t → TaskInv S n cfg.maxAttempts t c.run (track n log)
  planned : c.task = none → c.run.state = .planned → Recorded S c.run (track n log)

def StateEvents (bs : List Body) : Prop := ∀ b ∈ bs, ∃ state, state ≠ .validated ∧ b = .nodeState state "" ""

variable {bs : List Body}

theorem after_states {n : WorkNode} (h : StateEvents bs) (tr : Track) :
    (tr.after n bs).done = tr.done ∧ (tr.after n bs).top = tr.top ∧ (tr.after n bs).routes = tr.routes := by
  induction bs generalizing tr with
  | nil => exact ⟨rfl,rfl,rfl⟩
  | cons b bs ih =>
    obtain ⟨state,hne,rfl⟩ := h b mem_cons_self
    obtain ⟨hd,htop,hroutes⟩ := ih (fun b' hb' => h b' (List.mem_cons_of_mem _ hb')) (tr.next n (.nodeState state "" ""))
    exact ⟨hd.trans (next_nodeState_done hne),htop,hroutes⟩

variable {maxAttempts : ℕ} {tr : Track}

theorem admitsAll_states {n : WorkNode} (h : StateEvents bs)
    (hd : tr.done = false) : AdmitsAll n maxAttempts tr bs := by
  induction bs generalizing tr with
  | nil => trivial
  | cons b bs ih =>
    obtain ⟨state,hne,rfl⟩ := h b mem_cons_self
    refine ⟨admits_nodeState hne hd,ih (fun b' hb' => h b' (List.mem_cons_of_mem _ hb')) ?_⟩
    rw [next_nodeState_done hne,hd]

def Active (state : NodeState) : Prop :=
  state = .planned ∨ state = .admitted ∨ state = .dispatched ∨ state = .running

variable {run : NodeRun} {pc : Pc}

/-- A cancellation changes the state under a suspended driver; its `await` tolerates that. -/
theorem At.strike {S : String → Prop} {n : WorkNode} {run' : NodeRun} {tr' : Track}
    (h : At S n maxAttempts run tr pc) (hactive : Active run.state)
    (hstate : run'.state = .blocked ∨ run'.state = .terminalFailure) (hattempt : run'.attempt = run.attempt)
    (hroute : run'.routeId = run.routeId) (hhistory : run'.history = run.history) (htop : tr'.top = tr.top)
    (hroutes : tr'.routes = tr.routes) : At S n maxAttempts run' tr' pc := by
  have hopen : ∀ state, Open state run' := fun _ => .inr hstate
  have hrec : Recorded S run tr → Recorded S run' tr' := by
    intro hrec r hr
    simpa only [NodeRun.historyRoutes,hhistory] using hrec r (hroutes ▸ hr)
  cases pc with
  | start => exact ⟨hopen _,hrec h.2⟩
  | top | cooldown => exact ⟨h.1,hopen _,hrec h.2.2⟩
  | select | bindProof => exact ⟨h.1,hopen _,hrec h.2.2.1,hattempt ▸ h.2.2.2⟩
  | slot | prepare => exact ⟨h.1,hopen _,hrec h.2.2.1,htop ▸ hattempt ▸ h.2.2.2.1,hroute ▸ h.2.2.2.2⟩
  | commitPermit | execute | checkEpoch | mergeBase => exact ⟨h.1,hopen _⟩
  | mergeRemove base failed =>
    have hts : run.state = .terminalSuccess := by
      cases failed
      exacts [h.2.1.1,h.2.1]
    exact absurd hactive (by simp [Active,hts])
  | validate => exact absurd hactive (by simp [Active,h.2.1])
  | verify | gates | commit | «seal» | mergeWorktree | mergeVerify | mergeGates =>
    exact absurd hactive (by simp [Active,h.2.1.1])
  | failing | settling | infraSleep =>
    rcases h.2.1 with hb | hb <;> exact absurd hactive (by simp [Active,hb])
  | leaving => rcases h with hb | hb <;> exact absurd hactive (by simp [Active,hb])

theorem At.recorded {S : String → Prop} {n : WorkNode}
    (h : At S n maxAttempts run tr pc) (hp : run.state = .planned) : Recorded S run tr := by
  have hopen : ∀ state, state ≠ .planned → ¬ Open state run := by
    intro state hne ho
    rcases ho with ho | ho | ho <;> rw [hp] at ho
    · exact hne ho.symm
    · cases ho
    · cases ho
  cases pc with
  | start => exact h.2
  | top | cooldown => exact h.2.2
  | select | bindProof | slot | prepare => exact h.2.2.1
  | commitPermit | execute | checkEpoch | mergeBase => exact absurd h.2 (hopen _ (by decide))
  | mergeRemove base failed =>
    have hts : run.state = .terminalSuccess := by
      cases failed
      exacts [h.2.1.1,h.2.1]
    rw [hp] at hts
    cases hts
  | validate => exact absurd h.2.1 (by rw [hp]; decide)
  | verify | gates | commit | «seal» | mergeWorktree | mergeVerify | mergeGates =>
    exact absurd h.2.1.1 (by rw [hp]; decide)
  | failing | settling | infraSleep => exact h.2.2
  | leaving => rcases h with h | h <;> rw [hp] at h <;> cases h

namespace NodeInv
variable {S : String → Prop} {cfg : Config} {n : WorkNode} {c : Cell} {log : List Body}

theorem mono {S' : String → Prop} (h : NodeInv S cfg n c log) (hS : ∀ r, S r → S' r) : NodeInv S' cfg n c log := by
  refine ⟨h.conform,h.link.mono hS,fun t ht => ?_,fun hnone hp => (h.planned hnone hp).mono hS⟩
  have hinv := h.task t ht
  simp only [TaskInv] at hinv ⊢
  cases hstatus : t.status with
  | running =>
    rw [hstatus] at hinv
    dsimp only at hinv ⊢
    generalize t.pc = pc at hinv
    cases pc with
    | mergeRemove base failed => cases failed <;> exact hinv
    | _ => simp only [At] at hinv ⊢; grind [Recorded.mono]
  | returned => rw [hstatus] at hinv; exact hinv
  | cancelled => rw [hstatus] at hinv; exact fun hp => (hinv hp).mono hS
  | raised => trivial

theorem withTask {task : Option Task} (h : NodeInv S cfg n c log)
    (ht : ∀ t, task = some t → TaskInv S n cfg.maxAttempts t c.run (track n log))
    (hp : task = none → c.run.state = .planned → Recorded S c.run (track n log)) :
    NodeInv S cfg n {c with task := task} log := ⟨h.conform,h.link,ht,hp⟩

theorem spawn (h : NodeInv S cfg n c log) (hp : c.run.state = .planned) (hnone : c.task = none) :
    NodeInv S cfg n {c with task := some {}} log := by
  refine h.withTask (fun t ht => ?_) (by simp)
  cases ht
  exact ⟨.inl hp,h.planned hnone hp⟩

variable {c' : Cell} {bodies : List Body}

theorem drive {reply : Reply} (h : NodeInv S cfg n c log)
    (hd : c.drive cfg n reply = some (c',bodies)) : NodeInv S cfg n c' (log ++ bodies) := by
  simp only [Cell.drive] at hd
  split at hd
  · cases hd
  · rename_i t ht
    split at hd
    · cases hd
    · rename_i hrun
      have hrunning := not_not.mp hrun
      obtain ⟨seg,hseg,hres⟩ := map_eq_some_iff.mp hd
      cases hres
      have hat := h.task t ht
      simp only [TaskInv,hrunning] at hat
      obtain ⟨hadm,hlink,hpost⟩ := perform_safe h.link (script_safe hrunning h.link hat hseg)
      rw [← track_append] at hlink hpost
      refine ⟨conform_append.mpr ⟨h.conform,hadm⟩,hlink,fun t' ht' => ?_,by simp⟩
      cases ht'
      split
      · rename_i hok
        exact hpost hok
      · trivial

theorem raised {during : Option (Reply × ℕ)} {text : String} (h : NodeInv S cfg n c log)
    (hr : c.raised cfg n during text = some (c',bodies)) : NodeInv S cfg n c' (log ++ bodies) := by
  simp only [Cell.raised] at hr
  split at hr
  · cases hr
  · rename_i t ht
    split at hr
    · cases hr
    · rename_i hrun
      have hrunning := not_not.mp hrun
      split at hr
      · cases hr
        rw [append_nil]
        refine h.withTask (fun t' ht' => ?_) (by simp)
        cases ht'
        trivial
      · rename_i reply k
        obtain ⟨seg,hseg,hres⟩ := map_eq_some_iff.mp hr
        cases hres
        have hat := h.task t ht
        simp only [TaskInv,hrunning] at hat
        -- the exception cuts the script behind its first `k` effects
        obtain ⟨hadm,hlink,_⟩ := perform_safe h.link ((script_safe hrunning h.link hat hseg).take k)
        rw [← track_append] at hlink
        refine ⟨conform_append.mpr ⟨h.conform,hadm⟩,hlink,fun t' ht' => ?_,by simp⟩
        cases ht'
        trivial

theorem cancelled (h : NodeInv S cfg n c log)
    (hc : c.cancelled = some (c',bodies)) : NodeInv S cfg n c' (log ++ bodies) := by
  simp only [Cell.cancelled] at hc
  split at hc
  · cases hc
  · rename_i t ht
    split at hc
    · rename_i hrun
      cases hc
      rw [append_nil]
      refine h.withTask (fun t' ht' => ?_) (by simp)
      cases ht'
      have hat := h.task t ht
      simp only [TaskInv,hrun.1] at hat
      exact hat.recorded
    · cases hc

theorem struck (h : NodeInv S cfg n c log) (hactive : Active c.run.state)
    (hbs : StateEvents bs) (hstate : c'.run.state = .blocked ∨ c'.run.state = .terminalFailure)
    (hrun : c'.run.attempt = c.run.attempt ∧ c'.run.routeId = c.run.routeId ∧ c'.run.history = c.run.history)
    (htask : ∀ t', c'.task = some t' → ∃ t, c.task = some t ∧ t'.pc = t.pc ∧ t'.status = t.status) :
    NodeInv S cfg n c' (log ++ bs) := by
  obtain ⟨hattempt,hroute,hhistory⟩ := hrun
  have hd : (track n log).done = false := h.link.notDone (by
    rcases hactive with ha | ha | ha | ha <;> rw [ha] <;> decide)
  obtain ⟨hdone,htop,hroutes⟩ := after_states (n := n) hbs (track n log)
  refine ⟨conform_append.mpr ⟨h.conform,admitsAll_states hbs hd⟩,?_,fun t' ht' => ?_,fun _ hp => ?_⟩
  · rw [track_append]
    refine ⟨?_,fun hw _ => ?_,fun r hr => ?_⟩
    · rw [hdone,hd]
      rcases hstate with hs | hs <;> simp [hs]
    · rw [htop,hattempt]
      exact h.link.attempts hw hd
    · rw [hroute,NodeRun.historyRoutes,hhistory]
      exact h.link.routes r (hroutes ▸ hr)
  · obtain ⟨t,ht,hpc,hstatus⟩ := htask t' ht'
    have hinv := h.task t ht
    rw [track_append]
    simp only [TaskInv,hstatus,hpc] at hinv ⊢
    cases hst : t.status with
    | running =>
      rw [hst] at hinv
      exact hinv.strike hactive hstate hattempt hroute hhistory htop hroutes
    | returned =>
      rw [hst] at hinv
      rcases hactive with ha | ha | ha | ha <;> rcases hinv with hb | hb <;> rw [ha] at hb <;> cases hb
    | cancelled => exact fun hp => by rcases hstate with hs | hs <;> rw [hs] at hp <;> cases hp
    | raised => trivial
  · rcases hstate with hs | hs <;> rw [hs] at hp <;> cases hp

theorem note {type : Note} (h : NodeInv S cfg n c log) : NodeInv S cfg n c (log ++ [.note type]) := by
  have htrack : track n (log ++ [.note type]) = track n log := track_snoc n log _
  refine ⟨conform_append.mpr ⟨h.conform,trivial,trivial⟩,?_,?_,?_⟩ <;> rw [htrack]
  · exact h.link
  · exact h.task
  · exact h.planned

theorem block {reason : String} (h : NodeInv S cfg n c log) (hactive : Active c.run.state) :
    NodeInv S cfg n (c.block reason).1 (log ++ (c.block reason).2) :=
  h.struck hactive (by simp [StateEvents,Cell.block]) (.inl rfl) ⟨rfl,rfl,rfl⟩ fun t ht => ⟨t,ht,rfl,rfl⟩

theorem cancelTask (h : NodeInv S cfg n c log) : NodeInv S cfg n c.cancelTask log := by
  refine h.withTask (fun t ht => ?_) fun hnone hp => h.planned (by simpa using hnone) hp
  obtain ⟨t',ht',rfl⟩ := map_eq_some_iff.mp ht
  exact h.task t' ht'

theorem cancelRun (h : NodeInv S cfg n c log) : NodeInv S cfg n c.cancelRun.1 (log ++ c.cancelRun.2) := by
  simp only [Cell.cancelRun,Cell.cancelTask,Cell.block]
  cases hstate : c.run.state with
  | planned => exact h.cancelTask.block (.inl hstate)
  | admitted | dispatched | running =>
    exact h.cancelTask.struck (by simp [Active,Cell.cancelTask,hstate]) (by simp [StateEvents]) (.inr rfl)
      ⟨rfl,rfl,rfl⟩ fun t ht => ⟨t,ht,rfl,rfl⟩
  | _ =>
    rw [append_nil]
    exact h.cancelTask

theorem cancelNode (h : NodeInv S cfg n c log) : NodeInv S cfg n c.cancelNode.1 (log ++ c.cancelNode.2) := by
  simp only [Cell.cancelNode,Cell.block]
  cases hstate : c.run.state with
  | planned =>
    rw [← append_assoc]
    exact (h.cancelTask.block (.inl hstate)).note
  | admitted | dispatched | running =>
    rw [← append_assoc]
    refine note (c := (c.cancelTask.block "cancelled_by_operator").1) ?_
    exact h.cancelTask.struck (by simp [Active,Cell.cancelTask,hstate]) (by simp [StateEvents]) (.inl rfl)
      ⟨rfl,rfl,rfl⟩ fun t ht => ⟨t,ht,rfl,rfl⟩
  | _ => exact h.note

theorem retryNode (h : NodeInv S cfg n c log) (hended : ∀ t, c.task = some t → t.status = .running)
    (hrec : c.retriable cfg → Recorded S c.run (track n log)) :
    NodeInv S cfg n (c.retryNode cfg).1 (log ++ (c.retryNode cfg).2) := by
  simp only [Cell.retryNode]
  split
  · rename_i hretry
    have hstate := hretry.1
    have hactive := hretry.2.1
    have hnone : c.task = none := by
      cases ht : c.task with
      | none => rfl
      | some t => simp [Cell.active,ht,hended t ht] at hactive
    have hopen : c.run.state ≠ .validated := by
      rcases hstate with hs | hs <;> rw [hs] <;> decide
    rw [List.append_cons]
    refine NodeInv.note ⟨conform_append.mpr ⟨h.conform,h.link.notDone hopen,trivial⟩,?_,?_,fun _ _ => ?_⟩
    · rw [track_snoc]
      exact h.link.setState hopen (by decide) rfl rfl rfl rfl
    · intro t ht
      rw [hnone] at ht
      cases ht
    · rw [track_snoc]
      exact hrec hretry
  · exact h.note

theorem reap (h : NodeInv S cfg n c log) : NodeInv S cfg n c.reap.1 (log ++ c.reap.2) := by
  simp only [Cell.reap]
  split
  · rw [append_nil]
    exact h
  · rename_i t ht
    have hinv := h.task t ht
    split
    · rw [append_nil]
      exact h
    · rename_i hstatus
      simp only [TaskInv,hstatus] at hinv
      rw [append_nil]
      refine h.withTask (by simp) fun _ hp => ?_
      rcases hinv with hs | hs <;> rw [hs] at hp <;> cases hp
    · rename_i hstatus
      simp only [TaskInv,hstatus] at hinv
      rw [append_nil]
      exact h.withTask (by simp) fun _ hp => hinv hp
    · -- the crash report; a validated node keeps its state
      refine ⟨conform_append.mpr ⟨h.conform,trivial,trivial⟩,?_,by simp,fun _ hp => ?_⟩
      · rw [track_snoc]
        split
        · refine ⟨h.link.done.trans ?_,fun hw hd => h.link.attempts hw ?_,h.link.routes⟩
          · rw [next_nodeState_done (by decide)]
          · rwa [next_nodeState_done (by decide)] at hd
        · rename_i hopen
          exact h.link.setState (fun hv => hopen (.inl hv)) (by decide) rfl rfl rfl rfl
      · split at hp <;> simp_all

end NodeInv
def Nodes (g : WorkGraph) (cfg : Config) (S : String → Prop) (s : Sys) : Prop :=
  ∀ n ∈ g.nodes, NodeInv S cfg n (s.cells n.nodeId) (nodeLog n.nodeId s.log)

section
variable {g : WorkGraph} {cfg : Config} {S : String → Prop} {s t : Sys}

theorem nodeLog_put_self (i : String) (c : Cell) (bodies : List Body) :
    nodeLog i (s.put i c bodies).log = nodeLog i s.log ++ bodies := by
  simp only [Sys.put,nodeLog_append,nodeLog_own]

variable {i : String}

theorem nodeLog_put_ne {j : String} (h : j ≠ i) (c : Cell) (bodies : List Body) :
    nodeLog j (s.put i c bodies).log = nodeLog j s.log := by
  simp only [Sys.put,nodeLog_append,nodeLog_other h.symm,append_nil]

theorem nodeLog_say (h : i ≠ "") (bodies : List Body) : nodeLog i (s.say bodies).log = nodeLog i s.log := by
  simp only [Sys.say,nodeLog_append,nodeLog_other h.symm,append_nil]

theorem Nodes.put {n : WorkNode} {c : Cell} {bodies : List Body} (h : Nodes g cfg S s) (hn : n ∈ g.nodes)
    (hc : NodeInv S cfg n c (nodeLog n.nodeId s.log ++ bodies)) : Nodes g cfg S (s.put n.nodeId c bodies) := by
  intro m hm
  by_cases hid : m.nodeId = n.nodeId
  · have hmn : m = n := List.inj_on_of_nodup_map g.nodup hm hn hid
    subst hmn
    rw [put_cells_self,nodeLog_put_self]
    exact hc
  · rw [put_cells_ne hid,nodeLog_put_ne hid]
    exact h m hm

theorem NodeInv.step {n : WorkNode} {c : Cell} {bodies : List Body}
    (h : NodeInv S cfg n (s.cells n.nodeId) (nodeLog n.nodeId s.log)) {stop : Prop}
    (hstep : CellStep cfg (Recorded S (s.cells n.nodeId).run (track n (nodeLog n.nodeId s.log))) stop s n c bodies)
    : NodeInv S cfg n c (nodeLog n.nodeId s.log ++ bodies) := by
  cases hstep with
  | spawn hready hnone =>
    rw [append_nil]
    exact h.spawn hready.1 hnone
  | drive hd => exact h.drive hd
  | raised hr => exact h.raised hr
  | cancelled hc => exact h.cancelled hc
  | reap => exact h.reap
  | cancelTask =>
    rw [append_nil]
    exact h.cancelTask
  | cancelRun => exact h.cancelRun
  | cancelNode => exact h.cancelNode
  | retry hended hR => exact h.retryNode hended hR
  | block hb => exact h.block (.inl hb.1)

def RetryRecorded (S : String → Prop) (s : Sys) (n : WorkNode) : Prop :=
  Recorded S (s.cells n.nodeId).run (track n (nodeLog n.nodeId s.log))

theorem move_nodes {stop : Prop} (h : Nodes g cfg S s) (hm : Move g cfg (RetryRecorded S) stop s t) : Nodes g cfg S t := by
  cases hm with
  | cell hn hstep => exact h.put hn ((h _ hn).step hstep)
  | say hb =>
    intro n hn
    rw [nodeLog_say n.nodeId_ne]
    exact h n hn
  | phase p => exact h

theorem moves_nodes {stop : Prop} (h : Nodes g cfg S s)
    (hm : Relation.ReflTransGen (Move g cfg (RetryRecorded S) stop) s t) :
    Nodes g cfg S t := moves_invariant (fun _ _ => move_nodes) hm h

theorem nodeLog_boot_cut (hi : i ≠ "") (log : List Event) :
    ∃ notes, nodeLog i (Sys.boot g log).log = nodeLog i log ++ notes ∧ ∀ b ∈ notes, ∃ type, b = .note type := by
  simp only [Sys.boot,nodeLog_append,append_assoc]
  refine ⟨_,rfl,fun b hb => ?_⟩
  simp only [← nodeLog_append] at hb
  have hmem := mem_nodeLog.mp hb
  simp only [mem_append,mem_map,mem_cons,List.not_mem_nil,or_false] at hmem
  rcases hmem with h | h | ⟨n,_,h⟩ | h
  · cases h
    exact ⟨_,rfl⟩
  · split at h
    · cases mem_singleton.mp h
      exact ⟨_,rfl⟩
    · cases h
  · cases h
    exact ⟨_,rfl⟩
  · cases h
    exact ⟨_,rfl⟩

theorem NodeInv.notes {n : WorkNode} {c : Cell} {log notes : List Body} (h : NodeInv S cfg n c log)
    (hnotes : ∀ b ∈ notes, ∃ type, b = .note type) : NodeInv S cfg n c (log ++ notes) := by
  induction notes generalizing log with
  | nil => rwa [append_nil]
  | cons b notes ih =>
    obtain ⟨type,rfl⟩ := hnotes b mem_cons_self
    rw [List.append_cons]
    exact ih h.note fun b' hb' => hnotes b' (List.mem_cons_of_mem _ hb')

theorem boot_node {n : WorkNode} {log : List Body} (hconf : Conform n cfg.maxAttempts log)
    (hrec : ∀ r ∈ dispatchedRoutes log, S r) : NodeInv S cfg n (Cell.boot log) log := by
  have hroutes : ∀ r ∈ (track n log).routes, S r := by
    intro r hr
    rw [track_routes,List.mem_reverse] at hr
    exact hrec r hr
  have hmax : priorAttempts log ≤ cfg.maxAttempts := by
    refine Conform.induction (P := fun l => priorAttempts l ≤ _) (Nat.zero_le _) (fun l b _ hb hl => ?_) hconf
    rw [priorAttempts_append]
    refine max_le hl ?_
    cases b with
    | dispatch routeId attempt => simpa [priorAttempts] using hb.2.2.2.1
    | _ => exact Nat.zero_le _
  have htask : (Cell.boot log).task = none := by
    simp only [Cell.boot]
    split <;> rfl
  refine ⟨hconf,⟨?_,fun _ hd => ?_,fun r hr => .inr (.inr (hroutes r hr))⟩,?_,fun _ _ r hr => .inr (hroutes r hr)⟩
  · rw [track_done]
    simp only [Cell.boot]
    cases priorValidated log <;> simp
  · rw [track_done] at hd
    have hnone : priorValidated log = none := by simpa using hd
    rw [track_top]
    simp only [Cell.boot,hnone]
    exact ⟨le_rfl,hmax⟩
  · intro t ht
    rw [htask] at ht
    cases ht

theorem boot_nodes {log : List Event}
    (hconf : ∀ n ∈ g.nodes, Conform n cfg.maxAttempts (nodeLog n.nodeId log))
    (hrec : ∀ n ∈ g.nodes, ∀ r ∈ dispatchedRoutes (nodeLog n.nodeId log), S r) : Nodes g cfg S (Sys.boot g log) := by
  intro n hn
  obtain ⟨notes,hlog,hnotes⟩ := nodeLog_boot_cut (g := g) n.nodeId_ne log
  rw [hlog]
  exact (boot_node (hconf n hn) (hrec n hn)).notes hnotes

/-! ### Lives and runs -/

theorem sweep_cells {F : Cell → Cell × List Body} {f : Sys → WorkNode → Cell × List Body}
    (hf : ∀ s n, f s n = F (s.cells n.nodeId)) {nodes : List WorkNode} (hnodup : (WorkGraph.nodeIds nodes).Nodup) :
    ∀ n ∈ nodes, (sweep f s nodes).cells n.nodeId = (F (s.cells n.nodeId)).1 := by
  induction nodes generalizing s with
  | nil => simp
  | cons m nodes ih =>
    obtain ⟨hm,hnodup⟩ := List.nodup_cons.mp hnodup
    have hother : ∀ n ∈ nodes, n.nodeId ≠ m.nodeId := fun n hn he => hm (he ▸ List.mem_map_of_mem hn)
    intro n hn
    rcases mem_cons.mp hn with rfl | hn
    · -- the rest of the sweep does not touch this cell
      have hrest : sweep f s (n :: nodes) = sweep f (s.put n.nodeId (f s n).1 (f s n).2) nodes := rfl
      rw [hrest]
      refine sweep_invariant (P := fun t => t.cells n.nodeId = (F (s.cells n.nodeId)).1) (fun t k hk ht => ?_) ?_
      · rw [put_cells_ne (hother k hk).symm]
        exact ht
      · rw [put_cells_self,hf]
    · have hrest := ih hnodup (s := s.put m.nodeId (f s m).1 (f s m).2) n hn
      rw [put_cells_ne (hother n hn)] at hrest
      exact hrest

theorem reap_running {c : Cell} {t : Task} (h : c.reap.1.task = some t) : t.status = .running := by
  simp only [Cell.reap] at h
  split at h
  · simp_all
  · split at h
    · simp_all
    · cases h
    · cases h
    · cases h

theorem cancelNode_task {c : Cell} {t : Task} (h : c.cancelNode.1.task = some t) :
    ∃ t', c.task = some t' ∧ t.status = t'.status := by
  simp only [Cell.cancelNode,Cell.block,Cell.cancelTask] at h
  split at h
  case h_5 => exact ⟨t,h,rfl⟩
  all_goals
    obtain ⟨t',ht',rfl⟩ := map_eq_some_iff.mp h
    exact ⟨t',ht',rfl⟩

theorem retryNode_task {c : Cell} {t : Task} (h : (c.retryNode cfg).1.task = some t) :
    ∃ t', c.task = some t' ∧ t.status = t'.status := by
  simp only [Cell.retryNode] at h
  split at h <;> exact ⟨t,h,rfl⟩

variable {f : WorkNode → Cell → Option (Cell × List Body)}

theorem driven_samePhase (h : s.driven g i f = some t) : t.phase = s.phase := by
  simp only [driven] at h
  split at h
  · cases h
  · obtain ⟨n,_,h⟩ := Option.bind_eq_some_iff.mp h
    obtain ⟨res,_,rfl⟩ := map_eq_some_iff.mp h
    rfl

theorem driven_phase (h : s.driven g i f = some t) : t.phase ≠ .polling := by
  rw [driven_samePhase h]
  intro hphase
  simp [driven,hphase] at h

variable {a : Live}

theorem liveStep_tidy (htidy : Tidy g s) (h : s.liveStep g cfg a = some t) : Tidy g t := by
  intro hpoll
  cases a with
  | wake deadline =>
    simp only [liveStep] at h
    split at h
    · cases h
    · cases h
      split at hpoll
      · cases hpoll
      · intro n hn u hu
        simp only [if_neg ‹_›] at hu
        rw [sweep_cells (f := Sys.reapOne) (F := Cell.reap) (fun _ _ => rfl) g.nodup n hn] at hu
        exact reap_running hu
  | control req =>
    simp only [liveStep] at h
    split at h
    · rename_i hphase
      cases h
      have hrun := htidy hphase
      have hput : ∀ i c bodies, (∀ u, c.task = some u → ∃ u', (s.cells i).task = some u' ∧ u.status = u'.status) →
          ∀ n ∈ g.nodes, ∀ u, ((s.put i c bodies).cells n.nodeId).task = some u → u.status = .running := by
        intro i c bodies hc n hn u hu
        by_cases hid : n.nodeId = i
        · subst hid
          rw [put_cells_self] at hu
          obtain ⟨u',hu',hst⟩ := hc u hu
          exact hst.trans (hrun n hn u' hu')
        · rw [put_cells_ne hid] at hu
          exact hrun n hn u hu
      simp only [Sys.handle] at hpoll ⊢
      split
      · rename_i hkind
        rw [hkind] at hpoll
        cases hpoll
      · split
        · exact hrun
        · exact hput _ _ _ fun u hu => cancelNode_task hu
      · split
        · exact hrun
        · exact hput _ _ _ fun u hu => retryNode_task hu
    · cases h
  | launch =>
    simp only [liveStep] at h
    split at h
    · cases h
      simp only [Sys.launch] at hpoll
      split at hpoll
      · cases hpoll
      · split at hpoll <;> cases hpoll
    · cases h
  | drive i reply =>
    simp only [liveStep] at h
    split at h
    · cases h
    · exact absurd hpoll (driven_phase h)
  | raised i during text =>
    simp only [liveStep] at h
    exact absurd hpoll (driven_phase h)
  | cancelled i =>
    simp only [liveStep] at h
    exact absurd hpoll (driven_phase h)
  | drained =>
    simp only [liveStep] at h
    split at h
    · cases h
      cases hpoll
    · cases h
  | merged ref =>
    simp only [liveStep] at h
    split at h
    · cases h
      simp only [Sys.integrated] at hpoll
      split at hpoll
      · cases hpoll
      · split at hpoll <;> cases hpoll
    · cases h
  | reviewed r =>
    simp only [liveStep] at h
    split at h
    · cases h
      simp only [Sys.reviewed] at hpoll
      split at hpoll
      · cases hpoll
      · split at hpoll <;> cases hpoll
    · cases h

theorem boot_tidy (log : List Event) : Tidy g (Sys.boot g log) := by
  intro _ n _ u hu
  simp only [Sys.boot,Cell.boot] at hu
  split at hu <;> cases hu

variable {during : Option (Live × ℕ)} {cut : List Event}

theorem cutLog_le (h : s.cutLog g cfg during = some cut) :
    ∃ u, (u = s ∨ ∃ a, s.liveStep g cfg a = some u) ∧ cut <+: u.log := by
  cases during with
  | none =>
    cases h
    exact ⟨s,.inl rfl,List.prefix_rfl⟩
  | some during =>
    obtain ⟨a,k⟩ := during
    obtain ⟨u,hu,rfl⟩ := map_eq_some_iff.mp h
    exact ⟨u,.inr ⟨a,hu⟩,List.take_prefix _ _⟩

theorem step_restart {reports : List Report} (h : s.step g cfg (.restart during reports) = some t) : ∃ cut,
    s.cutLog g cfg during = some cut ∧ t = Sys.boot g (cut ++ reports.map event) := by
  obtain ⟨cut,hcut,rfl⟩ := map_eq_some_iff.mp h
  exact ⟨cut,hcut,rfl⟩

theorem nodeLog_reports (hi : i ≠ "") (log : List Event) (reports : List Report) :
    nodeLog i (log ++ reports.map event) = nodeLog i log := by
  have hnone : nodeLog i (reports.map event) = [] := by
    induction reports with
    | nil => rfl
    | cons r reports ih => cases r <;> simpa [nodeLog,event,hi.symm] using ih
  rw [nodeLog_append,hnone,append_nil]

theorem liveStep_nodes (h : Nodes g cfg (fun _ => True) s) (htidy : Tidy g s)
    (hstep : s.liveStep g cfg a = some t) : Nodes g cfg (fun _ => True) t :=
  moves_nodes h (liveStep_moves htidy (fun _ _ _ _ _ _ _ _ _ => .inr trivial) (fun _ _ => trivial) hstep)

theorem cut_conform (h : Nodes g cfg (fun _ => True) s)
    (htidy : Tidy g s) (hcut : s.cutLog g cfg during = some cut) (reports : List Report) :
    ∀ n ∈ g.nodes, Conform n cfg.maxAttempts (nodeLog n.nodeId (cut ++ reports.map event)) := by
  intro n hn
  obtain ⟨u,hu,hpre⟩ := cutLog_le hcut
  have hconf : Conform n cfg.maxAttempts (nodeLog n.nodeId u.log) := by
    rcases hu with rfl | ⟨a,ha⟩
    · exact (h n hn).conform
    · exact (liveStep_nodes h htidy ha n hn).conform
  rw [nodeLog_reports n.nodeId_ne]
  exact hconf.cut (nodeLog_mono n.nodeId hpre)

theorem step_nodes {a : Act} (h : Nodes g cfg (fun _ => True) s ∧ Tidy g s) (hstep : s.step g cfg a = some t) :
    Nodes g cfg (fun _ => True) t ∧ Tidy g t := by
  obtain ⟨hn,htidy⟩ := h
  cases a with
  | live a => exact ⟨liveStep_nodes hn htidy hstep,liveStep_tidy htidy hstep⟩
  | restart during reports =>
    obtain ⟨cut,hcut,rfl⟩ := step_restart hstep
    exact ⟨boot_nodes (cut_conform hn htidy hcut reports) fun _ _ _ _ => trivial,boot_tidy _⟩

theorem init_nodes : Nodes g cfg (fun _ => True) (init g) ∧ Tidy g (init g) :=
  ⟨boot_nodes (fun _ _ => trivial) fun _ _ _ _ => trivial,boot_tidy []⟩

variable {as : List Act}

theorem reachable_nodes (h : exec (Sys.step g cfg) (init g) as = some s) :
    Nodes g cfg (fun _ => True) s ∧ Tidy g s :=
  exec_invariant (fun _ _ _ => step_nodes) h init_nodes

theorem reachable_conform (h : exec (Sys.step g cfg) (init g) as = some s) {n : WorkNode}
    (hn : n ∈ g.nodes) : Conform n cfg.maxAttempts (nodeLog n.nodeId s.log) :=
  ((reachable_nodes h).1 n hn).conform

def Sourced (g : WorkGraph) (log : List Event) : Prop :=
  ∀ e ∈ log, e.nodeId ∈ g.ids ∨ (e.nodeId = "" ∧ e.body.runLevel = true)

theorem move_sourced {R : Sys → WorkNode → Prop} {stop : Prop} (h : Sourced g s.log) (hm : Move g cfg R stop s t) :
    Sourced g t.log := by
  cases hm with
  | cell hn _ =>
    intro e he
    rcases mem_append.mp he with he | he
    · exact h e he
    · obtain ⟨b,_,rfl⟩ := mem_map.mp he
      exact .inl (List.mem_map_of_mem hn)
  | say hb =>
    intro e he
    rcases mem_append.mp he with he | he
    · exact h e he
    · obtain ⟨b,hbm,rfl⟩ := mem_map.mp he
      exact .inr ⟨rfl,hb b hbm⟩
  | phase => exact h

theorem boot_sourced {log : List Event} (h : Sourced g log) : Sourced g (Sys.boot g log).log := by
  intro e he
  simp only [Sys.boot,mem_append,mem_singleton,mem_map,List.mem_filter] at he
  rcases he with (((he | rfl) | he) | ⟨n,⟨hn,_⟩,rfl⟩) | rfl
  · exact h e he
  · exact .inr ⟨rfl,rfl⟩
  · split at he
    · cases mem_singleton.mp he
      exact .inr ⟨rfl,rfl⟩
    · cases he
  · exact .inl (List.mem_map_of_mem hn)
  · exact .inr ⟨rfl,rfl⟩

theorem reachable_sourced (h : exec (Sys.step g cfg) (init g) as = some s) : Sourced g s.log := by
  refine (exec_invariant (I := fun s => Tidy g s ∧ Sourced g s.log) (fun s a t hi hstep => ?_) h
    ⟨boot_tidy [],boot_sourced (by simp [Sourced])⟩).2
  obtain ⟨htidy,hsrc⟩ := hi
  have hlive : ∀ {a u}, s.liveStep g cfg a = some u → Sourced g u.log := fun ha =>
    moves_invariant (P := fun t => Sourced g t.log) (fun _ _ => move_sourced)
      (liveStep_moves (R := fun _ _ => True) htidy (fun _ _ _ _ _ _ _ => trivial)
        (fun _ _ => trivial) ha) hsrc
  cases a with
  | live a => exact ⟨liveStep_tidy htidy hstep,hlive hstep⟩
  | restart during reports =>
    obtain ⟨cut,hcut,rfl⟩ := step_restart hstep
    obtain ⟨u,hu,hpre⟩ := cutLog_le hcut
    have hu : Sourced g u.log := by
      rcases hu with rfl | ⟨a,ha⟩
      · exact hsrc
      · exact hlive ha
    refine ⟨boot_tidy _,boot_sourced fun e he => ?_⟩
    rcases mem_append.mp he with he | he
    · exact hu e (hpre.subset he)
    · obtain ⟨r,_,rfl⟩ := mem_map.mp he
      cases r <;> exact .inr ⟨rfl,rfl⟩

end
end Verdict.Runtime

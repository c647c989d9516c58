import Verdict.Runtime.Effects
import Verdict.Runtime.Projection
import Verdict.Runtime.Dependencies
import Verdict.Runtime.Attempts

/-! # The state transitions a life records

Drivers move their node through `_set`, which checks `TRANSITIONS`; the control handlers,
block propagation and the isolation of a crashed driver assign the state directly, whatever
the driver is suspended in. `history` lists what a life records for a node together with
the action that recorded it.
-/
namespace Verdict.Runtime
open Driver Controls Run
open Sys (liveStep)

/-- The states of the `node_state` events. -/
def recordedStates (log : List Body) : List NodeState :=
  log.filterMap (fun b => match b with
    | .nodeState state _ _ => some state
    | _ => none)

theorem recordedStates_append (l l' : List Body) :
    recordedStates (l ++ l') = recordedStates l ++ recordedStates l' := List.filterMap_append

/-- The `node_state` events of a node along a run of one life, each with the node's cell before
the action that recorded it, and that action. -/
def history (g : WorkGraph) (cfg : Config) (i : String) : Sys → List Live → List (Cell × Live × NodeState)
  | _, [] => []
  | s, a :: as => match s.liveStep g cfg a with
    | none => []
    | some t => (recordedStates ((nodeLog i t.log).drop (nodeLog i s.log).length)).map (fun state => (s.cells i,a,state))
        ++ history g cfg i t as

def Cell.crashed (c : Cell) : Bool := c.task.any fun t => match t.status with
  | .raised _ => true
  | _ => false

/-- A transition from `x` recorded by `a`: an edge of the table, a retry of a blocked node,
or the block of an unsettled node whose driver has crashed. -/
def Sanctioned (i : String) (c : Cell) (a : Live) (x y : NodeState) : Prop :=
  y ∈ transitions x ∨
  (x = .blocked ∧ y = .planned ∧ ∃ req, a = .control req ∧ req.kind = .retryNode ∧ req.nodeId = some i) ∨
  (y = .blocked ∧ x ≠ .validated ∧ x ≠ .blocked ∧ c.crashed = true ∧ ∃ deadline, a = .wake deadline)

/-- The loop does not find a crashed driver whose node is validated or blocked already. -/
def Isolates (i : String) (s : Sys) : Live → Prop
  | .wake _ => (s.cells i).crashed = true → (s.cells i).run.state ≠ .validated ∧ (s.cells i).run.state ≠ .blocked
  | _ => True

instance (i : String) (s : Sys) : DecidablePred (Isolates i s)
  | .wake _ => inferInstanceAs (Decidable (_ → _))
  | .control _ | .launch | .drive _ _ | .raised _ _ _ | .cancelled _ | .drained | .merged _ | .reviewed _ => isTrue trivial

/-- From `x` over the states of the list to `y`, by transitions in `P`. -/
inductive Path (P : NodeState → NodeState → Prop) : NodeState → List NodeState → NodeState → Prop
  | nil {x : NodeState} : Path P x [] x
  | cons {x y z : NodeState} {l : List NodeState} (h : P x y) (hp : Path P y l z) : Path P x (y :: l) z

theorem Path.single {P : NodeState → NodeState → Prop} {x y : NodeState} (h : P x y) : Path P x [y] y := .cons h .nil

theorem Path.mono {P Q : NodeState → NodeState → Prop} {x y : NodeState} {l : List NodeState}
    (h : Path P x l y) (hpq : ∀ x y, P x y → Q x y) : Path Q x l y := by
  induction h with
  | nil => exact .nil
  | cons h _ ih => exact .cons (hpq _ _ h) ih

section
variable {cfg : Config} {n : WorkNode} {t t' : Task} {run : NodeRun}

theorem perform_path {effs : List Eff} (h : effs.all Eff.plain = true) :
    Path (fun x y => y ∈ transitions x) run.state (recordedStates (perform run effs).events)
      (perform run effs).run.state := by
  induction effs generalizing run with
  | nil => exact .nil
  | cons e es ih =>
    obtain ⟨he,hes⟩ := Bool.and_eq_true_iff.mp (List.all_cons ▸ h)
    cases ha : e.apply run with
    | none =>
      simp only [perform,ha]
      exact .nil
    | some res =>
      obtain ⟨run',bodies⟩ := res
      simp only [perform,ha,recordedStates_append]
      have hrest : Path (fun x y => y ∈ transitions x) run'.state (recordedStates (perform run' es).events)
          (perform run' es).run.state := ih hes
      cases e with
      | set state sha =>
        obtain ⟨hlegal,rfl,rfl⟩ := apply_set ha
        exact .cons hlegal hrest
      | emit body =>
        cases ha
        cases body with
        | nodeState => cases he
        | _ => exact hrest
      | _ =>
        cases ha
        exact hrest

theorem drive_path {c c' : Cell} {reply : Reply} {bodies : List Body} (h : c.drive cfg n reply = some (c',bodies)) :
    Path (fun x y => y ∈ transitions x) c.run.state (recordedStates bodies) c'.run.state := by
  simp only [Cell.drive] at h
  split at h
  · cases h
  · split at h
    · cases h
    · obtain ⟨⟨effs,t'⟩,hscript,hres⟩ := Option.map_eq_some_iff.mp h
      cases hres
      exact perform_path (plain_script hscript)

theorem raised_path {c c' : Cell} {during : Option (Reply × ℕ)} {text : String} {bodies : List Body}
    (h : c.raised cfg n during text = some (c',bodies)) :
    Path (fun x y => y ∈ transitions x) c.run.state (recordedStates bodies) c'.run.state := by
  simp only [Cell.raised] at h
  split at h
  · cases h
  · split at h
    · cases h
    · split at h
      · cases h
        exact .nil
      · rename_i reply k
        obtain ⟨⟨effs,t'⟩,hscript,hres⟩ := Option.map_eq_some_iff.mp h
        cases hres
        have htake : (effs.take k).all Eff.plain = true := by
          rw [List.all_eq_true]
          intro e he
          exact List.all_eq_true.mp (plain_script hscript) e (List.mem_of_mem_take he)
        exact perform_path htake

end

/-- The recorded state is the state of the node, or the node was restored. -/
def InStep (x : NodeState) (c : Cell) : Prop := c.run.state = x ∨ (c.run.state = .validated ∧ c.task = none)

section
variable {cfg : Config} {n : WorkNode} {a : Live} {x : NodeState} {c c' : Cell} {bodies : List Body}

theorem reap_path {deadline : Bool} (h : InStep x c)
    (hok : c.crashed = true → c.run.state ≠ .validated ∧ c.run.state ≠ .blocked) :
    ∃ y, Path (Sanctioned n.nodeId c (.wake deadline)) x (recordedStates c.reap.2) y ∧ InStep y c.reap.1 := by
  simp only [Cell.reap]
  split
  · exact ⟨x,.nil,h⟩
  · rename_i t ht
    -- a restored node has no driver left to reap
    have hstate : c.run.state = x := h.resolve_right fun hs => by simp [hs.2] at ht
    split
    · exact ⟨x,.nil,h⟩
    · exact ⟨x,.nil,.inl hstate⟩
    · exact ⟨x,.nil,.inl hstate⟩
    · rename_i text hraised
      have hcrashed : c.crashed = true := by simp [Cell.crashed,ht,hraised]
      obtain ⟨hv,hb⟩ := hok hcrashed
      refine ⟨.blocked,.single (.inr (.inr ⟨rfl,hstate ▸ hv,hstate ▸ hb,hcrashed,deadline,rfl⟩)),.inl ?_⟩
      simp [hv,hb]

theorem Touch.path (h : Touch cfg n c a c' bodies) (hx : InStep x c)
    (hok : ∀ deadline, a = .wake deadline → c.crashed = true → c.run.state ≠ .validated ∧ c.run.state ≠ .blocked) :
    ∃ y, Path (Sanctioned n.nodeId c a) x (recordedStates bodies) y ∧ InStep y c' := by
  have hopen : c.run.state ≠ .validated → c.run.state = x := fun hv => hx.resolve_right fun hs => hv hs.1
  cases h with
  | kept => exact ⟨x,.nil,hx⟩
  | reaped => exact reap_path hx (hok _ rfl)
  | abandoned =>
    obtain ⟨y,hp,hy⟩ := reap_path hx (hok _ rfl)
    refine ⟨y,hp,hy.imp_right fun hs => ⟨hs.1,?_⟩⟩
    simp [Cell.cancelTask,hs.2]
  | cancelRun =>
    simp only [Cell.cancelRun,Cell.cancelTask]
    cases hs : c.run.state with
    | planned =>
      rw [← hopen (by simp [hs]),hs]
      exact ⟨.blocked,.single (.inl (by simp [transitions])),.inl rfl⟩
    | admitted | dispatched | running =>
      rw [← hopen (by simp [hs]),hs]
      exact ⟨.terminalFailure,.single (.inl (by simp [transitions])),.inl rfl⟩
    | validated =>
      refine ⟨x,.nil,hx.imp_right fun hx => ⟨hx.1,?_⟩⟩
      simp [hx.2]
    | _ =>
      refine ⟨x,.nil,.inl (hopen (by simp [hs]))⟩
  | cancelNode =>
    simp only [Cell.cancelNode,Cell.block,Cell.cancelTask]
    cases hs : c.run.state with
    | planned =>
      rw [← hopen (by simp [hs]),hs]
      exact ⟨.blocked,.single (.inl (by simp [transitions])),.inl rfl⟩
    | admitted | dispatched | running =>
      rw [← hopen (by simp [hs]),hs]
      exact ⟨.blocked,.cons (.inl (by simp [transitions])) (.single (.inl (by simp [transitions]))),.inl rfl⟩
    | _ => exact ⟨x,.nil,hx⟩
  | retryNode hkind hid =>
    simp only [Cell.retryNode]
    split
    · rename_i hretry
      refine ⟨.planned,.single ?_,.inl rfl⟩
      rcases hretry.1 with hs | hs
      · rw [← hopen (by simp [hs]),hs]
        exact .inl (by simp [transitions])
      · rw [← hopen (by simp [hs]),hs]
        exact .inr (.inl ⟨rfl,rfl,_,rfl,hkind,hid⟩)
    · exact ⟨x,.nil,hx⟩
  | blocked hplanned =>
    rw [← hopen (by simp [hplanned]),hplanned]
    exact ⟨.blocked,.single (.inl (by simp [transitions])),.inl rfl⟩
  | spawned hplanned => exact ⟨x,.nil,.inl (hopen (by simp [hplanned]))⟩
  | drive h =>
    obtain ⟨t,_,ht,_⟩ := drive_cases h
    have hstate : c.run.state = x := hx.resolve_right fun hs => by simp [hs.2] at ht
    exact ⟨_,hstate ▸ (drive_path h).mono fun _ _ => .inl,.inl rfl⟩
  | raised h =>
    obtain ⟨t,_,ht,_⟩ := raised_cases h
    have hstate : c.run.state = x := hx.resolve_right fun hs => by simp [hs.2] at ht
    exact ⟨_,hstate ▸ (raised_path h).mono fun _ _ => .inl,.inl rfl⟩
  | cancelled h =>
    obtain ⟨t,ht,_,_,hrun,rfl,_⟩ := cancelled_cases h
    have hstate : c.run.state = x := hx.resolve_right fun hs => by simp [hs.2] at ht
    exact ⟨x,.nil,.inl (by rw [hrun]; exact hstate)⟩

end

section
variable {g : WorkGraph} {cfg : Config} {n : WorkNode} {s u : Sys} {as : List Live}

/-- `q` may be recorded behind `p`. -/
def Follows (i : String) (p q : Cell × Live × NodeState) : Prop := Sanctioned i q.1 q.2.1 p.2.2 q.2.2

theorem Path.isChain {i : String} {c : Cell} {a : Live} {x y : NodeState} {l : List NodeState}
    {rest : List (Cell × Live × NodeState)} (h : Path (Sanctioned i c a) x l y)
    (hrest : ∀ q : Cell × Live × NodeState, q.2.2 = y → List.IsChain (Follows i) (q :: rest)) :
    ∀ p : Cell × Live × NodeState, p.2.2 = x → List.IsChain (Follows i) (p :: (l.map (fun state => (c,a,state)) ++ rest)) := by
  induction h with
  | nil => exact hrest
  | cons hxy _ ih =>
    intro p hp
    refine List.isChain_cons_cons.mpr ⟨?_,ih hrest _ rfl⟩
    rw [Follows,hp]
    exact hxy

theorem history_isChain {x : NodeState} (h : exec (liveStep g cfg) s as = some u)
    (hok : AllSteps (liveStep g cfg) (Isolates n.nodeId) s as) (hn : n ∈ g.nodes)
    (hx : InStep x (s.cells n.nodeId)) (p : Cell × Live × NodeState) (hp : p.2.2 = x) :
    List.IsChain (Follows n.nodeId) (p :: history g cfg n.nodeId s as) := by
  induction as generalizing s x p with
  | nil => exact .singleton p
  | cons a as ih =>
    obtain ⟨t,ht,hrest⟩ := exec_cons h
    obtain ⟨bodies,hlog,htouch⟩ := liveStep_touch ht hn
    obtain ⟨y,hpath,hy⟩ := htouch.path hx (by rintro deadline rfl; exact hok.1)
    simp only [history,ht,hlog,List.drop_left]
    exact hpath.isChain (fun q hq => ih hrest (hok.2 t ht) hy q hq) p hp

theorem history_states (h : exec (liveStep g cfg) s as = some u) (hn : n ∈ g.nodes) : ∃ bodies, nodeLog
    n.nodeId u.log = nodeLog n.nodeId s.log ++ bodies ∧ (history g cfg n.nodeId s as).map (fun q => q.2.2) =
    recordedStates bodies := by
  induction as generalizing s with
  | nil =>
    cases h
    exact ⟨[],by simp,rfl⟩
  | cons a as ih =>
    obtain ⟨t,ht,hrest⟩ := exec_cons h
    obtain ⟨bodies,hlog,_⟩ := liveStep_touch ht hn
    obtain ⟨bodies',hlog',hstates⟩ := ih hrest
    refine ⟨bodies ++ bodies',by rw [hlog',hlog,List.append_assoc],?_⟩
    simp [history,ht,hlog,hstates,recordedStates_append,Function.comp_def]

theorem boot_inStep (past : List Event) (i : String) : InStep .planned ((Sys.boot g past).cells i) := by
  simp only [Sys.boot,Cell.boot]
  split
  · exact .inr ⟨rfl,rfl⟩
  · exact .inl rfl

/-- In every life, on whatever run directory it was started, in which no crashed driver of the
node is found when the node is validated or blocked already: the recorded states begin at
`PLANNED` and follow the table, but for retries of the blocked node and its crashed drivers. -/
theorem recorded_transitions_sanctioned {past : List Event}
    (h : exec (liveStep g cfg) (Sys.boot g past) as = some s)
    (hok : AllSteps (liveStep g cfg) (Isolates n.nodeId) (Sys.boot g past) as) (hn : n ∈ g.nodes) :
    (history g cfg n.nodeId (Sys.boot g past) as).map (fun q => q.2.2)
      = recordedStates ((nodeLog n.nodeId s.log).drop (nodeLog n.nodeId (Sys.boot g past).log).length) ∧
    ∀ c a, List.IsChain (Follows n.nodeId) ((c,a,.planned) :: history g cfg n.nodeId (Sys.boot g past) as) := by
  obtain ⟨bodies,hlog,hstates⟩ := history_states h hn
  refine ⟨by rw [hstates,hlog,List.drop_left],fun c a => ?_⟩
  exact history_isChain h hok hn (boot_inStep past _) _ rfl

end

def retryAlphaNow : ControlRequest := ⟨"1f2e3d4c5b6a",.retryNode,some "alpha","2026-01-01T00:10:00+00:00","operator"⟩

/-- `alpha` fails an attempt, finds no other route and is blocked. -/
def strandAlpha : List Live :=
  [.launch,.drive "alpha" .started,.drive "alpha" (.route "glm" false),.drive "alpha" (.slot false),
    .drive "alpha" (.prepared false true .matched),.drive "alpha" (.executed false false ⟨.other "timeout",.reroute,0,.none⟩),
    .drive "alpha" (.salvaged false),.drive "alpha" (.removed true),.drive "alpha" (.noRoute false "pool empty"),
    .wake false]

/-- The retried attempt crashes while its worker runs. -/
def crashAlpha : List Live :=
  strandAlpha ++ [.control retryAlphaNow] ++ strandAlpha.take 5 ++ [.raised "alpha" none "OSError",.wake false]

theorem recorded_transitions_sanctioned_retry :
    ∃ s, exec (liveStep soloGraph {}) (Sys.boot soloGraph []) crashAlpha = some s ∧
      (history soloGraph {} "alpha" (Sys.boot soloGraph []) crashAlpha).map (fun q => q.2.2) =
        recordedStates (nodeLog "alpha" s.log) ∧
      List.IsChain (Follows "alpha") (((Sys.boot soloGraph []).cells "alpha",.launch,.planned) ::
        history soloGraph {} "alpha" (Sys.boot soloGraph []) crashAlpha) := by
  obtain ⟨s,hs,_⟩ : ∃ s ∈ exec (liveStep soloGraph {}) (Sys.boot soloGraph []) crashAlpha,
      s.phase = .polling := by decide +kernel
  have hchain := recorded_transitions_sanctioned (n := alpha) hs (by decide +kernel) (by decide)
  exact ⟨s,hs,hchain.1,hchain.2 _ .launch⟩

/-- An accepted retry records `BLOCKED` to `PLANNED`, and a driver that crashes while its
worker runs records `RUNNING` to `BLOCKED`. -/
theorem recorded_transitions_off_table :
    (∃ s ∈ exec (liveStep soloGraph {}) (Sys.boot soloGraph []) (strandAlpha ++ [.control retryAlphaNow]),
      ¬ List.IsChain (fun x y => y ∈ transitions x) (.planned :: recordedStates (nodeLog "alpha" s.log))) ∧
    ∃ s ∈ exec (liveStep soloGraph {}) (Sys.boot soloGraph [])
        (strandAlpha.take 5 ++ [.raised "alpha" none "OSError",.wake false]),
      ¬ List.IsChain (fun x y => y ∈ transitions x) (.planned :: recordedStates (nodeLog "alpha" s.log)) := by
  decide +kernel

end Verdict.Runtime

import Verdict.Runtime.Settlement

/-! # How a run concludes

From the moment the loop is left for `_conclude` no task is pending and every node is validated,
so only the conclusion itself writes to the log. A completed run thus ends in a fixed sequence of
events, and its `implementers` are those the reviewer was given. `ok` is what a reviewer
guarantees about the route of a passed review.
-/
namespace Verdict.Runtime
open Run
open Sys (liveStep put say)

structure Quiet (g : WorkGraph) (s : Sys) : Prop where
  tasks : ∀ n ∈ g.nodes, (s.cells n.nodeId).task = none
  validated : s.settledAll g

def Merged (log : List Event) : Prop :=
  ∃ pre notes, log = pre ++ ⟨"",.barrier "integration" true⟩ :: notes ∧ ∀ e ∈ notes, ∃ type, e = ⟨"",.note type⟩

def Accepted (routeId : String) (log : List Event) : Prop :=
  ∃ before, Merged before ∧ log = before ++ [⟨"",.review .pass routeId 0⟩,⟨"",.runFinished .complete⟩]

def Concluded (g : WorkGraph) (cfg : Config) (ok : String → List String → Prop) (s : Sys) : Prop :=
  match s.phase with
  | .concluding => Quiet g s
  | .reviewing _ => Quiet g s ∧ Merged s.log
  | .finished .complete => Quiet g s ∧
      (cfg.policy.requireReview = true → ∃ routeId, Accepted routeId s.log ∧ ok routeId (s.implementers g))
  | _ => True

section
variable {g : WorkGraph} {cfg : Config} {ok : String → List String → Prop} {s t : Sys}

theorem Merged.notes {log : List Event} (h : Merged log) (types : List Note) :
    Merged (log ++ types.map fun type => ⟨"",.note type⟩) := by
  obtain ⟨pre,notes,rfl,hnotes⟩ := h
  refine ⟨pre,notes ++ types.map fun type => ⟨"",.note type⟩,by simp,fun e he => ?_⟩
  rcases List.mem_append.mp he with he | he
  · exact hnotes e he
  · obtain ⟨type,_,rfl⟩ := List.mem_map.mp he
    exact ⟨type,rfl⟩

variable {i : String} {f : WorkNode → Cell → Option (Cell × List Body)}

theorem Quiet.driven (h : Quiet g s)
    (hf : ∀ n c, c.task = none → f n c = none) : s.driven g i f = none := by
  simp only [Sys.driven]
  split
  · rfl
  · cases hn : WorkGraph.node? g.nodes i with
    | none => rfl
    | some n =>
      obtain ⟨hmem,rfl⟩ := WorkGraph.node?_some hn
      simp [hf n _ (h.tasks n hmem)]

theorem concluded_driven (h : Concluded g cfg ok s)
    (hf : ∀ n c, c.task = none → f n c = none) (hstep : s.driven g i f = some t) : Concluded g cfg ok t := by
  have hphase := driven_samePhase hstep
  have hnotQuiet : ¬ Quiet g s := by
    intro hq
    rw [hq.driven hf] at hstep
    cases hstep
  simp only [Concluded] at h ⊢
  rw [hphase]
  split at h
  · exact absurd h hnotQuiet
  · exact absurd h.1 hnotQuiet
  · exact absurd h.1 hnotQuiet
  · trivial

theorem integrated_concluded (ref : String) (h : Quiet g s) : Concluded g cfg ok (s.integrated g cfg ref) := by
  simp only [Sys.integrated]
  split
  · rename_i hreview
    exact ⟨⟨h.tasks,h.validated⟩,fun hr => absurd hr hreview⟩
  · split
    · trivial
    · exact ⟨⟨h.tasks,h.validated⟩,s.log ++ [⟨"",.integrate (s.commits g) ref⟩],[],by simp [say],by simp⟩

theorem reviewed_concluded {level : Level} {r : ReviewResult} (hq : Quiet g s) (hm : Merged s.log)
    (hr : r.passed → ok r.routeId (s.implementers g)) : Concluded g cfg ok (s.reviewed level r) := by
  have hround : Merged (s.say [.note .controller]).log := hm.notes [.controller]
  simp only [Sys.reviewed]
  split
  · exact ⟨⟨hq.tasks,hq.validated⟩,hround⟩
  · split
    · rename_i hpassed
      refine ⟨⟨hq.tasks,hq.validated⟩,fun _ => ⟨r.routeId,⟨_,hround.notes (List.replicate r.attempts .reviewAttempt),?_⟩,
        hr hpassed⟩⟩
      simp [Sys.finish,say,hpassed.1,hpassed.2]
    · trivial

theorem launch_concluded : Concluded g cfg ok (s.launch g) := by
  simp only [Sys.launch]
  split
  · trivial
  · rename_i hnone
    split
    · rename_i hall
      exact ⟨fun n hn => not_not.mp fun hne => hnone ⟨n,hn,hne⟩,hall⟩
    · trivial

theorem liveStep_concluded {a : Live} (h : Concluded g cfg ok s)
    (hr : ∀ r, a = .reviewed r → r.passed → ok r.routeId (s.implementers g))
    (hstep : s.liveStep g cfg a = some t) : Concluded g cfg ok t := by
  cases a with
  | wake deadline =>
    simp only [liveStep] at hstep
    split at hstep
    · cases hstep
    · cases hstep
      split <;> trivial
  | control req =>
    simp only [liveStep] at hstep
    split at hstep
    · rename_i hphase
      cases hstep
      simp only [Sys.handle]
      split
      · trivial
      · split <;> simp [Concluded,say,put,hphase]
      · split <;> simp [Concluded,say,put,hphase]
    · cases hstep
  | launch =>
    simp only [liveStep] at hstep
    split at hstep
    · cases hstep
      exact launch_concluded
    · cases hstep
  | drive i reply =>
    simp only [liveStep] at hstep
    split at hstep
    · cases hstep
    · exact concluded_driven h (fun n c hc => by simp [Cell.drive,hc]) hstep
  | raised i during text =>
    simp only [liveStep] at hstep
    exact concluded_driven h (fun n c hc => by simp [Cell.raised,hc]) hstep
  | cancelled i =>
    simp only [liveStep] at hstep
    exact concluded_driven h (fun n c hc => by simp [Cell.cancelled,hc]) hstep
  | drained =>
    simp only [liveStep] at hstep
    split at hstep
    · cases hstep
      trivial
    · cases hstep
  | merged ref =>
    simp only [liveStep] at hstep
    split at hstep
    · rename_i hphase
      cases hstep
      simp only [Concluded,hphase] at h
      exact integrated_concluded ref h
    · cases hstep
  | reviewed r =>
    simp only [liveStep] at hstep
    split at hstep
    · rename_i hphase
      cases hstep
      simp only [Concluded,hphase] at h
      exact reviewed_concluded h.1 h.2 (hr r rfl)
    · cases hstep

theorem step_concluded {a : Act} (h : Concluded g cfg ok s)
    (hr : ∀ r, a = .live (.reviewed r) → r.passed → ok r.routeId (s.implementers g))
    (hstep : s.step g cfg a = some t) : Concluded g cfg ok t := by
  cases a with
  | live a => exact liveStep_concluded h (fun r ha => hr r (ha ▸ rfl)) hstep
  | restart during reports =>
    obtain ⟨cut,_,rfl⟩ := step_restart hstep
    trivial

theorem reachable_concluded {as : List Act} (h : exec (Sys.step g cfg) (Sys.init g) as = some s) :
    Concluded g cfg (fun _ _ => True) s :=
  exec_invariant (fun _ _ _ hi => step_concluded hi fun _ _ _ => trivial) h trivial

end

def acceptRun (routeId : String) : List Act :=
  [.live .launch,.live (.merged "m1"),.live (.reviewed ⟨.pass,routeId,0,"",1⟩)]

end Verdict.Runtime

import Verdict.Runtime.Histories
import Verdict.Supervisor.Watch

/-! # Supervisor and receipt on success

The supervisor takes the verdict of the run from the log, where the runtime writes it
before the receipt exists. It agrees with the receipt in the supervised runs in which no
poll sees a completed run whose receipt is still to be written, and every completed run is
one that its receipt confirms.
-/
namespace Verdict.Supervisor
open Verdict.Runtime Verdict.Receipt Verdict.Run
open List (append_assoc prefix_append prefix_rfl)
open Sys (init liveStep put say)

def Confirmed (g : WorkGraph) (cfg : Config) (log : List Event) : Prop :=
  cfg.policy.requireReview = true ∧ (∃ n ∈ g.nodes, n.kind = .implement ∨ n.kind = .integrate) ∧ Confirmable g log

instance (g : WorkGraph) (cfg : Config) (log : List Event) : Decidable (Confirmed g cfg log) :=
  inferInstanceAs (Decidable (_ ∧ _))

def Orderly (g : WorkGraph) (cfg : Config) (w : World) : Tick → Prop
  | .poll clock => clock.deadline = false → w.finished = some .complete → w.stage.written ≠ none
  | .wrote _ _ => w.stage = .reporting .complete → Confirmed g cfg w.file
  | _ => True

instance (g : WorkGraph) (cfg : Config) (w : World) : DecidablePred (Orderly g cfg w)
  | .poll clock => inferInstanceAs (Decidable (clock.deadline = false → _))
  | .wrote _ _ => inferInstanceAs (Decidable (w.stage = _ → _))
  | .live _ | .returned | .overrode | .rewrote _ | .crashed _ | .stop _ _ _ => isTrue trivial

section
variable {g : WorkGraph} {cfg : Config} {s t : Sys}

theorem claimedOutcome_append (l l' : List Event) :
    claimedOutcome (l ++ l') = (claimedOutcome l').or (claimedOutcome l) := by
  simp only [claimedOutcome,List.filterMap_append,List.getLast?_append]

theorem claimedOutcome_finish (s : Sys) (outcome : RunOutcome) :
    claimedOutcome (s.finish outcome).log = some outcome := by
  simp [claimedOutcome,Sys.finish,say]

theorem claimedOutcome_drop {log : List Event} {k : ℕ} {outcome : RunOutcome}
    (h : claimedOutcome (log.drop k) = some outcome) : claimedOutcome log = some outcome := by
  rw [← List.take_append_drop k log,claimedOutcome_append,h,Option.some_or]

theorem claimedOutcome_note (log : List Event) (type : Note) :
    claimedOutcome (log ++ [Report.event (.note type)]) = claimedOutcome log := by
  rw [claimedOutcome_append]
  rfl

variable {i : String} {f : WorkNode → Cell → Option (Cell × List Body)}

theorem driven_claimed (hnodes : Nodes g cfg (fun _ => True) t) (h : s.driven g i f = some t) :
    claimedOutcome t.log = claimedOutcome s.log := by
  simp only [Sys.driven] at h
  split at h
  · cases h
  · obtain ⟨n,hn,h⟩ := Option.bind_eq_some_iff.mp h
    obtain ⟨⟨c,bodies⟩,_,rfl⟩ := Option.map_eq_some_iff.mp h
    obtain ⟨hmem,rfl⟩ := WorkGraph.node?_some hn
    have hconf := (hnodes n hmem).conform
    have hnone : claimedOutcome (bodies.map (Event.mk n.nodeId)) = none := by
      simp only [claimedOutcome,List.getLast?_eq_none_iff,List.filterMap_eq_nil_iff,List.mem_map]
      rintro _ ⟨b,hb,rfl⟩
      cases b with
      | runFinished outcome =>
        have hlog : Body.runFinished outcome ∈ nodeLog n.nodeId (s.put n.nodeId c bodies).log :=
          mem_nodeLog.mpr (List.mem_append_right _ (List.mem_map_of_mem hb))
        obtain ⟨pre,post,hsplit⟩ := List.append_of_mem hlog
        rw [hsplit] at hconf
        exact hconf.admits.elim
      | _ => rfl
    rw [put,claimedOutcome_append,hnone,Option.none_or]

def Verdicted (s : Sys) : Prop := ∀ outcome, s.phase = .finished outcome → claimedOutcome s.log = some outcome

theorem verdicted_driven (h : Verdicted s)
    (hnodes : Nodes g cfg (fun _ => True) t) (hstep : s.driven g i f = some t) : Verdicted t := by
  intro outcome hphase
  rw [driven_claimed hnodes hstep]
  exact h outcome ((driven_samePhase hstep).symm.trans hphase)

theorem verdicted_finish (s : Sys) (outcome : RunOutcome) : Verdicted (s.finish outcome) := by
  intro outcome' hphase
  cases hphase
  exact claimedOutcome_finish s outcome

theorem verdicted_open (h : ∀ outcome, s.phase ≠ .finished outcome) : Verdicted s :=
  fun outcome hphase => absurd hphase (h outcome)

theorem liveStep_verdicted {a : Live} (h : Verdicted s) (hnodes : Nodes g cfg (fun _ => True) t)
    (hstep : s.liveStep g cfg a = some t) : Verdicted t := by
  cases a with
  | wake deadline =>
    simp only [liveStep] at hstep
    split at hstep
    · cases hstep
    · cases hstep
      split
      · exact verdicted_finish _ _
      · exact verdicted_open (by simp)
  | control req =>
    simp only [liveStep] at hstep
    split at hstep
    · rename_i hphase
      cases hstep
      refine verdicted_open fun outcome => ?_
      simp only [Sys.handle]
      split
      · simp
      · split <;> simp [say,put,hphase]
      · split <;> simp [say,put,hphase]
    · cases hstep
  | launch =>
    simp only [liveStep] at hstep
    split at hstep
    · cases hstep
      simp only [Sys.launch]
      split
      · exact verdicted_open (by simp)
      · split
        · exact verdicted_open (by simp)
        · exact verdicted_finish _ _
    · cases hstep
  | drive i reply =>
    simp only [liveStep] at hstep
    split at hstep
    · cases hstep
    · exact verdicted_driven h hnodes hstep
  | raised i during text =>
    simp only [liveStep] at hstep
    exact verdicted_driven h hnodes hstep
  | cancelled i =>
    simp only [liveStep] at hstep
    exact verdicted_driven h hnodes hstep
  | drained =>
    simp only [liveStep] at hstep
    split at hstep
    · cases hstep
      exact verdicted_finish _ _
    · cases hstep
  | merged ref =>
    simp only [liveStep] at hstep
    split at hstep
    · cases hstep
      simp only [Sys.integrated]
      split
      · exact verdicted_finish _ _
      · split
        · exact verdicted_finish _ _
        · exact verdicted_open (by simp)
    · cases hstep
  | reviewed r =>
    simp only [liveStep] at hstep
    split at hstep
    · cases hstep
      simp only [Sys.reviewed]
      split
      · exact verdicted_open (by simp)
      · split <;> exact verdicted_finish _ _
    · cases hstep

theorem reachable_verdicted {as : List Act} (h : exec (Sys.step g cfg) (init g) as = some s) : Verdicted s := by
  refine (exec_invariant (I := fun s => (Nodes g cfg (fun _ => True) s ∧ Tidy g s) ∧ Verdicted s)
    (fun s a t hi hstep => ?_) h ⟨init_nodes,verdicted_open (by simp [init,Sys.boot])⟩).2
  have hnodes := step_nodes hi.1 hstep
  refine ⟨hnodes,?_⟩
  cases a with
  | live a => exact liveStep_verdicted hi.2 hnodes.1 hstep
  | restart during reports =>
    obtain ⟨cut,_,rfl⟩ := step_restart hstep
    exact verdicted_open (by simp [Sys.boot])

def Resumable (g : WorkGraph) (cfg : Config) (file : List Event) : Prop :=
  ∀ reports : List Report, Reaches (Sys.step g cfg) (init g) (Sys.boot g (file ++ reports.map Report.event))

theorem resumable_cut {during : Option (Live × ℕ)} {cut : List Event}
    (h : Reaches (Sys.step g cfg) (init g) s) (hcut : s.cutLog g cfg during = some cut) : Resumable g cfg cut :=
  fun reports => h.tail (a := .restart during reports) (by simp [Sys.step,hcut])

theorem Resumable.report {file : List Event} (h : Resumable g cfg file) (reports : List Report) :
    Resumable g cfg (file ++ reports.map Report.event) := by
  intro more
  rw [append_assoc,← List.map_append]
  exact h (reports ++ more)

theorem Resumable.boot {file : List Event} (h : Resumable g cfg file) :
    Reaches (Sys.step g cfg) (init g) (Sys.boot g file) := by
  have hboot := h []
  rwa [List.map_nil,List.append_nil] at hboot

def Confirms (receipt : Option RunReceipt) : Prop := ∃ r, receipt = some r ∧ r.completionVerdict.1 = .complete

structure SupervisionInv (g : WorkGraph) (cfg : Config) (w : World) : Prop where
  life : Reaches (Sys.step g cfg) (init g) w.sys
  resumable : Resumable g cfg w.file
  running : w.stage = .running → w.file = w.sys.log
  reporting : ∀ outcome, w.stage = .reporting outcome → w.file = w.sys.log ∧ w.sys.phase = .finished outcome
  written : (∀ state, w.mode ≠ .returned state) → ∀ outcome, w.stage.written = some outcome →
    claimedOutcome w.file = some outcome
  confirmed : w.stage.written = some .complete → w.stage = .done .complete ∧ Confirms w.receipt
  seen : w.mode = .stopping (.finished .complete) ∨ w.mode = .returned .complete → w.stage = .done .complete

end

section
variable {g : WorkGraph} {cfg : Config} {maxRestarts : ℕ} {w v : World}

theorem cutLog_grows {s : Sys} {during : Option (Live × ℕ)} {cut : List Event} (htidy : Tidy g s)
    (h : s.cutLog g cfg during = some cut) : s.log <+: cut := by
  cases during with
  | none =>
    cases h
    exact prefix_rfl
  | some d =>
    obtain ⟨a,k⟩ := d
    obtain ⟨t,ht,rfl⟩ := Option.map_eq_some_iff.mp h
    obtain ⟨more,hmore⟩ := liveStep_grows htidy ht
    rw [← hmore,List.take_length_add_append]
    exact prefix_append _ _

theorem wrote_cases {outcome : RunOutcome} {replaced ok : Bool} (h : w.wrote g outcome replaced ok = some v) :
    ∃ log receipt stage, w.file <+: log ∧ v = {w with file := log, receipt := receipt, stage := stage} := by
  cases replaced <;> cases ok <;> simp only [World.wrote] at h <;> cases h
  · exact ⟨_,_,.dead,prefix_append _ _,rfl⟩
  · exact ⟨_,_,.dead,prefix_append _ _,rfl⟩
  · exact ⟨_,_,_,prefix_rfl,rfl⟩

def Tick.isStop : Tick → Bool
  | .stop _ _ _ => true
  | _ => false

def Tick.isPoll : Tick → Bool
  | .poll _ => true
  | _ => false

/-- A tick of the controller appends to the log and leaves the supervisor where it is. -/
theorem step_cases {t : Tick} (h : World.step g cfg maxRestarts w t = some v) :
    (w.stage.alive = true ∧ t.isStop = false ∧ t.isPoll = false ∧ ∃ sys log receipt stage, w.file <+: log ∧
      v = {w with sys := sys, file := log, receipt := receipt, stage := stage}) ∨
    (∃ clock, t = .poll clock ∧ w.mode = .watching ∧ v = w.poll clock) ∨
    ∃ watch cleanup late spawned, t = .stop cleanup late spawned ∧ w.mode = .stopping watch ∧
      v = w.stop g maxRestarts watch late spawned cleanup := by
  cases t with
  | live a =>
    simp only [World.step] at h
    split at h
    · next hstage =>
      obtain ⟨s,hs,rfl⟩ := Option.map_eq_some_iff.mp h
      exact .inl ⟨by rw [hstage]; rfl,rfl,rfl,s,_,w.receipt,w.stage,prefix_append _ _,rfl⟩
    · cases h
  | wrote replaced ok =>
    simp only [World.step] at h
    split at h
    · next hstage =>
      obtain ⟨log,receipt,stage,hlog,rfl⟩ := wrote_cases h
      exact .inl ⟨by rw [hstage]; rfl,rfl,rfl,w.sys,log,receipt,stage,hlog,rfl⟩
    · cases h
  | returned | overrode | rewrote =>
    simp only [World.step] at h
    split at h
    · next hstage =>
      cases h
      exact .inl ⟨by simp [*,Stage.alive],rfl,rfl,w.sys,_,_,_,by simp [World.report],rfl⟩
    · cases h
  | crashed during =>
    cases hstage : w.stage with
    | running =>
      simp only [World.step,hstage] at h
      obtain ⟨cut,hcut,rfl⟩ := Option.map_eq_some_iff.mp h
      exact .inl ⟨rfl,rfl,rfl,w.sys,_,w.receipt,.dead,prefix_append _ _,rfl⟩
    | reporting | overriding | rewriting =>
      simp only [World.step,hstage] at h
      cases h
      exact .inl ⟨rfl,rfl,rfl,w.sys,w.file,w.receipt,.dead,prefix_rfl,rfl⟩
    | done | dead => simp [World.step,hstage] at h
  | poll clock =>
    simp only [World.step] at h
    split at h
    · next hmode =>
      cases h
      exact .inr (.inl ⟨clock,rfl,hmode,rfl⟩)
    · cases h
  | stop cleanup late spawned =>
    simp only [World.step] at h
    split at h
    · next watch hmode =>
      cases h
      exact .inr (.inr ⟨watch,cleanup,late,spawned,rfl,hmode,rfl⟩)
    · cases h

theorem step_returned {t : Tick} {state : State} (hmode : w.mode = .returned state) (h : World.step g cfg maxRestarts w t = some v) :
    w.stage.alive = true ∧ t.isStop = false ∧ t.isPoll = false ∧ v.mode = .returned state := by
  obtain ⟨ha,hstop,hpoll,sys,log,receipt,stage,-,rfl⟩ | ⟨clock,-,hw,-⟩ | ⟨watch,cleanup,late,spawned,-,hw,-⟩ := step_cases h
  · exact ⟨ha,hstop,hpoll,hmode⟩
  · cases hmode.symm.trans hw
  · cases hmode.symm.trans hw

namespace SupervisionInv

theorem ofRunning (hlife : Reaches (Sys.step g cfg) (init g) w.sys) (hstage : w.stage = .running)
    (hfile : w.file = w.sys.log)
    (hmode : ¬ (w.mode = .stopping (.finished .complete) ∨ w.mode = .returned .complete)) :
    SupervisionInv g cfg w := by
  refine ⟨hlife,?_,fun _ => hfile,?_,?_,?_,fun h => absurd h hmode⟩
  · rw [hfile]
    have hcut : w.sys.cutLog g cfg none = some w.sys.log := rfl
    exact resumable_cut hlife hcut
  all_goals simp [hstage,Stage.written]

theorem unseen (h : SupervisionInv g cfg w) (hstage : w.stage ≠ .done .complete) :
    ¬ (w.mode = .stopping (.finished .complete) ∨ w.mode = .returned .complete) := fun hs => hstage (h.seen hs)

theorem ofDead (h : SupervisionInv g cfg w) (hlife : v.sys = w.sys) (hfile : Resumable g cfg v.file)
    (hstage : v.stage = .dead) (hmode : ¬ (v.mode = .stopping (.finished .complete) ∨ v.mode = .returned .complete)) :
    SupervisionInv g cfg v := by
  refine ⟨hlife ▸ h.life,hfile,?_,?_,?_,?_,fun hs => absurd hs hmode⟩
  all_goals simp [hstage,Stage.written]

variable {mode : Mode}

theorem note (h : SupervisionInv g cfg w) (hstage : w.stage.alive = false)
    (hmode : ¬ (mode = .stopping (.finished .complete) ∨ mode = .returned .complete))
    (hreturned : ∀ state, w.mode ≠ .returned state) (restarts : ℕ) :
    SupervisionInv g cfg {w.report [.note .controller] with mode := mode, restarts := restarts} := by
  refine ⟨h.life,h.resumable.report _,?_,?_,?_,h.confirmed,fun hs => absurd hs hmode⟩
  · intro hs
    rw [show w.stage = .running from hs] at hstage
    cases hstage
  · intro outcome hs
    rw [show w.stage = .reporting outcome from hs] at hstage
    cases hstage
  · intro _ outcome hs
    exact (claimedOutcome_note w.file .controller).trans (h.written hreturned outcome hs)

theorem kill (h : SupervisionInv g cfg w) : SupervisionInv g cfg w.kill := by
  by_cases ha : w.stage.alive = true
  · refine h.ofDead rfl h.resumable (if_pos ha) (h.unseen ?_)
    intro hs
    rw [hs] at ha
    cases ha
  · rw [World.kill,show w.stage.killed = w.stage from if_neg ha]
    exact h

theorem restart (h : SupervisionInv g cfg w) (hgone : w.stage.alive = false)
    (hmode : ¬ (w.mode = .stopping (.finished .complete) ∨ w.mode = .returned .complete))
    (hopen : ∀ state, w.mode ≠ .returned state) (late spawned : Bool) :
    (w.restart g maxRestarts late spawned).mode = .returned .blocked ∨ SupervisionInv g cfg (w.restart g maxRestarts late spawned) := by
  have hdeath := h.note hgone hmode hopen (w.restarts + 1)
  simp only [World.restart]
  split
  · exact .inl rfl
  · split
    · exact .inl rfl
    · refine .inr ?_
      split
      · exact ofRunning (hdeath.resumable.report [.note .controller]).boot rfl rfl (by simp [World.spawn])
      · exact hdeath.note hgone (by simp) hopen _

theorem stop (h : SupervisionInv g cfg w) {watch : Watch} (hmode : w.mode = .stopping watch)
    (late spawned : Bool) (cleanup : Cleanup) : (w.stop g maxRestarts watch late spawned cleanup).mode =
    .returned .blocked ∨ SupervisionInv g cfg (w.stop g maxRestarts watch late spawned cleanup) := by
  have hk := h.kill
  have hgone : w.kill.stage.alive = false := Stage.killed_alive _
  cases cleanup with
  | unverified | workersLeft => exact .inl rfl
  | cleaned =>
    cases watch with
    | finished outcome =>
      refine .inr ⟨hk.life,hk.resumable,hk.running,hk.reporting,fun hm => absurd rfl (hm _),hk.confirmed,fun hs => ?_⟩
      by_cases ho : outcome = .complete
      · subst ho
        exact hk.seen (.inl hmode)
      · simp [World.stop,ho] at hs
    | deadline => exact .inl rfl
    | stalled | operationExpired | exited => exact hk.restart hgone (by simp [World.kill,hmode]) (by simp [World.kill,hmode]) late spawned

theorem remode (h : SupervisionInv g cfg w) (hw : w.mode = .watching)
    (hmode : mode = .stopping (.finished .complete) ∨ mode = .returned .complete → w.stage = .done .complete) :
    SupervisionInv g cfg {w with mode := mode} :=
  ⟨h.life,h.resumable,h.running,h.reporting,fun _ => h.written (by simp [hw]),h.confirmed,hmode⟩

theorem poll (h : SupervisionInv g cfg w) (hw : w.mode = .watching) {clock : Clock}
    (hok : clock.deadline = false → w.finished = some .complete → w.stage.written ≠ none) :
    SupervisionInv g cfg (w.poll clock) := by
  simp only [World.poll]
  split
  · exact h.remode hw (by simp)
  · rename_i hdeadline
    split
    · rename_i outcome hfinished
      refine h.remode hw fun hs => ?_
      have hcomplete : outcome = .complete := by simpa using hs
      subst hcomplete
      obtain ⟨outcome,hwritten⟩ := Option.ne_none_iff_exists'.mp (hok (by simpa using hdeadline) hfinished)
      have hclaimed := h.written (by simp [hw]) outcome hwritten
      rw [claimedOutcome_drop hfinished] at hclaimed
      cases hclaimed
      exact (h.confirmed hwritten).1
    · split
      · exact h.remode hw (by simp)
      · split
        · exact h.remode hw (by simp)
        · split
          · exact h.remode hw (by simp)
          · exact h

theorem wrote (h : SupervisionInv g cfg w) {outcome : RunOutcome} (hstage : w.stage = .reporting outcome)
    (hok : outcome = .complete → Confirmed g cfg w.file) {replaced ok : Bool}
    (hstep : w.wrote g outcome replaced ok = some v) : SupervisionInv g cfg v := by
  obtain ⟨hfile,hphase⟩ := h.reporting outcome hstage
  obtain ⟨as,hreach⟩ := h.life
  have hunseen := h.unseen (by simp [hstage])
  simp only [World.wrote] at hstep
  split at hstep
  · cases hstep
    refine h.ofDead (by split <;> rfl) ?_ rfl (by split <;> exact hunseen)
    split <;> exact h.resumable.report _
  · split at hstep
    · cases hstep
    · rename_i hreplaced
      have hreplaced : replaced = true := by simpa using hreplaced
      subst hreplaced
      cases hstep
      have hwritten : ∀ o, (if (buildRunReceipt g w.file).completionVerdict.1 = outcome then Stage.done outcome
          else .overriding outcome).written = some o → o = outcome := by
        intro o ho
        split at ho <;> exact (Option.some.inj ho).symm
      refine ⟨⟨as,hreach⟩,h.resumable,?_,?_,fun _ o ho => ?_,fun ho => ?_,fun hs => absurd hs hunseen⟩
      · intro hs
        dsimp only at hs
        split at hs <;> cases hs
      · intro o hs
        dsimp only at hs
        split at hs <;> cases hs
      · rw [hwritten o ho]
        exact (congrArg claimedOutcome hfile).trans (reachable_verdicted hreach outcome hphase)
      · have hcomplete := (hwritten _ ho).symm
        subst hcomplete
        obtain ⟨hreview,hwork,hconfirmable⟩ := hok rfl
        have hverdict : (buildRunReceipt g w.file).completionVerdict.1 = .complete := by
          rw [hfile] at hconfirmable ⊢
          exact confirmable_completes hreach hreview hphase hwork hconfirmable
        exact ⟨if_pos hverdict,_,rfl,hverdict⟩

end SupervisionInv

theorem SupervisionInv.append (h : SupervisionInv g cfg w) (hstage : w.stage = .running) {log : List Event}
    (hlog : w.sys.log <+: log) : w.append w.sys.log log = {w with file := log} := by
  obtain ⟨more,rfl⟩ := hlog
  rw [World.append,List.drop_left,h.running hstage]

theorem SupervisionInv.tidy (h : SupervisionInv g cfg w) : Tidy g w.sys := by
  obtain ⟨as,hreach⟩ := h.life
  exact (reachable_nodes hreach).2

theorem step_supervised {tick : Tick} (h : SupervisionInv g cfg w) (hok : Orderly g cfg w tick)
    (hstep : w.step g cfg maxRestarts tick = some v) : v.mode = .returned .blocked ∨ SupervisionInv g cfg v := by
  cases tick with
  | live a =>
    simp only [World.step] at hstep
    split at hstep
    · rename_i hstage
      obtain ⟨t,ht,rfl⟩ := Option.map_eq_some_iff.mp hstep
      rw [h.append hstage (liveStep_grows h.tidy ht)]
      exact .inr (.ofRunning (h.life.tail (a := .live a) ht) hstage rfl (h.unseen (by simp [hstage])))
    · cases hstep
  | returned =>
    simp only [World.step] at hstep
    split at hstep
    · rename_i outcome hstage hphase
      cases hstep
      refine .inr ⟨h.life,h.resumable,by simp,fun o ho => ?_,by simp [Stage.written],by simp [Stage.written],
        fun hs => absurd hs (h.unseen (by simp [hstage]))⟩
      cases ho
      exact ⟨h.running hstage,hphase⟩
    · cases hstep
  | wrote replaced ok =>
    simp only [World.step] at hstep
    split at hstep
    · rename_i outcome hstage
      exact .inr (h.wrote hstage (fun ho => hok (ho ▸ hstage)) hstep)
    · cases hstep
  | overrode =>
    simp only [World.step] at hstep
    split at hstep
    · rename_i outcome hstage
      cases hstep
      have hne : outcome ≠ .complete := by
        rintro rfl
        have hdone := (h.confirmed (by rw [hstage]; rfl)).1
        rw [hstage] at hdone
        cases hdone
      refine .inr ⟨h.life,h.resumable.report _,by simp,by simp,fun hm o ho => ?_,fun ho => absurd (Option.some.inj ho) hne,
        fun hs => absurd hs (h.unseen (by simp [hstage]))⟩
      exact (claimedOutcome_note w.file .controller).trans (h.written hm o (by rw [hstage]; exact ho))
    · cases hstep
  | rewrote replaced =>
    simp only [World.step] at hstep
    split at hstep
    · rename_i outcome hstage
      cases hstep
      have hne : outcome ≠ .complete := by
        rintro rfl
        have hdone := (h.confirmed (by rw [hstage]; rfl)).1
        rw [hstage] at hdone
        cases hdone
      exact .inr ⟨h.life,h.resumable,by simp,by simp,fun hm o ho => h.written hm o (by rw [hstage]; exact ho),
        fun ho => absurd (Option.some.inj ho) hne,fun hs => absurd hs (h.unseen (by simp [hstage]))⟩
    · cases hstep
  | crashed during =>
    simp only [World.step] at hstep
    split at hstep
    · rename_i hstage
      obtain ⟨cut,hcut,rfl⟩ := Option.map_eq_some_iff.mp hstep
      rw [h.append hstage (cutLog_grows h.tidy hcut)]
      exact .inr (h.ofDead rfl (resumable_cut h.life hcut) rfl (h.unseen (by simp [hstage])))
    · rename_i hstage
      cases hstep
      exact .inr (h.ofDead rfl h.resumable rfl (h.unseen (by simp [hstage])))
    · rename_i hstage
      cases hstep
      exact .inr (h.ofDead rfl h.resumable rfl (h.unseen (by simp [hstage])))
    · rename_i hstage
      cases hstep
      exact .inr (h.ofDead rfl h.resumable rfl (h.unseen (by simp [hstage])))
    · cases hstep
  | poll clock =>
    simp only [World.step] at hstep
    split at hstep
    · rename_i hmode
      cases hstep
      exact .inr (h.poll hmode hok)
    · cases hstep
  | stop cleanup late spawned =>
    simp only [World.step] at hstep
    split at hstep
    · rename_i watch hmode
      cases hstep
      exact h.stop hmode late spawned cleanup
    · cases hstep

/-- In every supervised run in which no poll sees a completed run before its receipt is
written, and completed runs are confirmable, a supervisor that returns `COMPLETE` leaves a
receipt that says so, of a controller that has come to its end. -/
theorem supervisor_agrees {file : List Event} {receipt : Option RunReceipt} {ticks : List Tick}
    (hprior : Reaches (Sys.step g cfg) (init g) (Sys.boot g file))
    (hok : AllSteps (World.step g cfg maxRestarts) (Orderly g cfg) (World.start g file receipt) ticks)
    (h : exec (World.step g cfg maxRestarts) (World.start g file receipt) ticks = some w)
    (hreturned : w.mode = .returned .complete) : w.stage = .done .complete ∧ ∃ r, w.receipt = some r ∧
    r.completionVerdict.1 = .complete := by
  have hstep : ∀ s t u, (s.mode = .returned .blocked ∨ SupervisionInv g cfg s) → Orderly g cfg s t →
      World.step g cfg maxRestarts s t = some u → u.mode = .returned .blocked ∨ SupervisionInv g cfg u := by
    rintro s t u (hblocked | hs) hok hu
    · exact .inl (step_returned hblocked hu).2.2.2
    · exact step_supervised hs hok hu
  have hblocked : w.mode ≠ .returned .blocked := by simp [hreturned]
  have hinv := (exec_invariant_of hstep hok h (.inr (.ofRunning hprior rfl rfl (by simp [World.start])))).resolve_left hblocked
  have hstage := hinv.seen (.inr hreturned)
  exact ⟨hstage,(hinv.confirmed (by rw [hstage]; rfl)).2⟩

end

def lifeTicks (as : List Act) : List Tick := as.filterMap (fun a => match a with
  | .live a => some (.live a)
  | .restart _ _ => none)

def alphaLife : List Tick :=
  lifeTicks (sendAlpha "glm" ++ sealAlpha "c1" ++ [.live (.wake false)] ++ acceptRun "opus")

theorem supervisor_agrees_patient : ∃ w, exec (World.step soloGraph {} 2) (World.start soloGraph [] none)
    (alphaLife ++ [.returned,.wrote true true,.poll {},.stop .cleaned false true]) = some w ∧ w.mode =
    .returned .complete ∧ ∃ r, w.receipt = some r ∧ r.completionVerdict.1 = .complete := by
  obtain ⟨w,hw,hmode⟩ : ∃ w ∈ exec (World.step soloGraph {} 2) (World.start soloGraph [] none)
      (alphaLife ++ [.returned,.wrote true true,.poll {},.stop .cleaned false true]), w.mode = .returned .complete := by
    decide +kernel
  have hinit : Reaches (Sys.step soloGraph {}) (init soloGraph) (init soloGraph) := ⟨[],rfl⟩
  exact ⟨w,hw,hmode,(supervisor_agrees hinit (by decide +kernel) hw hmode).2⟩

/-- A poll that comes first ends the controller before its receipt; and one behind a
receipt that overrides the runtime still returns `COMPLETE`. -/
theorem supervisor_outruns_receipt :
    (∃ w ∈ exec (World.step soloGraph {} 2) (World.start soloGraph [] none)
      (alphaLife ++ [.poll {},.stop .cleaned false true]), w.mode = .returned .complete ∧ w.receipt = none) ∧
    ∃ w ∈ exec (World.step surveyGraph {} 2) (World.start surveyGraph [] none)
      (lifeTicks (sendAlpha "glm" ++ sealAlpha "c1" ++ surveyRho ++ [.live (.wake false)] ++ acceptRun "opus") ++
        [.returned,.wrote true true,.overrode,.rewrote true,.poll {},.stop .cleaned false true]),
      w.mode = .returned .complete ∧ (w.receipt.map fun r => r.completionVerdict.1) = some .blocked := by
  decide +kernel

/-! ### The end of a supervision -/

section
variable {g : WorkGraph} {cfg : Config} {maxRestarts : ℕ} {w v : World} {file : List Event} {outcome : RunOutcome}

namespace World

def Announced (w : World) (outcome : RunOutcome) : Prop := ∃ e ∈ w.file.drop w.startSeq, e.body = .runFinished outcome

structure Extends (w v : World) : Prop where
  file : w.file <+: v.file
  start : v.startSeq = w.startSeq

theorem extends_report (w : World) (reports : List Report) : Extends w (w.report reports) := ⟨prefix_append _ _,rfl⟩

theorem Announced.mono (h : Announced w outcome) (hx : Extends w v) : Announced v outcome := by
  obtain ⟨e,he,hbody⟩ := h
  obtain ⟨more,hmore⟩ := hx.file
  refine ⟨e,?_,hbody⟩
  rw [hx.start,← hmore,List.drop_append]
  exact List.mem_append_left _ he

theorem announced_of_finished (h : w.finished = some outcome) : Announced w outcome := by
  obtain ⟨e,he,hout⟩ := List.mem_filterMap.mp (List.mem_of_getLast? h)
  refine ⟨e,he,?_⟩
  split at hout
  · next hbody =>
    cases hout
    exact hbody
  · cases hout

theorem failClosed_announced (hstart : w.startSeq ≤ w.file.length) : ∃ outcome, Announced w.failClosed outcome := by
  cases hfinished : (w.report [.note .controller]).finished with
  | some outcome =>
    have hannounced := (announced_of_finished hfinished).mono (extends_report _ [])
    refine ⟨outcome,?_⟩
    simpa [Announced,failClosed,hfinished] using hannounced
  | none =>
    have hfile : w.failClosed.file = (w.report [.note .controller]).file ++ [Report.failedClosed.event] := by
      simp only [failClosed,hfinished,if_true]
      rfl
    refine ⟨.blocked,Report.failedClosed.event,?_,rfl⟩
    rw [hfile,show w.failClosed.startSeq = w.startSeq from rfl,List.drop_append_of_le_length (by simp [report]; omega)]
    exact List.mem_append_right _ List.mem_cons_self

end World

open World

/-- What holds of a supervision that started on `file` after every tick. -/
structure Supervised (maxRestarts : ℕ) (file : List Event) (w : World) : Prop where
  grown : file <+: w.file
  start : w.startSeq = file.length
  restarts : w.restarts ≤ maxRestarts
  stopping : ∀ outcome, w.mode = .stopping (.finished outcome) → w.Announced outcome
  returned : ∀ state, w.mode = .returned state →
    ∃ outcome, w.Announced outcome ∧ (state = .complete → outcome = .complete ∧ w.stage.alive = false)

namespace Supervised

theorem start_le (h : Supervised maxRestarts file w) : w.startSeq ≤ w.file.length := h.start ▸ h.grown.length_le

theorem controller (h : Supervised maxRestarts file w) {log : List Event} (hlog : w.file <+: log) (sys : Sys)
    (receipt : Option RunReceipt) (stage : Stage) (hstage : w.mode = .returned .complete → stage.alive = false) :
    Supervised maxRestarts file {w with sys := sys, file := log, receipt := receipt, stage := stage} where
  grown := h.grown.trans hlog
  start := h.start
  restarts := h.restarts
  stopping outcome hm := (h.stopping outcome hm).mono ⟨hlog,rfl⟩
  returned state hm := by
    obtain ⟨outcome,hannounced,hstate⟩ := h.returned state hm
    refine ⟨outcome,hannounced.mono ⟨hlog,rfl⟩,fun hcomplete => ⟨(hstate hcomplete).1,hstage ?_⟩⟩
    exact hcomplete ▸ hm

theorem report (h : Supervised maxRestarts file w) (reports : List Report) : Supervised maxRestarts file (w.report reports) := by
  refine h.controller (prefix_append _ _) w.sys w.receipt w.stage fun hmode => ?_
  obtain ⟨_,-,hstate⟩ := h.returned .complete hmode
  exact (hstate rfl).2

theorem kill (h : Supervised maxRestarts file w) : Supervised maxRestarts file w.kill :=
  h.controller prefix_rfl w.sys w.receipt _ fun _ => Stage.killed_alive _

theorem close (h : Supervised maxRestarts file w) {state : State}
    (hverdict : ∃ outcome, w.Announced outcome ∧ (state = .complete → outcome = .complete ∧ w.stage.alive = false)) :
    Supervised maxRestarts file {w with mode := .returned state} :=
  ⟨h.grown,h.start,h.restarts,by rintro _ ⟨⟩,by rintro _ ⟨⟩; exact hverdict⟩

theorem failClosed (h : Supervised maxRestarts file w) : Supervised maxRestarts file w.failClosed := by
  obtain ⟨outcome,hannounced⟩ := failClosed_announced h.start_le
  exact ((h.report [.note .controller]).report _).close ⟨outcome,hannounced,by rintro ⟨⟩⟩

theorem counted (h : Supervised maxRestarts file w) (hlt : w.restarts < maxRestarts) :
    Supervised maxRestarts file {w with restarts := w.restarts + 1} :=
  ⟨h.grown,h.start,hlt,h.stopping,h.returned⟩

theorem watch (h : Supervised maxRestarts file w) {mode : Mode}
    (hstop : ∀ outcome, mode = .stopping (.finished outcome) → w.Announced outcome) (hreturned : ∀ state, mode ≠ .returned state) :
    Supervised maxRestarts file {w with mode := mode} :=
  ⟨h.grown,h.start,h.restarts,hstop,fun state hm => absurd hm (hreturned state)⟩

theorem spawn (h : Supervised maxRestarts file w) : Supervised maxRestarts file (w.spawn g) := by
  have hlog : w.file <+: (Sys.boot g w.file).log := by
    simp only [Sys.boot,append_assoc]
    exact prefix_append _ _
  exact ⟨h.grown.trans hlog,h.start,h.restarts,by rintro _ ⟨⟩,by rintro _ ⟨⟩⟩

theorem restart (h : Supervised maxRestarts file w) (late spawned : Bool) :
    Supervised maxRestarts file (w.restart g maxRestarts late spawned) := by
  have hnote := h.report [.note .controller]
  unfold World.restart
  dsimp only
  split
  · exact hnote.failClosed
  · next hlt =>
    have hcounted := hnote.counted (not_le.mp hlt)
    split
    · exact hcounted.failClosed
    · have hagain := hcounted.report [.note .controller]
      split
      · exact hagain.spawn
      · exact hagain.watch (by rintro _ ⟨⟩) (by rintro _ ⟨⟩)

theorem stop {watch : Watch} (h : Supervised maxRestarts file w) (hmode : w.mode = .stopping watch) (late spawned : Bool)
    (cleanup : Cleanup) : Supervised maxRestarts file (w.stop g maxRestarts watch late spawned cleanup) := by
  cases cleanup with
  | unverified => exact h.failClosed
  | workersLeft => exact h.kill.failClosed
  | cleaned =>
    cases watch with
    | finished outcome =>
      refine h.kill.close ⟨outcome,h.stopping outcome hmode,fun hstate => ⟨?_,Stage.killed_alive _⟩⟩
      by_contra hne
      rw [if_neg hne] at hstate
      cases hstate
    | deadline => exact h.kill.failClosed
    | stalled | operationExpired | exited => exact h.kill.restart late spawned

theorem poll (h : Supervised maxRestarts file w) (clock : Clock) : Supervised maxRestarts file (w.poll clock) := by
  unfold World.poll
  split
  · exact h.watch (by rintro _ ⟨⟩) (by rintro _ ⟨⟩)
  split
  · next outcome hfinished =>
    refine h.watch (fun o ho => ?_) (by rintro _ ⟨⟩)
    cases ho
    exact announced_of_finished hfinished
  · split
    · exact h.watch (by rintro _ ⟨⟩) (by rintro _ ⟨⟩)
    split
    · exact h.watch (by rintro _ ⟨⟩) (by rintro _ ⟨⟩)
    split
    · exact h.watch (by rintro _ ⟨⟩) (by rintro _ ⟨⟩)
    · exact h

theorem step {t : Tick} (h : Supervised maxRestarts file w) (hstep : World.step g cfg maxRestarts w t = some v) :
    Supervised maxRestarts file v := by
  obtain ⟨ha,-,-,sys,log,receipt,stage,hlog,rfl⟩ | ⟨clock,-,-,rfl⟩ | ⟨watch,cleanup,late,spawned,-,hmode,rfl⟩ := step_cases hstep
  · refine h.controller hlog sys receipt stage fun hmode => ?_
    obtain ⟨_,-,hstate⟩ := h.returned .complete hmode
    exact absurd ((hstate rfl).2.symm.trans ha) Bool.false_ne_true
  · exact h.poll clock
  · exact h.stop hmode late spawned cleanup

end Supervised

variable (g maxRestarts) in
theorem restart_counts (w : World) (late spawned : Bool) : (w.restart g maxRestarts late spawned).restarts = w.restarts + 1 ∨
    ∃ state, (w.restart g maxRestarts late spawned).mode = .returned state := by
  unfold World.restart
  dsimp only
  split
  · exact .inr ⟨.blocked,rfl⟩
  · split
    · exact .inr ⟨.blocked,rfl⟩
    · split <;> exact .inl rfl

variable (g maxRestarts) in
theorem stop_counts (w : World) (watch : Watch) (late spawned : Bool) (cleanup : Cleanup) :
    (w.stop g maxRestarts watch late spawned cleanup).restarts = w.restarts + 1 ∨ ∃ state,
    (w.stop g maxRestarts watch late spawned cleanup).mode = .returned state := by
  cases cleanup with
  | unverified | workersLeft => exact .inr ⟨.blocked,rfl⟩
  | cleaned =>
    cases watch with
    | finished outcome => exact .inr ⟨_,rfl⟩
    | deadline => exact .inr ⟨.blocked,rfl⟩
    | stalled | operationExpired | exited => exact restart_counts g maxRestarts _ late spawned

theorem poll_restarts (w : World) (clock : Clock) : (w.poll clock).restarts = w.restarts := by
  unfold World.poll
  repeat' split
  all_goals rfl

variable {ticks : List Tick} {state : State}

theorem returned_stops (hmode : w.mode = .returned state)
    (h : exec (World.step g cfg maxRestarts) w ticks = some v) : ticks.countP Tick.isStop = 0 := by
  induction ticks generalizing w with
  | nil => rfl
  | cons t ticks ih =>
    obtain ⟨u,hu,hrest⟩ := exec_cons h
    obtain ⟨-,hstop,-,hu'⟩ := step_returned hmode hu
    rw [List.countP_cons_of_neg (by simp [hstop])]
    exact ih hu' hrest

theorem stops_le (hi : Supervised maxRestarts file w) (h : exec (World.step g cfg maxRestarts) w ticks = some v) :
    ticks.countP Tick.isStop + w.restarts ≤ maxRestarts + 1 := by
  induction ticks generalizing w with
  | nil => simpa using Nat.le_succ_of_le hi.restarts
  | cons t ticks ih =>
    obtain ⟨u,hu,hrest⟩ := exec_cons h
    have hnext := ih (hi.step hu) hrest
    obtain ⟨-,ht,-,sys,log,receipt,stage,-,rfl⟩ | ⟨clock,rfl,-,rfl⟩ | ⟨watch,cleanup,late,spawned,rfl,-,rfl⟩ := step_cases hu
    · rwa [List.countP_cons_of_neg (by simp [ht])]
    · rw [List.countP_cons_of_neg (by simp [Tick.isStop])]
      rwa [poll_restarts] at hnext
    · rw [List.countP_cons_of_pos rfl]
      obtain hcount | ⟨state,hmode⟩ := stop_counts g maxRestarts w watch late spawned cleanup
      · omega
      · have hnone := returned_stops hmode hrest
        have hle := hi.restarts
        omega

theorem poll_open (hmode : w.mode = .watching) (clock : Clock) (state : State) : (w.poll clock).mode ≠ .returned state := by
  unfold World.poll
  repeat' split
  all_goals simp [hmode]

theorem restart_gone (ha : w.stage.alive = false) {late spawned : Bool}
    (h : (w.restart g maxRestarts late spawned).mode = .returned state) :
    (w.restart g maxRestarts late spawned).stage.alive = false := by
  unfold World.restart at h ⊢
  dsimp only at h ⊢
  split
  · exact ha
  · next hlt =>
    rw [if_neg hlt] at h
    split
    · exact ha
    · next hlate =>
      rw [if_neg hlate] at h
      split
      · next hspawned =>
        rw [if_pos hspawned] at h
        cases h
      · exact ha

/-- Where no termination is left unverified, the controller is gone when the supervisor returns. -/
theorem returned_gone (hverified : ∀ t ∈ ticks, ∀ late spawned, t ≠ .stop .unverified late spawned)
    (h : exec (World.step g cfg maxRestarts) w ticks = some v)
    (hw : ∀ state, w.mode = .returned state → w.stage.alive = false) : ∀ state, v.mode = .returned state → v.stage.alive = false := by
  refine exec_invariant_of (I := fun w => ∀ state, w.mode = .returned state → w.stage.alive = false)
    (fun s t u hs ht hstep state hm => ?_) (allSteps_of_forall hverified w) h hw
  obtain ⟨ha,-,-,sys,log,receipt,stage,-,rfl⟩ | ⟨clock,-,hmode,rfl⟩ | ⟨watch,cleanup,late,spawned,rfl,-,rfl⟩ := step_cases hstep
  · exact absurd ((hs state hm).symm.trans ha) Bool.false_ne_true
  · exact absurd hm (poll_open hmode clock state)
  · cases cleanup with
    | unverified => exact absurd rfl (ht late spawned)
    | workersLeft => exact Stage.killed_alive _
    | cleaned =>
      cases watch with
      | finished | deadline => exact Stage.killed_alive _
      | stalled | operationExpired | exited => exact restart_gone (Stage.killed_alive _) hm

end

end Verdict.Supervisor

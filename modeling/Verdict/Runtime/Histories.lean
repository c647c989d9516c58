import Verdict.Runtime.Ancestry
import Verdict.Runtime.Independence
import Verdict.Runtime.Transitions

/-! # Histories of a run directory

A resumed life may plan again, so that each life of a directory has a graph and a
configuration of its own while the log goes on. What is said about nodes here holds for one
life behind any log: nothing is assumed about the events that earlier lives left.
-/
namespace Verdict.Runtime
open Driver Controls Run
open Cell (block reap)
open Option (map_eq_some_iff none_or)
open Sys (liveStep sweep)

section
variable {cfg : Config} {n : WorkNode} {a : Live} {c c' : Cell} {bodies : List Body} {log : List Body}

/-- No path leaves `VALIDATED`. -/
theorem Path.validated {x y : NodeState} {l : List NodeState} (h : Path (fun x y => y ∈ transitions x) x l y)
    (hmem : NodeState.validated ∈ l) : x ≠ .validated ∧ y = .validated := by
  have hnil : ∀ {l y}, Path (fun x y => y ∈ transitions x) .validated l y → y = .validated := by
    intro l y h
    cases h with
    | nil => rfl
    | cons h _ => exact absurd h List.not_mem_nil
  induction h with
  | nil => cases hmem
  | @cons x z y l hstep hrest ih =>
    refine ⟨?_,?_⟩
    · rintro rfl
      exact absurd hstep List.not_mem_nil
    · rcases List.mem_cons.mp hmem with rfl | hmem
      · exact hnil hrest
      · exact (ih hmem).2

variable {bs : List Body}

theorem mem_recordedStates {state : NodeState} {r x : String} (h : .nodeState state r x ∈ bs) :
    state ∈ recordedStates bs := List.mem_filterMap.mpr ⟨_,h,rfl⟩

theorem validated_of_priorValidated (h : priorValidated bs ≠ none) : NodeState.validated ∈ recordedStates bs := by
  induction bs with
  | nil => exact absurd rfl h
  | cons b bs ih =>
    by_cases hrest : priorValidated bs = none
    · cases b with
      | nodeState state r x =>
        cases state with
        | validated => exact mem_recordedStates List.mem_cons_self
        | _ => exact absurd (by simp [priorValidated,hrest]) h
      | _ => exact absurd (by simp [priorValidated,hrest]) h
    · obtain ⟨_,hb,hstate⟩ := List.mem_filterMap.mp (ih hrest)
      exact List.mem_filterMap.mpr ⟨_,List.mem_cons_of_mem _ hb,hstate⟩

/-- A step that records `VALIDATED` validates a node that was not validated yet. -/
theorem Touch.recorded (h : Touch cfg n c a c' bodies) (hmem : NodeState.validated ∈ recordedStates bodies) :
    c.run.state ≠ .validated ∧ c'.run.state = .validated := by
  cases h with
  | drive h => exact (drive_path h).validated hmem
  | raised h => exact (raised_path h).validated hmem
  | cancelled h =>
    obtain ⟨_,_,_,_,_,rfl,_⟩ := cancelled_cases h
    cases hmem
  | kept | spawned => cases hmem
  | reaped | abandoned =>
    simp only [reap] at hmem
    repeat' split at hmem
    all_goals simp [recordedStates] at hmem
  | cancelRun =>
    simp only [Cell.cancelRun,block] at hmem
    split at hmem <;> simp [recordedStates] at hmem
  | cancelNode =>
    simp only [Cell.cancelNode,block] at hmem
    split at hmem <;> simp [recordedStates] at hmem
  | retryNode =>
    simp only [Cell.retryNode] at hmem
    split at hmem <;> simp [recordedStates] at hmem
  | blocked => simp [block,recordedStates] at hmem

def Leaving (c : Cell) : Prop := ∀ t, c.task = some t → t.status = .running → c.run.state = .validated → t.pc = .leaving

theorem script_leaves {t t' : Task} {run : NodeRun} {reply : Reply} {effs : List Eff}
    (h : script cfg n t run reply = some (effs,t')) (hleaving : run.state = .validated → t.pc = .leaving)
    (hrunning : t'.status = .running) (hv : (perform run effs).run.state = .validated) : t'.pc = .leaving := by
  cases hpc : t.pc.sealing with
  | false =>
    have hstate : run.state ≠ .validated → (perform run effs).run.state ≠ .validated :=
      (perform_unsealing (unsealing_script hpc h)).2.2
    by_cases hold : run.state = .validated
    · simp only [script,map_eq_some_iff] at h
      obtain ⟨seg,hseg,hres⟩ := h
      rw [hleaving hold] at hseg
      cases reply with
      | removed gone =>
        cases hseg
        simp only [ret,hleaving hold] at hres
        cases hres
        cases hrunning
      | _ => cases hseg
    · exact absurd hv (hstate hold)
  | true =>
    simp only [script,map_eq_some_iff] at h
    obtain ⟨seg,hseg,hres⟩ := h
    have hnot : run.state ≠ .validated := by
      intro hold
      rw [hleaving hold] at hpc
      cases hpc
    generalize t.pc = pc at hpc hseg
    cases pc with
    | commit =>
      cases reply with
      | committed sha =>
        simp only [Driver.segment] at hseg
        split at hseg
        · cases hseg
        · cases hseg
          cases hres
          exact absurd hv hnot
      | _ => simp [Driver.segment] at hseg
    | «seal» =>
      cases reply with
      | removed gone =>
        simp only [Driver.segment] at hseg
        cases hseg
        rw [if_neg (by cases gone <;> simp [ret,goto])] at hres
        cases hres
        cases gone with
        | true => cases hrunning
        | false => rfl
      | _ => simp [Driver.segment] at hseg
    | mergeRemove b failed =>
      cases reply with
      | removed gone =>
        simp only [Driver.segment] at hseg
        cases hseg
        rw [if_neg (by cases failed <;> simp [mergeRemoved,ret])] at hres
        cases hres
        cases failed <;> cases hrunning
      | _ => simp [Driver.segment] at hseg
    | _ => cases hpc

theorem Touch.leaving (h : Touch cfg n c a c' bodies) (hleaving : Leaving c) : Leaving c' := by
  -- a cell whose driver stands still, and that is validated only if it was
  have hsame : ∀ d : Cell, (d.run.state = .validated → c.run.state = .validated) →
      (∀ u, d.task = some u → ∃ t, c.task = some t ∧ u.pc = t.pc ∧ u.status = t.status) → Leaving d := by
    intro d hstate htask u hu hrunning hv
    obtain ⟨t,ht,hpc,hstatus⟩ := htask u hu
    rw [hpc]
    exact hleaving t ht (hstatus ▸ hrunning) (hstate hv)
  have hself : ∀ u, c.task = some u → ∃ t, c.task = some t ∧ u.pc = t.pc ∧ u.status = t.status :=
    fun u hu => ⟨u,hu,rfl,rfl⟩
  have hcancel : ∀ u, c.cancelTask.task = some u → ∃ t, c.task = some t ∧ u.pc = t.pc ∧ u.status = t.status := by
    intro u hu
    obtain ⟨t,ht,rfl⟩ := map_eq_some_iff.mp hu
    exact ⟨t,ht,rfl,rfl⟩
  have hreap : (c.reap.1.run.state = .validated → c.run.state = .validated) ∧
      ∀ u, c.reap.1.task = some u → ∃ t, c.task = some t ∧ u.pc = t.pc ∧ u.status = t.status := by
    simp only [reap]
    split
    · exact ⟨id,hself⟩
    · split
      · exact ⟨id,hself⟩
      · exact ⟨id,fun u hu => by cases hu⟩
      · exact ⟨id,fun u hu => by cases hu⟩
      · refine ⟨fun hv => ?_,fun u hu => by cases hu⟩
        dsimp only at hv
        split at hv
        · exact hv
        · cases hv
  cases h with
  | kept => exact hleaving
  | reaped => exact hsame _ hreap.1 hreap.2
  | abandoned =>
    refine hsame _ hreap.1 fun u hu => ?_
    obtain ⟨u',hu',rfl⟩ := map_eq_some_iff.mp hu
    exact hreap.2 u' hu'
  | cancelRun =>
    simp only [Cell.cancelRun,block]
    split
    · exact hsame _ (fun hv => by cases hv) hcancel
    all_goals first
      | exact hsame _ (fun hv => by cases hv) hcancel
      | exact hsame _ id hcancel
  | cancelNode =>
    simp only [Cell.cancelNode,block]
    split
    all_goals first
      | exact hsame _ (fun hv => by cases hv) hcancel
      | exact hsame _ id hself
  | retryNode =>
    simp only [Cell.retryNode]
    split
    · exact hsame _ (fun hv => by cases hv) hself
    · exact hleaving
  | blocked => exact hsame _ (fun hv => by cases hv) hself
  | spawned hplanned =>
    intro u _ _ hv
    rw [hplanned] at hv
    cases hv
  | drive h =>
    simp only [Cell.drive] at h
    split at h
    · cases h
    · rename_i t ht
      split at h
      · cases h
      · rename_i hstatus
        obtain ⟨⟨effs,t'⟩,hscript,hres⟩ := map_eq_some_iff.mp h
        cases hres
        intro u hu hrunning hv
        dsimp only at hu hv
        split at hu
        · cases hu
          exact script_leaves hscript (hleaving t ht (not_not.mp hstatus)) hrunning hv
        · cases hu
          cases hrunning
  | raised h =>
    obtain ⟨t,_,_,_,_,ht'⟩ := raised_cases h
    intro u hu hrunning
    rw [ht'] at hu
    cases hu
    cases hrunning
  | cancelled h =>
    obtain ⟨_,_,_,_,_,_,ht'⟩ := cancelled_cases h
    intro u hu hrunning
    rw [ht'] at hu
    cases hu
    cases hrunning

theorem Touch.nonempty (h : Touch cfg n c a c' bodies) (hbased : Based (· ≠ "") "base" c) : Based (· ≠ "") "base" c' := by
  by_cases hbad : ∃ reply, a = .drive n.nodeId reply ∧ (reply = .committed "" ∨ reply = .base "")
  · -- a driver has no use for an empty commit
    obtain ⟨reply,rfl,hreply⟩ := hbad
    cases h with
    | kept => exact hbased
    | drive h =>
      simp only [Cell.drive] at h
      split at h
      · cases h
      · rename_i t ht
        split at h
        · cases h
        · obtain ⟨⟨effs,t'⟩,hscript,-⟩ := map_eq_some_iff.mp h
          simp only [script,map_eq_some_iff] at hscript
          obtain ⟨seg,hseg,-⟩ := hscript
          generalize t.pc = pc at hseg
          rcases hreply with rfl | rfl
          · cases pc <;> simp [Driver.segment] at hseg
          · cases pc <;> simp [Driver.segment] at hseg
  · refine h.based hbased (.inl rfl) (fun reply hr => ⟨fun _ _ _ _ => by decide,fun _ => rfl,fun sha hsha _ hempty => ?_,
      fun sha hsha hempty => ?_⟩)
    · exact hbad ⟨reply,hr,.inl (hempty ▸ hsha)⟩
    · exact hbad ⟨reply,hr,.inr (hempty ▸ hsha)⟩

/-- What one life keeps of a node, behind any log of earlier lives: it is validated exactly
when the log says so, with the commit that the log has. -/
structure CellSound (c : Cell) (log : List Body) : Prop where
  isSealed : c.run.state = .validated → ∃ r, priorValidated log = some (c.run.commit,r)
  done : priorValidated log ≠ none → c.run.state = .validated
  leaving : Leaving c
  nonempty : Based (· ≠ "") "base" c

theorem CellSound.poised (h : CellSound c log) {t : Task} (ht : c.task = some t) (hrunning : t.status = .running) :
    Poised c.run t.pc := by
  have hbase := h.nonempty t ht hrunning
  refine ⟨fun hpc hv => ?_,fun hpc => ?_,fun b hpc => ?_⟩
  · rw [h.leaving t ht hrunning hv] at hpc
    cases hpc
  · rw [hpc] at hbase
    exact hbase
  · rw [hpc] at hbase
    exact hbase

theorem Touch.sound (h : Touch cfg n c a c' bodies) (hsound : CellSound c log) : CellSound c' (log ++ bodies) := by
  obtain ⟨hkeep,hseal⟩ := h.seals (fun _ => hsound.poised) hsound.nonempty
  refine ⟨fun hv => ?_,fun hne => ?_,h.leaving hsound.leaving,h.nonempty hsound.nonempty⟩
  · rw [priorValidated_append]
    by_cases hold : c.run.state = .validated
    · obtain ⟨-,hcommit,hnone⟩ := hkeep hold
      obtain ⟨r,hr⟩ := hsound.isSealed hold
      exact ⟨r,by rw [hnone,none_or,hr,hcommit]⟩
    · obtain ⟨-,r,hr⟩ := hseal hold hv
      exact ⟨r,by rw [hr,Option.some_or]⟩
  · rw [priorValidated_append] at hne
    by_cases hnew : priorValidated bodies = none
    · rw [hnew,none_or] at hne
      exact (hkeep (hsound.done hne)).1
    · exact (h.recorded (validated_of_priorValidated hnew)).2

theorem boot_sound (past : List Body) : CellSound (Cell.boot past) past := by
  unfold Cell.boot
  cases hv : priorValidated past with
  | none =>
    exact ⟨fun h => (by cases h),fun h => absurd hv h,fun _ h => (by cases h),fun _ h => (by cases h)⟩
  | some found =>
    obtain ⟨commit,routeId⟩ := found
    exact ⟨fun _ => ⟨routeId,hv⟩,fun _ => rfl,fun _ h => (by cases h),fun _ h => (by cases h)⟩

theorem priorValidated_notes {log notes : List Body} (hnotes : ∀ b ∈ notes, ∃ type, b = .note type) :
    priorValidated (log ++ notes) = priorValidated log := by
  have hnone : priorValidated notes = none := by
    induction notes with
    | nil => rfl
    | cons b notes ih =>
      obtain ⟨type,rfl⟩ := hnotes b List.mem_cons_self
      simp only [priorValidated,ih fun b hb => hnotes b (List.mem_cons_of_mem _ hb)]
  rw [priorValidated_append,hnone,none_or]

theorem CellSound.notes {notes : List Body} (h : CellSound c log) (hnotes : ∀ b ∈ notes, ∃ type, b = .note type) :
    CellSound c (log ++ notes) := by
  have hsame : priorValidated (log ++ notes) = priorValidated log := priorValidated_notes hnotes
  exact ⟨fun hv => hsame ▸ h.isSealed hv,fun hne => h.done (hsame ▸ hne),h.leaving,h.nonempty⟩

end
/-! ### What a step adds to the log -/

def Body.isReview : Body → Bool
  | review _ _ _ => true
  | _ => false

def Hushed (log log' : List Event) : Prop := ∃ new, log' = log ++ new ∧ ∀ e ∈ new, e.body.isReview = false

section
variable {g : WorkGraph} {cfg : Config} {s t : Sys} {log log' log'' : List Event}

theorem Hushed.refl (log : List Event) : Hushed log log := ⟨[],(List.append_nil log).symm,by simp⟩

theorem Hushed.trans (h : Hushed log log') (h' : Hushed log' log'') : Hushed log log'' := by
  obtain ⟨new,rfl,hnew⟩ := h
  obtain ⟨new',rfl,hnew'⟩ := h'
  refine ⟨new ++ new',List.append_assoc _ _ _,fun e he => ?_⟩
  rcases List.mem_append.mp he with he | he
  · exact hnew e he
  · exact hnew' e he

theorem hushed_map (log : List Event) (i : String) {bodies : List Body} (h : ∀ b ∈ bodies, b.isReview = false) :
    Hushed log (log ++ bodies.map (Event.mk i)) := by
  refine ⟨_,rfl,fun e he => ?_⟩
  obtain ⟨b,hb,rfl⟩ := List.mem_map.mp he
  exact h b hb

variable {run : NodeRun}

theorem apply_hushed {run' : NodeRun} {e : Eff} {bodies : List Body} (hdiscreet : e.discreet = true)
    (h : e.apply run = some (run',bodies)) : ∀ b ∈ bodies, b.isReview = false := by
  cases e with
  | set state commit =>
    obtain ⟨-,-,rfl⟩ := apply_set h
    simp [Body.isReview]
  | emit body =>
    cases h
    intro b hb
    cases List.mem_singleton.mp hb
    cases body with
    | review => cases hdiscreet
    | _ => rfl
  | _ =>
    cases h
    simp

theorem perform_hushed {effs : List Eff} (h : effs.all Eff.discreet = true) :
    ∀ b ∈ (perform run effs).events, b.isReview = false := by
  induction effs generalizing run with
  | nil => simp [perform]
  | cons e es ih =>
    rw [List.all_cons,Bool.and_eq_true] at h
    intro b hb
    simp only [perform] at hb
    split at hb
    · cases hb
    · rename_i run' bodies happly
      rcases List.mem_append.mp hb with hb | hb
      · exact apply_hushed h.1 happly b hb
      · exact ih h.2 b hb

theorem drive_hushed {n : WorkNode} {c c' : Cell} {reply : Reply} {bodies : List Body}
    (h : c.drive cfg n reply = some (c',bodies)) : ∀ b ∈ bodies, b.isReview = false := by
  simp only [Cell.drive] at h
  split at h
  · cases h
  · split at h
    · cases h
    · obtain ⟨⟨effs,t'⟩,hscript,hres⟩ := map_eq_some_iff.mp h
      cases hres
      exact perform_hushed (discreet_script hscript)

theorem raised_hushed {n : WorkNode} {c c' : Cell} {during : Option (Reply × ℕ)} {text : String} {bodies : List Body}
    (h : c.raised cfg n during text = some (c',bodies)) : ∀ b ∈ bodies, b.isReview = false := by
  simp only [Cell.raised] at h
  split at h
  · cases h
  · split at h
    · cases h
    · split at h
      · cases h
        simp
      · obtain ⟨⟨effs,t'⟩,hscript,hres⟩ := map_eq_some_iff.mp h
        cases hres
        refine perform_hushed (List.all_eq_true.mpr fun e he => ?_)
        exact List.all_eq_true.mp (discreet_script hscript) e (List.mem_of_mem_take he)

variable {i : String}

theorem driven_hushed {f : WorkNode → Cell → Option (Cell × List Body)}
    (hf : ∀ n c c' bodies, f n c = some (c',bodies) → ∀ b ∈ bodies, b.isReview = false)
    (h : s.driven g i f = some t) : Hushed s.log t.log := by
  simp only [Sys.driven] at h
  split at h
  · cases h
  · obtain ⟨n,-,h⟩ := Option.bind_eq_some_iff.mp h
    obtain ⟨⟨c,bodies⟩,hc,rfl⟩ := map_eq_some_iff.mp h
    exact hushed_map _ _ (hf n _ c bodies hc)

theorem sweep_hushed {f : Sys → WorkNode → Cell × List Body}
    (hf : ∀ s n, ∀ b ∈ (f s n).2, b.isReview = false) (nodes : List WorkNode) :
    Hushed s.log (sweep f s nodes).log :=
  sweep_invariant (P := fun t => Hushed s.log t.log) (fun t n _ ht => ht.trans (hushed_map _ _ (hf t n))) (.refl _)

theorem finish_hushed (outcome : RunOutcome) : Hushed s.log (s.finish outcome).log :=
  hushed_map _ _ (by simp [Body.isReview])

theorem propagateBlocks_hushed (fuel : ℕ) : Hushed s.log (Sys.propagateBlocks g fuel s).log := by
  induction fuel generalizing s with
  | zero => exact .refl _
  | succ fuel ih =>
    simp only [Sys.propagateBlocks]
    split
    · refine (sweep_hushed (fun t n => ?_) g.nodes).trans ih
      simp only [Sys.blockOne]
      split <;> simp [block,Body.isReview]
    · exact .refl _

theorem launch_hushed : Hushed s.log (s.launch g).log := by
  have hsweeps : Hushed s.log (sweep Sys.spawnOne (Sys.propagateBlocks g g.nodes.length s) g.nodes).log := by
    refine (propagateBlocks_hushed g.nodes.length).trans (sweep_hushed (fun t n => ?_) g.nodes)
    simp only [Sys.spawnOne]
    split <;> simp
  simp only [Sys.launch]
  split
  · exact hsweeps
  · split
    · exact hsweeps
    · exact hsweeps.trans (finish_hushed _)

theorem reap_hushed (c : Cell) : ∀ b ∈ c.reap.2, b.isReview = false := by
  simp only [reap]
  split
  · simp
  · split <;> simp [Body.isReview]

theorem handle_hushed (req : ControlRequest) : Hushed s.log (s.handle g cfg req).log := by
  have hnote : ∀ u : Sys, Hushed u.log (u.say [.note .control]).log := fun u => hushed_map _ _ (by simp [Body.isReview])
  simp only [Sys.handle]
  split
  · refine (sweep_hushed (fun t n => ?_) g.nodes).trans (hnote _)
    simp only [Sys.cancelRunOne,Cell.cancelRun,block]
    split <;> simp [Body.isReview]
  · split
    · exact hnote s
    · refine hushed_map _ _ ?_
      simp only [Cell.cancelNode,block]
      split <;> simp [Body.isReview]
  · split
    · exact hnote s
    · refine hushed_map _ _ ?_
      simp only [Cell.retryNode]
      split <;> simp [Body.isReview]

theorem integrated_hushed (ref : String) : Hushed s.log (s.integrated g cfg ref).log := by
  have hmerge : Hushed s.log (s.say [.integrate (s.commits g) ref,.barrier "integration" true]).log :=
    hushed_map _ _ (by simp [Body.isReview])
  simp only [Sys.integrated]
  split
  · exact hmerge.trans (finish_hushed _)
  · split
    · exact hmerge.trans (finish_hushed _)
    · exact hmerge

theorem liveStep_hushed {a : Live} (ha : ∀ r, a ≠ .reviewed r) (h : s.liveStep g cfg a = some t) : Hushed s.log t.log := by
  cases a with
  | wake deadline =>
    simp only [liveStep] at h
    split at h
    · cases h
    · cases h
      have hreap := sweep_hushed (s := s) (f := Sys.reapOne) (fun u n => reap_hushed _) g.nodes
      split
      · refine (hreap.trans (sweep_hushed (fun u n => ?_) g.nodes)).trans (finish_hushed _)
        simp [Sys.cancelOne]
      · exact hreap
  | control req =>
    simp only [liveStep] at h
    split at h
    · cases h
      exact handle_hushed req
    · cases h
  | launch =>
    simp only [liveStep] at h
    split at h
    · cases h
      exact launch_hushed
    · cases h
  | drive i reply =>
    simp only [liveStep] at h
    split at h
    · cases h
    · exact driven_hushed (fun _ _ _ _ hc => drive_hushed hc) h
  | raised i during text =>
    simp only [liveStep] at h
    exact driven_hushed (fun _ _ _ _ hc => raised_hushed hc) h
  | cancelled i =>
    simp only [liveStep] at h
    refine driven_hushed (fun _ _ _ _ hc => ?_) h
    obtain ⟨_,_,_,_,_,rfl,_⟩ := cancelled_cases hc
    simp
  | drained =>
    simp only [liveStep] at h
    split at h
    · cases h
      exact finish_hushed _
    · cases h
  | merged ref =>
    simp only [liveStep] at h
    split at h
    · cases h
      exact integrated_hushed ref
    · cases h
  | reviewed r => exact absurd rfl (ha r)

theorem liveStep_freely {a : Live} (htidy : Tidy g s) (h : s.liveStep g cfg a = some t) :
    Relation.ReflTransGen (Move g cfg (fun _ _ => True) True) s t :=
  liveStep_moves htidy (fun _ _ _ _ _ _ _ => trivial) (fun _ _ => trivial) h

theorem liveStep_grows {a : Live} (htidy : Tidy g s) (h : s.liveStep g cfg a = some t) : s.log <+: t.log := by
  refine moves_invariant (P := fun u => s.log <+: u.log) (fun u v hu hm => ?_) (liveStep_freely htidy h)
    List.prefix_rfl
  cases hm with
  | cell | say => exact hu.trans (List.prefix_append _ _)
  | phase => exact hu

theorem liveStep_outside {a : Live} (htidy : Tidy g s) (hi : i ∉ g.ids) (hne : i ≠ "")
    (h : s.liveStep g cfg a = some t) : t.cells i = s.cells i ∧ nodeLog i t.log = nodeLog i s.log := by
  refine moves_invariant (P := fun u => u.cells i = s.cells i ∧ nodeLog i u.log = nodeLog i s.log) (fun u v hu hm => ?_)
    (liveStep_freely htidy h)
    ⟨rfl,rfl⟩
  cases hm with
  | cell hn _ =>
    have hid : i ≠ _ := fun he => hi (he ▸ List.mem_map_of_mem hn)
    rw [put_cells_ne hid,nodeLog_put_ne hid]
    exact hu
  | say _ =>
    rw [nodeLog_say hne]
    exact hu
  | phase => exact hu

def Sound (s : Sys) : Prop := ∀ i, i ≠ "" → CellSound (s.cells i) (nodeLog i s.log)

theorem boot_all_sound (g : WorkGraph) (log : List Event) : Sound (Sys.boot g log) := by
  intro i hi
  obtain ⟨notes,hlog,hnotes⟩ := nodeLog_boot_cut (g := g) hi log
  rw [hlog]
  exact (boot_sound (nodeLog i log)).notes hnotes

theorem liveStep_sound {a : Live} (hsound : Sound s) (htidy : Tidy g s) (h : s.liveStep g cfg a = some t) : Sound t := by
  intro i hi
  by_cases hmem : i ∈ g.ids
  · obtain ⟨n,hn,rfl⟩ := List.mem_map.mp hmem
    obtain ⟨bodies,hlog,htouch⟩ := liveStep_touch h hn
    rw [hlog]
    exact htouch.sound (hsound n.nodeId hi)
  · obtain ⟨hcell,hlog⟩ := liveStep_outside htidy hmem hi h
    rw [hcell,hlog]
    exact hsound i hi

theorem liveStep_settled {a : Live} {new : List Event} (hsound : Sound s) (htidy : Tidy g s) (hi : i ≠ "")
    (h : s.liveStep g cfg a = some t) (hlog : t.log = s.log ++ new) (hdone : priorValidated (nodeLog i s.log) ≠ none) :
    NodeState.validated ∉ recordedStates (nodeLog i new) := by
  intro hbad
  by_cases hmem : i ∈ g.ids
  · obtain ⟨n,hn,rfl⟩ := List.mem_map.mp hmem
    obtain ⟨bodies,hbodies,htouch⟩ := liveStep_touch h hn
    rw [hlog,nodeLog_append,List.append_cancel_left_eq] at hbodies
    rw [hbodies] at hbad
    exact (htouch.recorded hbad).1 ((hsound n.nodeId hi).done hdone)
  · have hsame := (liveStep_outside htidy hmem hi h).2
    rw [hlog,nodeLog_append,List.append_right_eq_self] at hsame
    rw [hsame] at hbad
    cases hbad

end
end Verdict.Runtime

import Verdict.Runtime.Histories
import Verdict.Receipt.Completion

/-! # The review a receipt rests on

A receipt takes the last review of the log and the states of the nodes separately. Within one life
a review is of the integrated work of all nodes; a later life may come with another graph, and the
review is then not of the nodes outside the graph it was made under. `reviewed` remembers that
graph along the history of a run directory.
-/
namespace Verdict.Receipt
open Verdict.Runtime Verdict.Run
open Sys (boot liveStep put say)
open List (append_assoc append_nil mem_append_left mem_cons mem_map not_mem_nil)
open NodeState (validated)

def lastIntegrated (log : List Event) : List String :=
  ((log.filterMap (fun e => match e.body with
    | .integrate commits _ => some commits
    | _ => none)).getLast?).getD []

def lastReview : List Event → Option (List Event × Event × List Event)
  | [] => none
  | e :: log => match lastReview log with
    | some (before,review,after) => some (e :: before,review,after)
    | none => if e.body.isReview then some ([],e,log) else none

def passes : Body → Bool
  | .review .pass _ 0 => true
  | _ => false

def Passed (log : List Event) : Prop := ∃ p ∈ lastReview log, passes p.2.1.body = true

/-- What comes before the review has the nodes validated with integrated commits, and
nothing behind it validates them again. -/
structure Covers (ids : List String) (before after : List Event) : Prop where
  contained : ∀ i ∈ ids, ∃ found ∈ priorValidated (nodeLog i before), found.1 ∈ lastIntegrated before
  settled : ∀ i ∈ ids, validated ∉ recordedStates (nodeLog i after)

def Reviewed (ids : List String) (log : List Event) : Prop := ∀ p ∈ lastReview log, Covers ids p.1 p.2.2

/-- The nodes whose validation `completion_verdict` demands. -/
def gated (g : WorkGraph) : List String :=
  (g.nodes.filter fun n => decide (n.kind = .implement ∨ n.kind = .integrate)).map WorkNode.nodeId

/-- The last review is a clean pass over the integrated work of every gated node. -/
def FreshReview (g : WorkGraph) (log : List Event) : Prop :=
  ∃ p ∈ lastReview log, passes p.2.1.body = true ∧ Covers (gated g) p.1 p.2.2

instance (log : List Event) : Decidable (Passed log) := inferInstanceAs (Decidable (∃ p ∈ lastReview log, _))

instance (ids : List String) (before after : List Event) : Decidable (Covers ids before after) :=
  decidable_of_iff ((∀ i ∈ ids, ∃ found ∈ priorValidated (nodeLog i before), found.1 ∈ lastIntegrated before) ∧
    ∀ i ∈ ids, validated ∉ recordedStates (nodeLog i after)) ⟨fun h => ⟨h.1,h.2⟩,fun h => ⟨h.1,h.2⟩⟩

instance (g : WorkGraph) (log : List Event) : Decidable (FreshReview g log) :=
  inferInstanceAs (Decidable (∃ p ∈ lastReview log, _))

/-- A run directory under its present life; `reviewed` are the nodes of the graph under which
the last review of the log was made. -/
structure Directory where
  graph : WorkGraph
  cfg : Config
  sys : Sys
  reviewed : List String := []

/-- `resume`: the controller dies, perhaps behind the first events of a step, and
`run_golden_path` is started on the directory with a graph and a configuration. -/
inductive Turn
  | live (a : Live)
  | resume (graph : WorkGraph) (cfg : Config) (during : Option (Live × ℕ)) (reports : List Report)

namespace Directory

def init (g : WorkGraph) (cfg : Config) : Directory where
  graph := g
  cfg := cfg
  sys := Sys.init g

def seen (d : Directory) (log : List Event) : List String :=
  if ∃ e ∈ log.drop d.sys.log.length, e.body.isReview = true then d.graph.ids else d.reviewed

def step (d : Directory) : Turn → Option Directory
  | .live a => (d.sys.liveStep d.graph d.cfg a).map fun s => {d with sys := s, reviewed := d.seen s.log}
  | .resume g cfg during reports => (d.sys.cutLog d.graph d.cfg during).map (fun cut =>
      ⟨g,cfg,boot g (cut ++ reports.map Report.event),d.seen cut⟩)

/-- A directory with a passed review is resumed only with gated nodes that were in the graph
of that review. -/
def Covered (d : Directory) : Turn → Prop
  | .live _ => True
  | .resume g _ during _ => ∀ cut ∈ d.sys.cutLog d.graph d.cfg during, Passed cut → ∀ i ∈ gated g, i ∈ d.seen cut

instance (d : Directory) : DecidablePred d.Covered
  | .live _ => isTrue trivial
  | .resume _ _ _ _ => inferInstanceAs (Decidable (∀ cut ∈ d.sys.cutLog d.graph d.cfg _, _))

end Directory

/-! ### Reviews in a log that goes on -/

section
variable {ids : List String} {log new before after pre post : List Event} {e : Event}

theorem lastReview_none : lastReview log = none ↔ ∀ e ∈ log, e.body.isReview = false := by
  induction log with
  | nil => simp [lastReview]
  | cons e log ih =>
    simp only [lastReview]
    cases hrest : lastReview log with
    | none =>
      rw [List.forall_mem_cons]
      cases he : e.body.isReview with
      | true => simp
      | false => simpa using ih.mp hrest
    | some p =>
      have hsome : ¬ ∀ e ∈ log, e.body.isReview = false := fun h => by
        rw [ih.mpr h] at hrest
        cases hrest
      simp only [reduceCtorEq,List.forall_mem_cons,false_iff,not_and]
      exact fun _ => hsome

theorem lastReview_append (log new : List Event) : lastReview (log ++ new) = match lastReview new with
    | some (before,e,after) => some (log ++ before,e,after)
    | none => (lastReview log).map fun p => (p.1,p.2.1,p.2.2 ++ new) := by
  induction log with
  | nil =>
    cases hnew : lastReview new with
    | none => simp [lastReview,hnew]
    | some p => simp [hnew]
  | cons e log ih =>
    rw [List.cons_append,lastReview,ih]
    cases hnew : lastReview new with
    | some p => rfl
    | none =>
      simp only [lastReview]
      cases lastReview log with
      | some p => rfl
      | none => cases he : e.body.isReview <;> rfl

theorem lastReview_last (he : e.body.isReview = true) (hpost : ∀ x ∈ post, x.body.isReview = false) :
    lastReview (log ++ e :: post) = some (log,e,post) := by
  have hlast : lastReview (e :: post) = some ([],e,post) := by
    simp [lastReview,lastReview_none.mpr hpost,he]
  rw [lastReview_append,hlast]
  simp only [append_nil]

theorem lastReview_hushed (hnew : ∀ x ∈ new, x.body.isReview = false) :
    lastReview (log ++ new) = (lastReview log).map fun p => (p.1,p.2.1,p.2.2 ++ new) := by
  rw [lastReview_append,lastReview_none.mpr hnew]

theorem lastReview_split {p : List Event × Event × List Event} (h : lastReview log = some p) :
    log = p.1 ++ p.2.1 :: p.2.2 ∧ p.2.1.body.isReview = true ∧ ∀ x ∈ p.2.2, x.body.isReview = false := by
  induction log generalizing p with
  | nil => cases h
  | cons e log ih =>
    simp only [lastReview] at h
    split at h
    · rename_i q hq
      cases h
      obtain ⟨hlog,he,hafter⟩ := ih hq
      exact ⟨by rw [hlog]; rfl,he,hafter⟩
    · rename_i hnone
      split at h
      · cases h
        exact ⟨rfl,‹_›,lastReview_none.mp hnone⟩
      · cases h

theorem passed_append (hnew : ∀ x ∈ new, x.body.isReview = false) : Passed (log ++ new) ↔ Passed log := by
  rw [Passed,Passed,lastReview_hushed hnew]
  cases lastReview log <;> simp

theorem passed_of_reviewBlock (hstatus : (reviewBlock log).status = some .pass) (hblocking : (reviewBlock log).blocking = 0) :
    Passed log := by
  cases hlast : lastReview log with
  | none =>
    have hnone : reviewBlock log = {} := by
      rw [reviewBlock,List.filterMap_eq_nil_iff.mpr]
      · rfl
      · intro e he
        have hquiet := lastReview_none.mp hlast e he
        obtain ⟨i,b⟩ := e
        cases b with
        | review => cases hquiet
        | _ => rfl
    rw [hnone] at hstatus
    cases hstatus
  | some p =>
    obtain ⟨hlog,he,hafter⟩ := lastReview_split hlast
    obtain ⟨before,⟨i,b⟩,after⟩ := p
    refine ⟨_,hlast,?_⟩
    dsimp only at hlog he hafter ⊢
    cases b with
    | review status routeId blocking =>
      have hblock : reviewBlock log = ⟨some status,routeId,blocking⟩ := by
        rw [reviewBlock,hlog,List.filterMap_append,List.filterMap_cons,(List.filterMap_eq_nil_iff (l := after)).mpr]
        · simp
        · intro x hx
          have hquiet := hafter x hx
          obtain ⟨j,b⟩ := x
          cases b with
          | review => cases hquiet
          | _ => rfl
      rw [hblock] at hstatus hblocking
      cases hstatus
      cases hblocking
      rfl
    | _ => cases he

theorem Reviewed.append (h : Reviewed ids log) (hnew : ∀ x ∈ new, x.body.isReview = false)
    (hsettled : ∀ i ∈ ids, priorValidated (nodeLog i log) ≠ none → validated ∉ recordedStates (nodeLog i new)) :
    Reviewed ids (log ++ new) := by
  intro p hp
  rw [lastReview_hushed hnew] at hp
  obtain ⟨⟨before,e,after⟩,hlast,rfl⟩ := Option.map_eq_some_iff.mp hp
  obtain ⟨hcontained,hafter⟩ := h _ hlast
  obtain ⟨hlog,-,-⟩ := lastReview_split hlast
  refine ⟨hcontained,fun i hi => ?_⟩
  have hdone : priorValidated (nodeLog i log) ≠ none := by
    obtain ⟨found,hfound,-⟩ := hcontained i hi
    rw [hlog,nodeLog_append,priorValidated_append,hfound]
    simp
  rw [nodeLog_append,recordedStates_append,List.mem_append]
  exact not_or.mpr ⟨hafter i hi,hsettled i hi hdone⟩

theorem lastIntegrated_append (h : new.filterMap (fun e => match e.body with
    | .integrate commits _ => some commits
    | _ => none) = []) : lastIntegrated (log ++ new) = lastIntegrated log := by
  simp only [lastIntegrated,List.filterMap_append,h,append_nil]

theorem priorValidated_run {i : String} (hi : i ≠ "") (hnew : ∀ x ∈ new, x.nodeId = "") :
    nodeLog i (log ++ new) = nodeLog i log := by
  have hnone : nodeLog i new = [] := by
    rw [nodeLog,List.filter_eq_nil_iff.mpr]
    · rfl
    · intro x hx
      rw [hnew x hx,decide_eq_true_eq]
      exact hi.symm
  rw [nodeLog_append,hnone,append_nil]

end
/-! ### The invariant of a history -/

namespace Directory

structure Inv (d : Directory) : Prop where
  sound : Sound d.sys
  tidy : Tidy d.graph d.sys
  concluded : Concluded d.graph d.cfg (fun _ _ => True) d.sys
  /-- While a review is being made, the last integration is of the commits of the nodes. -/
  integrated : ∀ level, d.sys.phase = .reviewing level → lastIntegrated d.sys.log = d.sys.commits d.graph
  named : ∀ i ∈ d.reviewed, i ≠ ""
  reviewed : Reviewed d.reviewed d.sys.log
  gated : Passed d.sys.log → ∀ i ∈ gated d.graph, i ∈ d.reviewed

end Directory

section
variable {g : WorkGraph} {cfg : Config} {s t : Sys} {d d' : Directory} {a : Live} {cut : List Event}

theorem gated_ids {i : String} (hi : i ∈ gated g) : i ∈ g.ids := by
  obtain ⟨n,hn,rfl⟩ := mem_map.mp hi
  exact List.mem_map_of_mem (List.mem_of_mem_filter hn)

theorem ids_named {i : String} (hi : i ∈ g.ids) : i ≠ "" := by
  obtain ⟨n,_,rfl⟩ := mem_map.mp hi
  exact n.nodeId_ne

theorem liveStep_integrated (h : Concluded g cfg (fun _ _ => True) s)
    (hi : ∀ level, s.phase = .reviewing level → lastIntegrated s.log = s.commits g)
    (hstep : s.liveStep g cfg a = some t) : ∀ level, t.phase = .reviewing level → lastIntegrated t.log = t.commits g := by
  intro level hphase
  have hdriven : ∀ {i f}, (∀ n c, c.task = none → f n c = none) → s.driven g i f = some t → False := by
    intro i f hf hd
    rw [driven_samePhase hd] at hphase
    simp only [Concluded,hphase] at h
    rw [h.1.driven hf] at hd
    cases hd
  cases a with
  | wake deadline =>
    simp only [liveStep] at hstep
    split at hstep
    · cases hstep
    · cases hstep
      split at hphase <;> cases hphase
  | control req =>
    simp only [liveStep] at hstep
    split at hstep
    · rename_i hpolling
      cases hstep
      simp only [Sys.handle] at hphase
      split at hphase
      · cases hphase
      · split at hphase <;> simp [say,put,hpolling] at hphase
      · split at hphase <;> simp [say,put,hpolling] at hphase
    · cases hstep
  | launch =>
    simp only [liveStep] at hstep
    split at hstep
    · cases hstep
      simp only [Sys.launch] at hphase
      split at hphase
      · cases hphase
      · split at hphase <;> cases hphase
    · cases hstep
  | drive i reply =>
    simp only [liveStep] at hstep
    split at hstep
    · cases hstep
    · exact (hdriven (fun n c hc => by simp [Cell.drive,hc]) hstep).elim
  | raised i during text =>
    simp only [liveStep] at hstep
    exact (hdriven (fun n c hc => by simp [Cell.raised,hc]) hstep).elim
  | cancelled i =>
    simp only [liveStep] at hstep
    exact (hdriven (fun n c hc => by simp [Cell.cancelled,hc]) hstep).elim
  | drained =>
    simp only [liveStep] at hstep
    split at hstep
    · cases hstep
      cases hphase
    · cases hstep
  | merged ref =>
    simp only [liveStep] at hstep
    split at hstep
    · cases hstep
      simp only [Sys.integrated] at hphase ⊢
      split at hphase
      · cases hphase
      · split at hphase
        · cases hphase
        · rename_i hreview hreviewer
          rw [if_neg hreview,if_neg hreviewer]
          simp [lastIntegrated,say,Sys.commits]
    · cases hstep
  | reviewed r =>
    simp only [liveStep] at hstep
    split at hstep
    · rename_i level' hold
      cases hstep
      simp only [Sys.reviewed] at hphase ⊢
      split at hphase
      · rw [if_pos ‹_›]
        exact (lastIntegrated_append rfl).trans (hi level' hold)
      · split at hphase <;> cases hphase
    · cases hstep

theorem liveStep_review {new : List Event} (hstep : s.liveStep g cfg a = some t) (hlog : t.log = s.log ++ new) :
    (∀ x ∈ new, x.body.isReview = false) ∨ (∃ level, s.phase = .reviewing level) ∧ ∃ pre e post, new = pre ++ e :: post ∧
      e.body.isReview = true ∧ (∀ x ∈ pre, x.nodeId = "" ∧ ∃ type, x.body = .note type) ∧
      ∀ x ∈ post, x.nodeId = "" ∧ x.body.isReview = false := by
  by_cases ha : ∃ r, a = .reviewed r
  · obtain ⟨r,rfl⟩ := ha
    simp only [liveStep] at hstep
    split at hstep
    · rename_i level hphase
      cases hstep
      simp only [Sys.reviewed] at hlog
      split at hlog
      · refine .inl ?_
        cases List.append_cancel_left hlog
        simp [Body.isReview]
      · refine .inr ⟨⟨level,hphase⟩,?_⟩
        refine ⟨⟨"",.note .controller⟩ :: List.replicate r.attempts ⟨"",.note .reviewAttempt⟩,
          ⟨"",.review r.status r.routeId r.blocking⟩,
          [⟨"",.runFinished (if r.passed then .complete else .blocked)⟩],?_,rfl,?_,?_⟩
        · refine List.append_cancel_left (hlog.symm.trans ?_)
          split <;> simp [Sys.finish,say]
        · intro x hx
          rcases mem_cons.mp hx with rfl | hx
          · exact ⟨rfl,_,rfl⟩
          · rw [List.eq_of_mem_replicate hx]
            exact ⟨rfl,_,rfl⟩
        · intro x hx
          cases List.mem_singleton.mp hx
          exact ⟨rfl,rfl⟩
    · cases hstep
  · obtain ⟨new',hnew',hhushed⟩ := liveStep_hushed (fun r hr => ha ⟨r,hr⟩) hstep
    cases List.append_cancel_left (hlog.symm.trans hnew')
    exact .inl hhushed

structure Kept (d : Directory) (log : List Event) : Prop where
  named : ∀ i ∈ d.seen log, i ≠ ""
  reviewed : Reviewed (d.seen log) log
  gated : Passed log → ∀ i ∈ gated d.graph, i ∈ d.seen log

theorem Directory.Inv.hushed {new : List Event} (h : d.Inv) (hnew : ∀ x ∈ new, x.body.isReview = false)
    (hsettled : ∀ i, i ≠ "" → priorValidated (nodeLog i d.sys.log) ≠ none →
      validated ∉ recordedStates (nodeLog i new)) : Kept d (d.sys.log ++ new) := by
  have hseen : d.seen (d.sys.log ++ new) = d.reviewed := by
    rw [Directory.seen,List.drop_left,if_neg]
    rintro ⟨x,hx,hreview⟩
    rw [hnew x hx] at hreview
    cases hreview
  refine ⟨hseen ▸ h.named,?_,?_⟩
  · rw [hseen]
    exact h.reviewed.append hnew fun i hi => hsettled i (h.named i hi)
  · rw [hseen,passed_append hnew]
    exact h.gated

theorem Directory.Inv.review {level : Level} {pre post : List Event} {e : Event} (h : d.Inv)
    (hphase : d.sys.phase = .reviewing level) (he : e.body.isReview = true)
    (hpre : ∀ x ∈ pre, x.nodeId = "" ∧ ∃ type, x.body = .note type)
    (hpost : ∀ x ∈ post, x.nodeId = "" ∧ x.body.isReview = false) : Kept d (d.sys.log ++ (pre ++ e :: post)) := by
  have hseen : d.seen (d.sys.log ++ (pre ++ e :: post)) = d.graph.ids := by
    rw [Directory.seen,List.drop_left,if_pos]
    exact ⟨e,List.mem_append_right _ List.mem_cons_self,he⟩
  have hquiet : Quiet d.graph d.sys := by
    have hconcluded := h.concluded
    simp only [Concluded,hphase] at hconcluded
    exact hconcluded.1
  refine ⟨hseen ▸ fun i hi => ids_named hi,?_,hseen ▸ fun _ i hi => gated_ids hi⟩
  rw [hseen,← append_assoc]
  intro p hp
  rw [lastReview_last he fun x hx => (hpost x hx).2] at hp
  cases hp
  refine ⟨fun i hi => ?_,fun i hi => ?_⟩
  · obtain ⟨n,hn,rfl⟩ := mem_map.mp hi
    obtain ⟨r,hr⟩ := (h.sound n.nodeId n.nodeId_ne).isSealed (hquiet.validated n hn)
    refine ⟨_,(congrArg priorValidated (priorValidated_run n.nodeId_ne fun x hx => (hpre x hx).1)).trans hr,?_⟩
    rw [lastIntegrated_append,h.integrated level hphase]
    · refine List.mem_filter.mpr ⟨List.mem_map_of_mem hn,?_⟩
      exact decide_eq_true (priorValidated_ne hr)
    · refine List.filterMap_eq_nil_iff.mpr (fun x hx => ?_)
      obtain ⟨-,type,htype⟩ := hpre x hx
      simp only [htype]
  · have hnone : nodeLog i ([] ++ post) = nodeLog i [] := priorValidated_run (ids_named hi) (fun x hx => (hpost x hx).1)
    rw [List.nil_append] at hnone
    rw [hnone]
    exact not_mem_nil

theorem Directory.Inv.extend (h : d.Inv) (hstep : d.sys.liveStep d.graph d.cfg a = some t)
    (hlow : d.sys.log <+: cut) (hhigh : cut <+: t.log) : Kept d cut := by
  obtain ⟨new,rfl⟩ := hlow
  obtain ⟨rest,hrest⟩ := hhigh
  rw [append_assoc] at hrest
  have hquiet : (∀ x ∈ new, x.body.isReview = false) → Kept d (d.sys.log ++ new) := by
    refine fun hnew => h.hushed hnew fun i hi hdone hbad => ?_
    refine liveStep_settled h.sound h.tidy hi hstep hrest.symm hdone ?_
    rw [nodeLog_append,recordedStates_append]
    exact mem_append_left _ hbad
  rcases liveStep_review hstep hrest.symm with hnew | ⟨⟨level,hphase⟩,pre,e,post,hnew,he,hpre,hpost⟩
  · exact hquiet fun x hx => hnew x (mem_append_left _ hx)
  · have hnotes : ∀ x ∈ pre, x.body.isReview = false := by
      intro x hx
      obtain ⟨-,type,htype⟩ := hpre x hx
      rw [htype]
      rfl
    rcases List.append_eq_append_iff.mp hnew with ⟨more,rfl,-⟩ | ⟨more,rfl,hmore⟩
    · exact hquiet fun x hx => hnotes x (mem_append_left _ hx)
    · cases more with
      | nil =>
        rw [append_nil] at hquiet ⊢
        exact hquiet hnotes
      | cons e' post' =>
        obtain ⟨rfl,rfl⟩ := List.cons.inj hmore
        exact h.review hphase he hpre fun x hx => hpost x (mem_append_left _ hx)

theorem Directory.Inv.died {during : Option (Live × ℕ)} (h : d.Inv)
    (hcut : d.sys.cutLog d.graph d.cfg during = some cut) : Kept d cut := by
  cases during with
  | none =>
    cases hcut
    have hsame : Kept d (d.sys.log ++ []) := h.hushed (by simp) fun _ _ _ => not_mem_nil
    rwa [append_nil] at hsame
  | some during =>
    obtain ⟨a,k⟩ := during
    obtain ⟨t,ht,rfl⟩ := Option.map_eq_some_iff.mp hcut
    refine h.extend ht ?_ (List.take_prefix _ _)
    obtain ⟨new,hnew⟩ := liveStep_grows h.tidy ht
    rw [← hnew,List.take_length_add_append]
    exact List.prefix_append _ _

theorem boot_goes_on (g : WorkGraph) (cut : List Event) (reports : List Report) : ∃ new,
    (boot g (cut ++ reports.map Report.event)).log = cut ++ new ∧ (∀ x ∈ new, x.body.isReview = false) ∧ ∀
    i, i ≠ "" → validated ∉ recordedStates (nodeLog i new) := by
  obtain ⟨new,hnew,hhushed⟩ : Hushed cut (boot g (cut ++ reports.map Report.event)).log := by
    refine ⟨_,by simp only [boot,append_assoc]; rfl,fun x hx => ?_⟩
    simp only [List.mem_append,mem_map,mem_cons,not_mem_nil,or_false] at hx
    rcases hx with ⟨report,_,rfl⟩ | rfl | hx | ⟨n,_,rfl⟩ | rfl
    · cases report <;> rfl
    · rfl
    · split at hx
      · cases List.mem_singleton.mp hx
        rfl
      · cases hx
    · rfl
    · rfl
  refine ⟨new,hnew,hhushed,fun i hi => ?_⟩
  obtain ⟨notes,hlog,hnotes⟩ := nodeLog_boot_cut (g := g) hi (cut ++ reports.map Report.event)
  rw [hnew,nodeLog_append,nodeLog_reports hi,List.append_cancel_left_eq] at hlog
  rw [hlog]
  intro hmem
  obtain ⟨b,hb,hstate⟩ := List.mem_filterMap.mp hmem
  obtain ⟨type,rfl⟩ := hnotes b hb
  cases hstate

theorem directory_step {turn : Turn} (h : d.Inv) (hcovered : d.Covered turn) (hstep : d.step turn = some d') : d'.Inv := by
  cases turn with
  | live a =>
    obtain ⟨t,ht,rfl⟩ := Option.map_eq_some_iff.mp hstep
    have hkept := h.extend ht (liveStep_grows h.tidy ht) List.prefix_rfl
    exact ⟨liveStep_sound h.sound h.tidy ht,liveStep_tidy h.tidy ht,
      liveStep_concluded h.concluded (fun _ _ _ => trivial) ht,liveStep_integrated h.concluded h.integrated ht,
      hkept.named,hkept.reviewed,hkept.gated⟩
  | resume g cfg during reports =>
    obtain ⟨cut,hcut,rfl⟩ := Option.map_eq_some_iff.mp hstep
    have hkept := h.died hcut
    obtain ⟨new,hnew,hhushed,hsettled⟩ := boot_goes_on g cut reports
    refine ⟨boot_all_sound g _,boot_tidy _,trivial,fun level hphase => (by cases hphase),hkept.named,?_,?_⟩
    · dsimp only
      rw [hnew]
      exact hkept.reviewed.append hhushed fun i hi _ => hsettled i (hkept.named i hi)
    · dsimp only
      rw [hnew,passed_append hhushed]
      exact hcovered cut hcut

theorem init_directory : (Directory.init g cfg).Inv := by
  refine ⟨boot_all_sound g _,boot_tidy _,trivial,fun level hphase => (by cases hphase),by simp [Directory.init],?_,?_⟩
  · obtain ⟨new,hnew,hhushed,-⟩ := boot_goes_on g [] []
    intro p hp
    rw [show (Directory.init g cfg).sys.log = [] ++ new from hnew,lastReview_hushed hhushed] at hp
    cases hp
  · obtain ⟨new,hnew,hhushed,-⟩ := boot_goes_on g [] []
    rw [show (Directory.init g cfg).sys.log = [] ++ new from hnew,passed_append hhushed]
    rintro ⟨p,hp,-⟩
    cases hp

/-- In every history of a directory that never brings unreviewed nodes under a passed review,
a complete receipt rests on a review of all it covers. -/
theorem complete_rests_on_fresh_review {turns : List Turn}
    (hcovered : AllSteps Directory.step Directory.Covered (Directory.init g cfg) turns)
    (h : exec Directory.step (Directory.init g cfg) turns = some d)
    (hcomplete : (buildRunReceipt d.graph d.sys.log).completionVerdict.1 = .complete) : FreshReview d.graph d.sys.log := by
  have hinv := exec_invariant_of (fun _ _ _ => directory_step) hcovered h init_directory
  obtain ⟨-,-,-,-,hstatus,hblocking⟩ := (RunReceipt.completionVerdict_complete _).mp hcomplete
  have hpassed : Passed d.sys.log := passed_of_reviewBlock hstatus hblocking
  obtain ⟨p,hp,hpasses⟩ := hpassed
  have hcovers := hinv.reviewed p hp
  have hsub := hinv.gated ⟨p,hp,hpasses⟩
  exact ⟨p,hp,hpasses,fun i hi => hcovers.contained i (hsub i hi),fun i hi => hcovers.settled i (hsub i hi)⟩

end

/-- `alpha` is implemented, integrated and accepted. -/
def acceptedSolo : List Turn :=
  (sendAlpha "glm" ++ sealAlpha "c1" ++ [Act.live (.wake false)] ++ acceptRun "opus").filterMap (fun a => match a with
    | .live a => some (Turn.live a)
    | .restart _ _ => none)

theorem complete_rests_on_fresh_review_resumed : ∃ d, exec Directory.step (Directory.init soloGraph {})
    (acceptedSolo ++ [.resume soloGraph {} none []]) = some d ∧ FreshReview d.graph d.sys.log := by
  obtain ⟨d,hd,hcomplete⟩ : ∃ d ∈ exec Directory.step (Directory.init soloGraph {})
      (acceptedSolo ++ [.resume soloGraph {} none []]),
      (buildRunReceipt d.graph d.sys.log).completionVerdict.1 = .complete := by
    decide +kernel
  exact ⟨d,hd,complete_rests_on_fresh_review (by decide +kernel) hd hcomplete⟩

/-- The directory is resumed with a second node, and that life ends blocked because it has no
reviewer. The receipt is complete on the review of the first life, before `beta` was validated. -/
theorem second_node_unreviewed : ∃ d ∈ exec Directory.step (Directory.init soloGraph {})
      (acceptedSolo ++ [.resume chainGraph {reviewer := false} none []] ++
        (sealBeta "c2" ++ [Live.merged "m2"]).map Turn.live),
    d.sys.phase = .finished .blocked ∧ (buildRunReceipt d.graph d.sys.log).completionVerdict.1 = .complete ∧
      ¬ FreshReview d.graph d.sys.log := by
  decide +kernel

end Verdict.Receipt

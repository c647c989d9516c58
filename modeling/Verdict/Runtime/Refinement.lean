import Verdict.Runtime.Protocol

/-! # Drivers follow the event protocol

`Link` relates the record of a node to the summary of its log, whatever its driver is doing; `At`
adds what holds at each `await`. `Safe` is a program logic for lists of effects: each is allowed
where it stands, and the postcondition holds at the end. As `Link` holds behind every single
effect, an exception or a crash in the middle of a segment is covered. `S` stands for routes on
record somewhere else.
-/
namespace Verdict.Runtime
open Driver

structure Link (S : String → Prop) (n : WorkNode) (maxAttempts : ℕ) (run : NodeRun) (tr : Track) : Prop where
  done : run.state = .validated ↔ tr.done = true
  attempts : Worker n → tr.done = false → tr.top ≤ run.attempt ∧ run.attempt ≤ maxAttempts
  routes : ∀ r ∈ tr.routes, r = run.routeId ∨ r ∈ run.historyRoutes ∨ S r

/-- Every route that was sent work is on record, so the node may be bound to another one. -/
def Recorded (S : String → Prop) (run : NodeRun) (tr : Track) : Prop :=
  ∀ r ∈ tr.routes, r ∈ run.historyRoutes ∨ S r

def Ok (S : String → Prop) (n : WorkNode) (maxAttempts : ℕ) (run : NodeRun) (tr : Track) : Eff → Prop
  | .set .validated commit => run.state = .terminalSuccess →
      Admits n maxAttempts tr (.nodeState .validated run.routeId commit)
  | .emit body => Admits n maxAttempts tr body ∧ match body with
    | .nodeState _ _ _ => False
    | .dispatch routeId attempt => routeId = run.routeId ∧ attempt = run.attempt
    | _ => True
  | .bind _ => (Worker n → run.attempt < maxAttempts) ∧ Recorded S run tr
  | .unbind _ => (Worker n → tr.top < run.attempt) ∧ Recorded S run tr
  | _ => True

section
variable {S : String → Prop} {n : WorkNode} {maxAttempts : ℕ} {run run' : NodeRun} {tr : Track}

theorem Link.notDone (h : Link S n maxAttempts run tr) (hs : run.state ≠ .validated) : tr.done = false :=
  Bool.eq_false_iff.mpr fun hd => hs (h.done.mpr hd)

theorem Link.mono {S' : String → Prop} (h : Link S n maxAttempts run tr) (hS : ∀ r, S r → S' r) :
    Link S' n maxAttempts run tr :=
  ⟨h.done,h.attempts,fun r hr => (h.routes r hr).imp_right (Or.imp_right (hS r))⟩

theorem Recorded.mono {S' : String → Prop} (h : Recorded S run tr) (hS : ∀ r, S r → S' r) :
    Recorded S' run tr := fun r hr => (h r hr).imp_right (hS r)

theorem next_nodeState_done {state : NodeState} {routeId commit : String} (h : state ≠ .validated) :
    (tr.next n (.nodeState state routeId commit)).done = tr.done := by
  simp [Track.next,h]

theorem Link.setState {state : NodeState} {routeId commit : String} (h : Link S n maxAttempts run tr)
    (hopen : run.state ≠ .validated) (hne : state ≠ .validated) (hstate : run'.state = state)
    (hattempt : run'.attempt = run.attempt) (hroute : run'.routeId = run.routeId)
    (hhistory : run'.history = run.history) :
    Link S n maxAttempts run' (tr.next n (.nodeState state routeId commit)) := by
  have hd := h.notDone hopen
  refine ⟨?_,fun hw _ => ?_,fun r hr => ?_⟩
  · rw [next_nodeState_done hne,hd,hstate]
    simp [hne]
  · rw [hattempt]
    exact h.attempts hw hd
  · rw [hroute,NodeRun.historyRoutes,hhistory]
    exact h.routes r hr

theorem admits_nodeState {state : NodeState} {routeId commit : String} (hne : state ≠ .validated)
    (hd : tr.done = false) : Admits n maxAttempts tr (.nodeState state routeId commit) := by
  cases state <;> simp_all [Admits]

theorem Link.emit {body : Body} (h : Link S n maxAttempts run tr)
    (hok : Ok S n maxAttempts run tr (.emit body)) : Link S n maxAttempts run (tr.next n body) := by
  obtain ⟨hadm,hbody⟩ := hok
  cases body with
  | nodeState => exact hbody.elim
  | dispatch routeId attempt =>
    obtain ⟨rfl,rfl⟩ := hbody
    obtain ⟨hd,hw,htop,hmax,_⟩ := hadm
    refine ⟨h.done,fun _ _ => ⟨?_,hmax⟩,fun r hr => ?_⟩
    · exact max_le htop.le le_rfl
    · rcases List.mem_cons.mp hr with rfl | hr
      · exact .inl rfl
      · exact h.routes r hr
  | terminal ok => cases ok <;> exact ⟨h.done,h.attempts,h.routes⟩
  | verify ok => cases ok <;> exact ⟨h.done,h.attempts,h.routes⟩
  | barrier name ok =>
    simp only [Track.next]
    split <;> exact ⟨h.done,h.attempts,h.routes⟩
  | _ => exact h

theorem Link.effect {e : Eff} {bodies : List Body} (h : Link S n maxAttempts run tr)
    (hok : Ok S n maxAttempts run tr e) (ha : e.apply run = some (run',bodies)) :
    AdmitsAll n maxAttempts tr bodies ∧ Link S n maxAttempts run' (tr.after n bodies) := by
  cases e with
  | set state commit =>
    obtain ⟨hlegal,rfl,rfl⟩ := apply_set ha
    have hopen : run.state ≠ .validated := by
      intro hv
      rw [hv] at hlegal
      cases hlegal
    by_cases hv : state = .validated
    · subst hv
      have hts : run.state = .terminalSuccess := by
        cases hs : run.state <;> simp_all [transitions]
      have hadm := hok hts
      refine ⟨⟨hadm,trivial⟩,?_,fun _ hd => ?_,h.routes⟩
      · simp [Track.next,hadm.1]
      · simp [Track.next,hadm.1] at hd
    · have hadm : Admits n maxAttempts tr (.nodeState state run.routeId commit) :=
        admits_nodeState hv (h.notDone hopen)
      have hlink : Link S n maxAttempts {run with state := state} (tr.next n (.nodeState state run.routeId commit)) :=
        h.setState hopen hv rfl rfl rfl rfl
      exact ⟨⟨hadm,trivial⟩,hlink⟩
  | emit body => cases ha; exact ⟨⟨hok.1,trivial⟩,h.emit hok⟩
  | bind routeId =>
    cases ha
    refine ⟨trivial,h.done,fun hw hd => ?_,fun r hr => .inr (hok.2 r hr)⟩
    obtain ⟨hle,hmax⟩ := h.attempts hw hd
    have hlt := hok.1 hw
    simp only [Track.after_nil]
    omega
  | unbind previous =>
    cases ha
    refine ⟨trivial,h.done,fun hw hd => ?_,fun r hr => .inr (hok.2 r hr)⟩
    obtain ⟨hle,hmax⟩ := h.attempts hw hd
    have hlt := hok.1 hw
    simp only [Track.after_nil]
    omega
  | record row =>
    cases ha
    refine ⟨trivial,h.done,h.attempts,fun r hr => ?_⟩
    rcases h.routes r hr with hr | hr | hr
    · exact .inl hr
    · exact .inr (.inl (by simp only [NodeRun.historyRoutes,List.map_append]; exact List.mem_append_left _ hr))
    · exact .inr (.inr hr)
  | _ => cases ha; exact ⟨trivial,h.done,h.attempts,h.routes⟩

end

/-- Every effect of the list is allowed where it stands, and the postcondition holds
behind the last one. -/
def Safe (S : String → Prop) (n : WorkNode) (maxAttempts : ℕ) (post : NodeRun → Track → Prop) :
    NodeRun → Track → List Eff → Prop
  | run, tr, [] => post run tr
  | run, tr, e :: es => Ok S n maxAttempts run tr e ∧ ∀ run' bodies, e.apply run = some (run',bodies) →
      Link S n maxAttempts run' (tr.after n bodies) → Safe S n maxAttempts post run' (tr.after n bodies) es

section
variable {S : String → Prop} {n : WorkNode} {maxAttempts : ℕ} {post : NodeRun → Track → Prop}
  {run : NodeRun} {tr : Track} {es : List Eff}

theorem perform_safe (hlink : Link S n maxAttempts run tr) (hs : Safe S n maxAttempts post run tr es) :
    AdmitsAll n maxAttempts tr (perform run es).events ∧ Link S n maxAttempts (perform run es).run
    (tr.after n (perform run es).events) ∧
    ((perform run es).ok = true → post (perform run es).run (tr.after n (perform run es).events)) := by
  induction es generalizing run tr with
  | nil => exact ⟨trivial,hlink,fun _ => hs⟩
  | cons e es ih =>
    cases ha : e.apply run with
    | none =>
      simp only [perform,ha]
      exact ⟨trivial,hlink,by simp⟩
    | some res =>
      obtain ⟨run',bodies⟩ := res
      obtain ⟨hadm,hlink'⟩ := hlink.effect hs.1 ha
      obtain ⟨hadm',hrest⟩ := ih hlink' (hs.2 run' bodies ha hlink')
      simp only [perform,ha]
      rw [admitsAll_append,Track.after_append]
      exact ⟨⟨hadm,hadm'⟩,hrest⟩

theorem Safe.take (k : ℕ) (hs : Safe S n maxAttempts post run tr es) :
    Safe S n maxAttempts (fun _ _ => True) run tr (es.take k) := by
  induction es generalizing run tr k with
  | nil => simp only [List.take_nil]; trivial
  | cons e es ih =>
    cases k with
    | zero => exact trivial
    | succ k => exact ⟨hs.1,fun run' bodies ha hlink => ih k (hs.2 run' bodies ha hlink)⟩

theorem Safe.mono {post' : NodeRun → Track → Prop} (hs : Safe S n maxAttempts post run tr es)
    (h : ∀ run' tr', post run' tr' → post' run' tr') : Safe S n maxAttempts post' run tr es := by
  induction es generalizing run tr with
  | nil => exact h run tr hs
  | cons e es ih => exact ⟨hs.1,fun run' bodies ha hlink => ih (hs.2 run' bodies ha hlink)⟩

theorem Safe.append {es' : List Eff}
    (hs : Safe S n maxAttempts (fun run' tr' => run' = (perform run es).run → Safe S n maxAttempts post run' tr' es')
      run tr es) : Safe S n maxAttempts post run tr (es ++ es') := by
  induction es generalizing run tr with
  | nil => exact hs rfl
  | cons e es ih =>
    refine ⟨hs.1,fun run' bodies ha hlink => ih ?_⟩
    have hrest := hs.2 run' bodies ha hlink
    simpa only [perform,ha] using hrest

theorem Safe.nil (h : post run tr) : Safe S n maxAttempts post run tr [] := h

theorem Safe.set {state : NodeState} {commit : String} (hv : state ≠ .validated)
    (h : state ∈ transitions run.state →
      Link S n maxAttempts {run with state := state} (tr.next n (.nodeState state run.routeId commit)) →
      Safe S n maxAttempts post {run with state := state} (tr.next n (.nodeState state run.routeId commit)) es) :
    Safe S n maxAttempts post run tr (.set state commit :: es) := by
  refine ⟨?_,fun run' bodies ha hlink => ?_⟩
  · cases state <;> trivial
  · obtain ⟨hlegal,rfl,rfl⟩ := apply_set ha
    exact h hlegal hlink

theorem Safe.emit {body : Body} (hok : Ok S n maxAttempts run tr (.emit body))
    (h : Link S n maxAttempts run (tr.next n body) → Safe S n maxAttempts post run (tr.next n body) es) :
    Safe S n maxAttempts post run tr (.emit body :: es) := by
  refine ⟨hok,fun run' bodies ha hlink => ?_⟩
  cases ha
  exact h hlink

theorem Safe.note {type : Note} (h : Safe S n maxAttempts post run tr es) :
    Safe S n maxAttempts post run tr (.emit (.note type) :: es) :=
  Safe.emit ⟨trivial,trivial⟩ fun _ => h

theorem Safe.failure {category : Category} {routeId : String} {attempt : Option ℕ}
    (h : Safe S n maxAttempts post run tr es) :
    Safe S n maxAttempts post run tr (.emit (.failure category routeId attempt) :: es) :=
  Safe.emit ⟨trivial,trivial⟩ fun _ => h

theorem Safe.reason {text : String}
    (h : Link S n maxAttempts {run with reason := text} tr →
      Safe S n maxAttempts post {run with reason := text} tr es) :
    Safe S n maxAttempts post run tr (.reason text :: es) := by
  refine ⟨trivial,fun run' bodies ha hlink => ?_⟩
  cases ha
  exact h hlink

theorem Safe.record {row : HistoryRow}
    (h : Link S n maxAttempts {run with history := run.history ++ [row]} tr →
      Safe S n maxAttempts post {run with history := run.history ++ [row]} tr es) :
    Safe S n maxAttempts post run tr (.record row :: es) := by
  refine ⟨trivial,fun run' bodies ha hlink => ?_⟩
  cases ha
  exact h hlink

/-- `_record_failure` ends in the failed state with the attempt's route on record. -/
theorem Safe.recordFailure {cfg : Config} {failure : FailureClassification} {validated : Bool}
    (h : ∀ run', run'.state = (if validated then .rejected else .terminalFailure) →
      run'.state ∈ transitions run.state →
      Recorded S run' (tr.next n (.nodeState run'.state run.routeId "")) →
      Link S n maxAttempts run' (tr.next n (.nodeState run'.state run.routeId "")) →
      Safe S n maxAttempts post run' (tr.next n (.nodeState run'.state run.routeId "")) es) :
    Safe S n maxAttempts post run tr (recordFailure cfg run failure validated ++ es) := by
  have hne : (if validated then NodeState.rejected else .terminalFailure) ≠ .validated := by
    cases validated <;> simp
  simp only [Runtime.recordFailure,List.append_assoc,List.cons_append,List.nil_append]
  refine ⟨trivial,fun run₁ _ ha _ => ?_⟩
  cases ha
  refine Safe.set hne fun hlegal hlink => Safe.failure ?_
  -- the two optional notes leave record and summary alone
  have hnotes : ∀ (c : Prop) [Decidable c] (type : Note) (es' : List Eff) (run₂ : NodeRun) (tr₂ : Track),
      Safe S n maxAttempts post run₂ tr₂ es' →
        Safe S n maxAttempts post run₂ tr₂ ((if c then [.emit (.note type)] else []) ++ es') := by
    intro c _ type es' run₂ tr₂ hs
    split
    · exact Safe.note hs
    · exact hs
  refine hnotes _ _ _ _ _ (hnotes _ _ _ _ _ (Safe.record fun hlink' => ?_))
  refine h _ rfl hlegal (fun r hr => ?_) hlink'
  rcases hlink.routes r hr with hr | hr | hr
  · exact .inl (by simp [NodeRun.historyRoutes,hr])
  · left
    simp only [NodeRun.historyRoutes,List.map_append]
    exact List.mem_append_left _ hr
  · exact .inr hr

theorem Safe.bind {routeId : String} (hattempt : Worker n → run.attempt < maxAttempts)
    (hrec : Recorded S run tr)
    (h : Safe S n maxAttempts post {run with attempt := run.attempt + 1, routeId := routeId} tr es) :
    Safe S n maxAttempts post run tr (.bind routeId :: es) := by
  refine ⟨⟨hattempt,hrec⟩,fun run' bodies ha _ => ?_⟩
  cases ha
  exact h

theorem Safe.unbind {previous : String} (hattempt : Worker n → tr.top < run.attempt)
    (hrec : Recorded S run tr)
    (h : Safe S n maxAttempts post {run with attempt := run.attempt - 1, routeId := previous} tr es) :
    Safe S n maxAttempts post run tr (.unbind previous :: es) := by
  refine ⟨⟨hattempt,hrec⟩,fun run' bodies ha _ => ?_⟩
  cases ha
  exact h

theorem Safe.commit {sha : String} (h : Safe S n maxAttempts post {run with commit := sha} tr es) :
    Safe S n maxAttempts post run tr (.commit sha :: es) := by
  refine ⟨trivial,fun run' bodies ha _ => ?_⟩
  cases ha
  exact h

theorem Safe.validate {commit : String} (hadm : Admits n maxAttempts tr (.nodeState .validated run.routeId commit))
    (h : Safe S n maxAttempts post {run with state := .validated}
      (tr.next n (.nodeState .validated run.routeId commit)) es) :
    Safe S n maxAttempts post run tr (.set .validated commit :: es) := by
  refine ⟨fun _ => hadm,fun run' bodies ha _ => ?_⟩
  obtain ⟨_,rfl,rfl⟩ := apply_set ha
  exact h

def Eff.quiet : Eff → Bool
  | .emit (.note _) | .budget _ | .repacked _ | .rehydrated _ => true
  | _ => false

theorem adjust_quiet (cfg : Config) (run : NodeRun) (failure : FailureClassification) :
    (Driver.adjust cfg run failure).all Eff.quiet = true := by
  simp only [Driver.adjust,Driver.repack]
  repeat' split
  all_goals simp [Eff.quiet]

/-- What `_drive` adjusts for the next attempt touches neither state nor route. -/
theorem Safe.adjust {cfg : Config} {failure : FailureClassification}
    (h : ∀ run', run'.state = run.state → run'.history = run.history → Safe S n maxAttempts post run' tr es) :
    Safe S n maxAttempts post run tr (Driver.adjust cfg run failure ++ es) := by
  have hquiet := adjust_quiet cfg run failure
  generalize Driver.adjust cfg run failure = effs at hquiet
  induction effs generalizing run with
  | nil => exact h run rfl rfl
  | cons e effs ih =>
    simp only [List.all_cons,Bool.and_eq_true] at hquiet
    obtain ⟨he,hrest⟩ := hquiet
    cases e with
    | emit body =>
      cases body with
      | note type => exact Safe.note (ih h hrest)
      | _ => cases he
    | budget | repacked | rehydrated =>
      refine ⟨trivial,fun run' bodies ha _ => ?_⟩
      cases ha
      exact ih h hrest
    | _ => cases he

end
end Verdict.Runtime

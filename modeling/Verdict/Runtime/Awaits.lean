import Verdict.Runtime.Refinement

/-! # What holds at each `await` of a driver

`At` is the invariant of a suspended driver. An operator's cancellation changes the state under a
driver, so most awaits allow `BLOCKED` and `TERMINAL_FAILURE` next to the state the driver left;
every later `_set` then refuses. Each lemma is one segment; `segment_safe` and `script_safe` put
them together.
-/
namespace Verdict.Runtime
open Driver
open Safe (adjust bind emit nil note record set)
open Track (next)

abbrev Config.maxAttempts (cfg : Config) : ℕ := cfg.policy.maxAttemptsPerNode

def Open (state : NodeState) (run : NodeRun) : Prop :=
  run.state = state ∨ run.state = .blocked ∨ run.state = .terminalFailure

def Succeeded (run : NodeRun) (tr : Track) : Prop :=
  run.state = .terminalSuccess ∧ tr.claimed = some .terminalSuccess ∧ tr.success = true

def Owned (n : WorkNode) (tr : Track) : Prop := n.kind = .implement → tr.gate = some true

def At (S : String → Prop) (n : WorkNode) (maxAttempts : ℕ) (run : NodeRun) (tr : Track) : Pc → Prop
  | .start => Open .planned run ∧ Recorded S run tr
  | .top | .cooldown => Worker n ∧ Open .planned run ∧ Recorded S run tr
  | .select => Worker n ∧ Open .planned run ∧ Recorded S run tr ∧ run.attempt < maxAttempts
  | .bindProof routeId => Worker n ∧ Open .planned run ∧ Recorded S run tr ∧ run.attempt < maxAttempts ∧ routeId ≠ ""
  | .slot _ => Worker n ∧ Open .planned run ∧ Recorded S run tr ∧ tr.top < run.attempt ∧ run.routeId ≠ ""
  | .prepare => Worker n ∧ Open .admitted run ∧ Recorded S run tr ∧ tr.top < run.attempt ∧ run.routeId ≠ ""
  | .commitPermit | .execute | .checkEpoch => Worker n ∧ Open .running run
  | .validate => Worker n ∧ Succeeded run tr
  | .verify _ => Worker n ∧ Succeeded run tr ∧ Owned n tr
  | .gates | .commit => Worker n ∧ Succeeded run tr ∧ Owned n tr ∧ tr.fresh = true
  | .seal => Worker n ∧ Succeeded run tr ∧ Owned n tr ∧ tr.fresh = true ∧ run.commit ≠ ""
  | .failing | .settling | .infraSleep => Worker n ∧ (run.state = .terminalFailure ∨ run.state = .rejected)
      ∧ Recorded S run tr
  | .leaving => run.state = .blocked ∨ run.state = .validated
  | .mergeBase => ¬ Worker n ∧ Open .running run
  | .mergeWorktree base => ¬ Worker n ∧ Succeeded run tr ∧ base ≠ "" ∧ tr.fresh = false
  | .mergeVerify base => ¬ Worker n ∧ Succeeded run tr ∧ base ≠ "" ∧ n.verificationCommand ≠ []
  | .mergeGates base => ¬ Worker n ∧ Succeeded run tr ∧ base ≠ "" ∧ tr.fresh = verifies n
  | .mergeRemove base none => ¬ Worker n ∧ Succeeded run tr ∧ base ≠ "" ∧ tr.fresh = verifies n
      ∧ tr.gate = some true
  | .mergeRemove _ (some _) => ¬ Worker n ∧ Succeeded run tr

/-- A returned driver has settled its node; a cancelled one leaves a planned node as it was. -/
def TaskInv (S : String → Prop) (n : WorkNode) (maxAttempts : ℕ) (t : Task) (run : NodeRun) (tr : Track) : Prop :=
  match t.status with
  | .running => At S n maxAttempts run tr t.pc
  | .returned => run.state = .blocked ∨ run.state = .validated
  | .cancelled => run.state = .planned → Recorded S run tr
  | .raised _ => True

section
variable {S : String → Prop} {cfg : Config} {n : WorkNode} {t : Task} {run : NodeRun} {tr : Track}

theorem Open.notValidated {state : NodeState} (h : Open state run) (hs : state ≠ .validated) :
    run.state ≠ .validated := by
  rcases h with h | h | h <;> rw [h] <;> first | exact hs | decide

variable {maxAttempts : ℕ}

theorem Succeeded.notDone (h : Succeeded run tr) (hlink : Link S n maxAttempts run tr) :
    tr.done = false := hlink.notDone (by rw [h.1]; decide)

variable {pc : Pc}

theorem taskInv_goto (ht : t.status = .running) (h : At S n maxAttempts run tr pc) :
    TaskInv S n maxAttempts (goto t pc) run tr := by
  simpa only [TaskInv,goto,ht] using h

theorem taskInv_ret (h : run.state = .blocked ∨ run.state = .validated) :
    TaskInv S n maxAttempts (ret t) run tr := h

/-- The postcondition of a segment that leaves the task `t'`. -/
abbrev SafeFor (S : String → Prop) (cfg : Config) (n : WorkNode) (run : NodeRun) (tr : Track) (seg : Segment) : Prop :=
  Safe S n cfg.maxAttempts (TaskInv S n cfg.maxAttempts seg.2) run tr seg.1

variable {reason routeId : String}

theorem safe_exhausted :
    Safe S n maxAttempts (TaskInv S n maxAttempts (ret t)) run tr (exhausted reason routeId) :=
  Safe.reason fun _ => set (by decide) fun _ _ => Safe.failure (nil (taskInv_ret (.inl rfl)))

theorem safe_loopHead (ht : t.status = .running)
    (hat : At S n cfg.maxAttempts run tr .top) : SafeFor S cfg n run tr (loopHead cfg t run) := by
  obtain ⟨hw,hopen,hrec⟩ := hat
  simp only [SafeFor,loopHead]
  split
  · exact safe_exhausted
  · rename_i hlt
    exact nil (taskInv_goto ht ⟨hw,hopen,hrec,not_le.mp hlt⟩)

theorem safe_revoked (ht : t.status = .running) (hat : At S n cfg.maxAttempts run tr .top) :
    SafeFor S cfg n run tr (revoked cfg t routeId) := by
  simp only [SafeFor,revoked]
  split
  · exact safe_exhausted
  · exact nil (taskInv_goto (by exact ht) hat)

theorem safe_bound (ht : t.status = .running) (hlink : Link S n cfg.maxAttempts run tr)
    (hat : At S n cfg.maxAttempts run tr .select) (hne : routeId ≠ "") : SafeFor S cfg n run
    tr (bound t run routeId) := by
  obtain ⟨hw,hopen,hrec,hlt⟩ := hat
  have htop := (hlink.attempts hw (hlink.notDone (hopen.notValidated (by decide)))).1
  simp only [SafeFor,bound,List.cons_append,List.nil_append]
  refine bind (fun _ => hlt) hrec (note (emit ⟨trivial,trivial⟩ fun _ => ?_))
  have hat' : TaskInv S n cfg.maxAttempts (goto t (.slot run.routeId))
      {run with attempt := run.attempt + 1, routeId := routeId} tr :=
    taskInv_goto ht ⟨hw,hopen,hrec,Nat.lt_succ_of_le htop,hne⟩
  split
  · exact note (nil hat')
  · exact nil hat'

variable {failure : FailureClassification}

/-- A failed attempt, when the driver goes on to `pc` with nothing else. -/
theorem safe_failed {validated : Bool} (ht : t.status = .running)
    (hpc : ∀ run' tr', Worker n → (run'.state = .terminalFailure ∨ run'.state = .rejected) → Recorded S run' tr' →
      At S n cfg.maxAttempts run' tr' pc) (hw : Worker n) :
    Safe S n cfg.maxAttempts (TaskInv S n cfg.maxAttempts (goto t pc)) run tr
      (recordFailure cfg run failure validated) := by
  rw [← List.append_nil (recordFailure cfg run failure validated)]
  refine Safe.recordFailure fun run' hstate _ hrec _ => nil (taskInv_goto ht (hpc _ _ hw ?_ hrec))
  cases validated
  · exact .inl hstate
  · exact .inr hstate

theorem safe_denied (ht : t.status = .running) : Safe S n cfg.maxAttempts
    (TaskInv S n cfg.maxAttempts (goto t .leaving)) run tr (denied cfg run failure reason) :=
  Safe.recordFailure (fun _ _ _ _ _ => Safe.reason (fun _ => set (by decide) (fun _ _ =>
    nil (taskInv_goto ht (.inl rfl)))))

variable {restored : Bool}

theorem safe_sending {es : List Eff} {post : NodeRun → Track → Prop}
    (hlink : Link S n cfg.maxAttempts run tr)
    (hat : At S n cfg.maxAttempts run tr .prepare)
    (h : ∀ run' tr', run'.state = .running → run'.routeId = run.routeId → run'.attempt = run.attempt →
      Link S n cfg.maxAttempts run' tr' →
      Safe S n cfg.maxAttempts post run' tr' es) :
    Safe S n cfg.maxAttempts post run tr (sending n run restored ++ es) := by
  obtain ⟨hw,hopen,_,htop,hne⟩ := hat
  have hsend : ∀ run₁, run₁.state = run.state → run₁.routeId = run.routeId → run₁.attempt = run.attempt →
      Link S n cfg.maxAttempts run₁ tr → Safe S n cfg.maxAttempts post run₁ tr
        ([.set .dispatched "",.emit (.dispatch run.routeId run.attempt),.set .running "",.emit (.note .hydrate)]
          ++ es) := by
    intro run₁ hstate hroute hattempt hlink₁
    refine set (by decide) fun hlegal hlink₂ => emit ⟨⟨?_,hw,?_,?_,hne⟩,?_⟩ fun _ => ?_
    · exact hlink₂.notDone (by simp)
    · exact htop
    · rw [← hattempt]
      exact (hlink₂.attempts hw (hlink₂.notDone (by simp))).2
    · exact ⟨hroute.symm,hattempt.symm⟩
    · refine set (by decide) fun _ hlink₃ => note (h _ _ rfl hroute hattempt hlink₃)
  rw [sending,List.append_assoc]
  simp only [restoring]
  split
  · exact note (record fun hlink' => hsend _ rfl rfl rfl hlink')
  · exact hsend run rfl rfl rfl hlink

variable {run' : NodeRun}

theorem denied_congr (hroute : run'.routeId = run.routeId) (hattempt : run'.attempt = run.attempt) :
    denied cfg run failure reason = denied cfg run' failure reason := by
  simp only [denied,recordFailure,hroute,hattempt]

theorem safe_prepared {fits : Bool} {origin : Origin} (ht : t.status = .running)
    (hlink : Link S n cfg.maxAttempts run tr)
    (hat : At S n cfg.maxAttempts run tr .prepare) :
    SafeFor S cfg n run tr (prepared cfg n t run restored fits origin) := by
  have hw := hat.1
  have hdenied : ∀ failure reason, Safe S n cfg.maxAttempts
      (TaskInv S n cfg.maxAttempts (goto t .leaving)) run tr
      (sending n run restored ++ denied cfg run failure reason) := by
    intro failure reason
    refine safe_sending hlink hat fun run' tr' _ hroute hattempt _ => ?_
    rw [denied_congr hroute hattempt]
    exact safe_denied ht
  have hsent : ∀ pc, (∀ run' tr', Open .running run' → At S n cfg.maxAttempts run' tr' pc) →
      Safe S n cfg.maxAttempts (TaskInv S n cfg.maxAttempts (goto t pc)) run tr
        (sending n run restored) := by
    intro pc hpc
    rw [← List.append_nil (sending n run restored)]
    exact safe_sending hlink hat fun run' tr' hstate _ _ _ => nil (taskInv_goto ht (hpc run' tr' (.inl hstate)))
  simp only [SafeFor,prepared]
  split
  · exact hdenied _ _
  · split
    · cases origin with
      | unknown => exact hdenied _ _
      | mismatch => exact hdenied _ _
      | matched => exact hsent _ fun _ _ ho => ⟨hw,ho⟩
    · split
      · exact hdenied _ _
      · exact hsent _ fun _ _ ho => ⟨hw,ho⟩

variable {commit : String}

theorem succeeded_set :
    Succeeded {run with state := .terminalSuccess} (tr.next n (.nodeState .terminalSuccess routeId commit)) := by
  simp [Succeeded,next]

theorem fresh_set : (tr.next n (.nodeState .terminalSuccess routeId commit)).fresh = false := by
  simp [next]

variable {ok : Bool}

theorem safe_executed {usable : Bool} (ht : t.status = .running)
    (hlink : Link S n cfg.maxAttempts run tr)
    (hat : At S n cfg.maxAttempts run tr .execute) :
    SafeFor S cfg n run tr (executed cfg t run ok usable failure) := by
  obtain ⟨hw,hopen⟩ := hat
  have hd := hlink.notDone (hopen.notValidated (by decide))
  simp only [SafeFor,executed]
  split
  · exact emit ⟨hd,trivial⟩ fun _ => safe_failed ht (fun _ _ hw hs hrec => ⟨hw,hs,hrec⟩) hw
  · split
    · exact emit ⟨hd,trivial⟩ fun _ => nil (taskInv_goto ht ⟨hw,hopen⟩)
    · exact emit ⟨hd,trivial⟩ (fun _ => set (by decide) (fun _ _ =>
        nil (taskInv_goto ht ⟨hw,succeeded_set⟩)))

theorem gateName_worker (hw : Worker n) : gateName n = "ownership" := if_pos hw

theorem gateName_merge (hw : ¬ Worker n) : gateName n = barrierName n := if_neg hw

theorem Succeeded.congr {tr' : Track} (h : Succeeded run tr) (hstate : run'.state = run.state)
    (hclaimed : tr'.claimed = tr.claimed) (hsuccess : tr'.success = tr.success) : Succeeded run' tr' := by
  simpa only [Succeeded,hstate,hclaimed,hsuccess] using h

theorem Succeeded.barrier {name : String} (h : Succeeded run tr) :
    Succeeded run (tr.next n (.barrier name ok)) := by
  refine h.congr rfl ?_ ?_ <;> simp only [next] <;> split <;> rfl

theorem Succeeded.verify (h : Succeeded run tr) : Succeeded run (tr.next n (.verify ok)) := by
  cases ok <;> exact h

theorem safe_verifying {changed : Bool} (ht : t.status = .running)
    (hlink : Link S n cfg.maxAttempts run tr) (hw : Worker n) (hs : Succeeded run tr)
    (howned : Owned n tr) : SafeFor S cfg n run tr (verifying n t changed) := by
  simp only [SafeFor,verifying]
  split
  · exact nil (taskInv_goto ht ⟨hw,hs,howned⟩)
  · refine emit ⟨⟨hs.notDone hlink,hs.2⟩,trivial⟩ (fun _ => nil (taskInv_goto ht ?_))
    exact ⟨hw,hs.verify,howned,hs.2.2⟩

theorem safe_validated {files : List String} (ht : t.status = .running)
    (hlink : Link S n cfg.maxAttempts run tr)
    (hat : At S n cfg.maxAttempts run tr .validate) :
    SafeFor S cfg n run tr (validated cfg n t run files failure) := by
  obtain ⟨hw,hs⟩ := hat
  have hd := hs.notDone hlink
  have hname : "ownership" = gateName n := (gateName_worker hw).symm
  have hviolation : Safe S n cfg.maxAttempts
      (TaskInv S n cfg.maxAttempts (goto t .failing)) run tr
      (.emit (.barrier "ownership" false) :: recordFailure cfg run failure true) :=
    emit ⟨⟨hd,.inl ⟨hname,fun _ => rfl⟩⟩,trivial⟩ fun _ => safe_failed ht (fun _ _ hw hs hrec => ⟨hw,hs,hrec⟩) hw
  simp only [SafeFor,validated]
  split
  · rename_i himpl
    split
    · exact hviolation
    · -- the ownership check passed; an empty diff leaves one more barrier event
      simp only [List.cons_append,List.nil_append]
      refine emit ⟨⟨hd,.inl ⟨hname,fun hr => by rw [himpl] at hr; cases hr⟩⟩,trivial⟩ fun hlink' => ?_
      have howned : Owned n (tr.next n (.barrier "ownership" true)) := by
        intro _
        simp [next,← hname]
      split
      · refine emit ⟨⟨hs.barrier.notDone hlink',.inr ⟨himpl,rfl,rfl⟩⟩,trivial⟩ (fun hlink'' => ?_)
        refine safe_verifying ht hlink'' hw hs.barrier.barrier fun hi => ?_
        simp [next,← hname]
      · exact safe_verifying ht hlink' hw hs.barrier howned
  · rename_i himpl
    split
    · exact hviolation
    · exact safe_verifying ht hlink hw hs fun hi => absurd hi himpl

theorem safe_settle (ht : t.status = .running)
    (hat : At S n cfg.maxAttempts run tr .settling) : SafeFor S cfg n run tr (settle cfg t run) := by
  obtain ⟨hw,hstate,hrec⟩ := hat
  have hplanned : ∀ run', run'.history = run.history → Safe S n cfg.maxAttempts
      (TaskInv S n cfg.maxAttempts (goto t .top)) run' tr [.set .planned ""] := by
    intro run' hh
    refine set (by decide) fun _ _ => nil (taskInv_goto ht ⟨hw,.inl rfl,fun r hr => ?_⟩)
    simpa only [NodeRun.historyRoutes,hh] using hrec r hr
  simp only [SafeFor,settle]
  split
  · exact hplanned run rfl
  · split
    · exact nil (taskInv_goto ht ⟨hw,hstate,hrec⟩)
    · split
      · exact adjust (fun _ _ _ => Safe.reason (fun _ => set (by decide) (fun _ _ =>
          nil (taskInv_ret (.inl rfl)))))
      · exact adjust fun run' _ hh => hplanned run' hh

theorem safe_mergeRemoved {base : String} {failed : Option String}
    (hlink : Link S n cfg.maxAttempts run tr)
    (hat : At S n cfg.maxAttempts run tr (.mergeRemove base failed)) :
    SafeFor S cfg n run tr (mergeRemoved cfg t run base failed) := by
  cases failed with
  | none =>
    obtain ⟨hw,hs,hbase,hfresh,hgate⟩ := hat
    refine Safe.commit (record fun _ => Safe.validate ?_ (nil (taskInv_ret (.inr rfl))))
    exact ⟨hbase,hs.notDone hlink,hs.2.1,hfresh,fun _ => hgate⟩
  | some reason =>
    simp only [SafeFor,mergeRemoved,List.cons_append,List.nil_append]
    exact Safe.reason (fun _ => Safe.recordFailure (fun _ _ _ _ _ => set (by decide) (fun _ _ =>
      nil (taskInv_ret (.inl rfl)))))

variable {seg : Segment}

theorem safe_start (ht : t.status = .running) (hat : At S n cfg.maxAttempts run tr .start)
    (h : Driver.segment cfg n t run .start .started = some seg) : SafeFor S cfg n run tr seg := by
  obtain ⟨hopen,hrec⟩ := hat
  simp only [Driver.segment] at h
  split at h
  · rename_i hw
    cases h
    exact nil (taskInv_goto ht ⟨hw,hopen,hrec⟩)
  · rename_i hw
    cases h
    exact bind (fun hw' => absurd hw' hw) hrec (set (by decide) (fun _ _ => set (by decide)
      (fun _ _ => set (by decide) fun _ _ => nil (taskInv_goto ht ⟨hw,.inl rfl⟩))))

variable {reply : Reply}

theorem safe_select (ht : t.status = .running) (hlink : Link S n cfg.maxAttempts run tr)
    (hat : At S n cfg.maxAttempts run tr .select)
    (h : Driver.segment cfg n t run .select reply = some seg) : SafeFor S cfg n run tr seg := by
  obtain ⟨hw,hopen,hrec,hlt⟩ := hat
  cases reply with
  | noRoute soon explanation =>
    simp only [Driver.segment] at h
    split at h
    · cases h
      exact note (nil (taskInv_goto ht ⟨hw,hopen,hrec⟩))
    · cases h
      exact Safe.reason (fun _ => note (set (by decide) (fun _ _ =>
        Safe.failure (nil (taskInv_ret (.inl rfl))))))
  | route routeId blocker =>
    simp only [Driver.segment] at h
    split at h
    · cases h
    · rename_i hne
      split at h
      · cases h
        exact note (safe_revoked ht ⟨hw,hopen,hrec⟩)
      · split at h
        · cases h
          exact nil (taskInv_goto ht ⟨hw,hopen,hrec,hlt,hne⟩)
        · cases h
          exact safe_bound ht hlink ⟨hw,hopen,hrec,hlt⟩ hne
  | _ => simp [Driver.segment] at h

theorem safe_slot {previous : String} (ht : t.status = .running)
    (hat : At S n cfg.maxAttempts run tr (.slot previous))
    (h : Driver.segment cfg n t run (.slot previous) reply = some seg) : SafeFor S cfg n run tr seg := by
  obtain ⟨hw,hopen,hrec,htop,hne⟩ := hat
  cases reply with
  | slot blocker =>
    simp only [Driver.segment] at h
    split at h
    · cases h
      exact note (Safe.unbind (fun _ => htop) hrec (safe_revoked ht ⟨hw,hopen,hrec⟩))
    · cases h
      exact set (by decide) fun _ _ => nil (taskInv_goto ht ⟨hw,.inl rfl,hrec,htop,hne⟩)
  | _ => simp [Driver.segment] at h

theorem safe_attempt (ht : t.status = .running)
    (hpc : pc = .commitPermit ∨ pc = .checkEpoch ∨ (∃ c, pc = .verify c) ∨ pc = .gates ∨ pc = .commit ∨ pc = .seal)
    (htpc : t.pc = pc) (hlink : Link S n cfg.maxAttempts run tr)
    (hat : At S n cfg.maxAttempts run tr pc)
    (h : Driver.segment cfg n t run pc reply = some seg) : SafeFor S cfg n run tr seg := by
  have hfailed : ∀ failure validated, Worker n → ∀ pc ∈ [Pc.failing,.settling], Safe S n
      cfg.maxAttempts (TaskInv S n cfg.maxAttempts (goto t pc)) run tr
      (recordFailure cfg run failure validated) := by
    intro failure validated hw pc hpc
    refine safe_failed ht (fun _ _ hw hs hrec => ?_) hw
    rcases List.mem_pair.mp hpc with rfl | rfl <;> exact ⟨hw,hs,hrec⟩
  rcases hpc with rfl | rfl | ⟨c,rfl⟩ | rfl | rfl | rfl
  · cases reply with
    | permit granted =>
      simp only [Driver.segment] at h
      split at h
      · cases h
        exact note (nil (taskInv_goto ht hat))
      · cases h
        exact hfailed _ _ hat.1 _ (by simp)
    | _ => simp [Driver.segment] at h
  · cases reply with
    | epoch unchanged =>
      simp only [Driver.segment] at h
      split at h
      · cases h
        exact set (by decide) fun _ _ => nil (taskInv_goto ht ⟨hat.1,succeeded_set⟩)
      · cases h
        exact hfailed _ _ hat.1 _ (by simp)
    | _ => simp [Driver.segment] at h
  · obtain ⟨hw,hs,howned⟩ := hat
    have hok : ∀ ok, Ok S n cfg.maxAttempts run tr (.emit (.verify ok)) :=
      fun _ => ⟨⟨hs.notDone hlink,hs.2⟩,trivial⟩
    cases reply with
    | ran ok failure tail =>
      simp only [Driver.segment] at h
      split at h
      · cases h
        exact emit (hok _) fun _ => safe_failed ht (fun _ _ hw hs hrec => ⟨hw,hs,hrec⟩) hw
      · cases h
        refine emit (hok _) fun _ => nil (taskInv_goto ht ?_)
        split <;> exact ⟨hw,hs.verify,howned,hs.2.2⟩
    | _ => simp [Driver.segment] at h
  · cases reply with
    | noted type =>
      cases h
      refine note (nil ?_)
      simpa only [TaskInv,ht,htpc] using hat
    | gated ok failure reason =>
      simp only [Driver.segment] at h
      split at h
      · cases h
        exact nil (taskInv_goto ht hat)
      · cases h
        exact hfailed _ _ hat.1 _ (by simp)
    | _ => simp [Driver.segment] at h
  · obtain ⟨hw,hs,howned,hfresh⟩ := hat
    cases reply with
    | committed sha =>
      simp only [Driver.segment] at h
      split at h
      · cases h
      · rename_i hsha
        cases h
        exact Safe.commit (nil (taskInv_goto ht ⟨hw,hs,howned,hfresh,hsha⟩))
    | _ => simp [Driver.segment] at h
  · obtain ⟨hw,hs,howned,hfresh,hcommit⟩ := hat
    cases reply with
    | removed gone =>
      cases h
      have hadm : Admits n cfg.maxAttempts tr (.nodeState .validated run.routeId run.commit) := by
        refine ⟨hcommit,hs.notDone hlink,hs.2.1,?_,fun hk => howned (hw.resolve_right hk)⟩
        simp [hfresh,verifies,hw]
      refine record fun _ => Safe.validate hadm (nil ?_)
      split
      · exact taskInv_ret (.inr rfl)
      · exact taskInv_goto ht (.inr rfl)
    | _ => simp [Driver.segment] at h

theorem safe_failing (ht : t.status = .running) (hat : At S n cfg.maxAttempts run tr .failing)
    (h : Driver.segment cfg n t run .failing reply = some seg) : SafeFor S cfg n run tr seg := by
  obtain ⟨hw,hs,hrec⟩ := hat
  cases reply with
  | salvaged found =>
    simp only [Driver.segment,Option.some.injEq] at h
    subst h
    simp only [SafeFor]
    split
    · refine note (record fun _ => nil (taskInv_goto ht ⟨hw,hs,fun r hr => ?_⟩))
      refine (hrec r hr).imp_left fun hr => ?_
      simp only [NodeRun.historyRoutes,List.map_append]
      exact List.mem_append_left _ hr
    · exact nil (taskInv_goto ht ⟨hw,hs,hrec⟩)
  | _ => simp [Driver.segment] at h

theorem safe_merge (ht : t.status = .running) (htpc : t.pc = pc)
    (hpc : pc = .mergeBase ∨ ∃ base, pc = .mergeWorktree base ∨ pc = .mergeVerify base ∨ pc = .mergeGates base)
    (hlink : Link S n cfg.maxAttempts run tr)
    (hat : At S n cfg.maxAttempts run tr pc)
    (h : Driver.segment cfg n t run pc reply = some seg) : SafeFor S cfg n run tr seg := by
  have hbarrier : ∀ ok, Succeeded run tr → ¬ Worker n →
      Ok S n cfg.maxAttempts run tr (.emit (.barrier (barrierName n) ok)) :=
    fun _ hs hw => ⟨⟨hs.notDone hlink,.inl ⟨(gateName_merge hw).symm,fun hr => absurd (.inr hr) hw⟩⟩,trivial⟩
  rcases hpc with rfl | ⟨base,rfl | rfl | rfl⟩
  · obtain ⟨hw,hopen⟩ := hat
    cases reply with
    | conflict text =>
      cases h
      refine set (by decide) (fun _ _ => Safe.reason (fun hlink' => emit ?_ (fun _ =>
        set (by decide) fun _ _ => nil (taskInv_ret (.inl rfl)))))
      exact ⟨⟨hlink'.notDone (by simp),.inl ⟨(gateName_merge hw).symm,fun _ => rfl⟩⟩,trivial⟩
    | base sha =>
      simp only [Driver.segment] at h
      split at h
      · cases h
      · rename_i hsha
        cases h
        refine emit ⟨hlink.notDone (hopen.notValidated (by decide)),trivial⟩ (fun _ =>
          set (by decide) fun _ _ => nil (taskInv_goto ht ?_))
        exact ⟨hw,succeeded_set,hsha,fresh_set⟩
    | _ => simp [Driver.segment] at h
  · obtain ⟨hw,hs,hbase,hfresh⟩ := hat
    cases reply with
    | added =>
      cases h
      refine nil (taskInv_goto ht ?_)
      split
      · rename_i hcmd
        exact ⟨hw,hs,hbase,hcmd⟩
      · rename_i hcmd
        exact ⟨hw,hs,hbase,by simp [hfresh,verifies,hw,not_not.mp hcmd]⟩
    | _ => simp [Driver.segment] at h
  · obtain ⟨hw,hs,hbase,hcmd⟩ := hat
    have hok : ∀ ok, Ok S n cfg.maxAttempts run tr (.emit (.verify ok)) :=
      fun _ => ⟨⟨hs.notDone hlink,hs.2⟩,trivial⟩
    cases reply with
    | ran ok failure tail =>
      simp only [Driver.segment] at h
      split at h
      · cases h
        refine emit (hok _) fun _ => nil (taskInv_goto ht ⟨hw,hs.verify,hbase,?_⟩)
        simp [next,hs.2.2,verifies,hcmd]
      · cases h
        exact emit (hok _) (fun _ => emit (hbarrier _ hs hw) (fun _ =>
          nil (taskInv_goto ht ⟨hw,hs.verify.barrier⟩)))
    | _ => simp [Driver.segment] at h
  · obtain ⟨hw,hs,hbase,hfresh⟩ := hat
    cases reply with
    | noted type =>
      cases h
      refine note (nil ?_)
      simp only [TaskInv,ht,htpc]
      exact ⟨hw,hs,hbase,hfresh⟩
    | gated ok failure reason =>
      cases h
      refine emit (hbarrier _ hs hw) fun _ => nil (taskInv_goto ht ?_)
      cases ok with
      | false => exact ⟨hw,hs.barrier⟩
      | true =>
        refine ⟨hw,hs.barrier,hbase,?_,?_⟩ <;> simp [next,gateName_merge hw,hfresh]
    | _ => simp [Driver.segment] at h

/-- Every segment is safe and leads to an `await` whose invariant holds. -/
theorem segment_safe (ht : t.status = .running) (hlink : Link S n cfg.maxAttempts run tr)
    (hat : At S n cfg.maxAttempts run tr t.pc) (h : Driver.segment cfg n t run t.pc reply = some seg)
    : SafeFor S cfg n run tr seg := by
  generalize hpc : t.pc = pc at hat h
  cases pc with
  | start => cases reply with
    | started => exact safe_start ht hat h
    | _ => simp [Driver.segment] at h
  | top => simp [Driver.segment] at h
  | select => exact safe_select ht hlink hat h
  | cooldown => cases reply with
    | woke =>
      cases h
      refine nil ?_
      simp only [TaskInv,ht]
      exact hat
    | _ => simp [Driver.segment] at h
  | bindProof routeId => cases reply with
    | proof found =>
      obtain ⟨hw,hopen,hrec,hlt,hne⟩ := hat
      simp only [Driver.segment] at h
      split at h
      · cases h
        exact safe_bound ht hlink ⟨hw,hopen,hrec,hlt⟩ hne
      · cases h
        exact note (safe_revoked ht ⟨hw,hopen,hrec⟩)
    | _ => simp [Driver.segment] at h
  | slot previous => exact safe_slot ht hat h
  | prepare => cases reply with
    | prepared => cases h; exact safe_prepared ht hlink hat
    | _ => simp [Driver.segment] at h
  | execute => cases reply with
    | executed => cases h; exact safe_executed ht hlink hat
    | _ => simp [Driver.segment] at h
  | validate => cases reply with
    | changed => cases h; exact safe_validated ht hlink hat
    | _ => simp [Driver.segment] at h
  | commitPermit | checkEpoch | verify | gates | commit | «seal» =>
    exact safe_attempt ht (by simp) hpc hlink hat h
  | failing => exact safe_failing ht hat h
  | settling => cases reply with
    | removed => cases h; exact safe_settle ht hat
    | _ => simp [Driver.segment] at h
  | infraSleep => cases reply with
    | woke =>
      obtain ⟨hw,_,hrec⟩ := hat
      cases h
      exact set (by decide) fun _ _ => nil (taskInv_goto ht ⟨hw,.inl rfl,hrec⟩)
    | _ => simp [Driver.segment] at h
  | leaving => cases reply with
    | removed => cases h; exact nil (taskInv_ret hat)
    | _ => simp [Driver.segment] at h
  | mergeBase | mergeWorktree | mergeVerify | mergeGates => exact safe_merge ht hpc (by simp) hlink hat h
  | mergeRemove => cases reply with
    | removed => cases h; exact safe_mergeRemoved hlink hat
    | _ => simp [Driver.segment] at h

theorem script_safe (ht : t.status = .running) (hlink : Link S n cfg.maxAttempts run tr)
    (hat : At S n cfg.maxAttempts run tr t.pc) (h : script cfg n t run reply = some seg) :
    SafeFor S cfg n run tr seg := by
  simp only [script,Option.map_eq_some_iff] at h
  obtain ⟨⟨effs,t'⟩,hseg,rfl⟩ := h
  have hsafe := segment_safe ht hlink hat hseg
  simp only [SafeFor] at hsafe ⊢
  split
  · rename_i htop
    refine Safe.append (hsafe.mono fun run' tr' hinv hrun => ?_)
    subst hrun
    refine safe_loopHead htop.2 ?_
    simpa only [TaskInv,htop.2,htop.1] using hinv
  · exact hsafe

end
end Verdict.Runtime

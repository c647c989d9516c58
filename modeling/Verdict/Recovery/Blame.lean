import Verdict.Recovery.Cooldowns

/-! # Failures that blame the task

The verdict of a failed verification, and of an edit outside the owned files, becomes the error of
a terminal without a status code. Its prefix is looked at last: test output that mentions a
timeout, say, is classified as one.
-/
namespace Verdict.Recovery
open Runtime (Action Scope)

variable {o : Outside}

/-- `WorkerTerminal(ok=False, model=run.route_id, error=verdict)`. -/
def rejected (verdict : String) : WorkerTerminal := {ok := false,error := verdict}

def Undisturbed (o : Outside) (error : List Char) : Prop :=
  isContextLengthError o error = false ∧ Regex.occurs GATEWAY_BUSY error = false ∧
  mentions (o.lower error) (MODEL_MISSING_MARKERS ++ TIMEOUT_MARKERS ++ CONNECTION_MARKERS ++ ["malformed"]) = false ∧ Readable o error

theorem not_prefix_append {a p t : List Char} (h : ¬a <+: p) (h' : ¬p <+: a) : ¬a <+: p ++ t :=
  fun hpre => (List.prefix_or_prefix_of_prefix hpre (List.prefix_append p t)).elim h h'

def verdictPrefixes : List (String × String × Action) :=
  [("verification_failed: ","verification_failed",.correctImplementation),("ownership_violation: ","ownership_violation",.rehydrate)]

section
variable {lead category : String} {action : Action} (hlead : (lead,category,action) ∈ verdictPrefixes) (t : String)
include hlead

theorem taskFeedback_rejected : taskFeedback o (rejected (lead ++ t)) =
    if isContextLengthError o (lead ++ t).toList then some (unparked (lead ++ t).toList "context_length_exceeded" .reroute) else none := by
  have hother : ∀ w ∈ ["worker_blocked:","harness_configuration:","ownership_refused:"], ¬w.toList <+: (lead ++ t).toList := by
    intro w hw
    have hapart : ∀ e ∈ verdictPrefixes, ∀ w ∈ ["worker_blocked:","harness_configuration:","ownership_refused:"],
        ¬w.toList <+: e.1.toList ∧ ¬e.1.toList <+: w.toList := by decide
    rw [String.toList_append]
    exact not_prefix_append (hapart _ hlead w hw).1 (hapart _ hlead w hw).2
  simp only [List.forall_mem_cons] at hother
  obtain ⟨hblocked,hharness,hrefused,-⟩ := hother
  refine (if_neg hblocked).trans ((if_neg hharness).trans ((if_neg (not_or.mpr ⟨hrefused,by rintro h; cases h⟩)).trans ?_))
  exact if_congr (and_iff_right (by simp [rejected])) rfl rfl

theorem taskFailure_rejected : taskFailure (lead ++ t).toList = unparked (lead ++ t).toList category action := by
  rw [taskFailure,String.toList_append]
  rcases List.mem_cons.mp hlead with heq | hmem
  · cases heq
    exact if_pos ((show "verification_failed".toList <+: "verification_failed: ".toList by decide).trans (List.prefix_append _ _))
  · cases List.mem_singleton.mp hmem
    exact if_neg (not_prefix_append (by decide) (by decide))

theorem speaksOfTask_rejected : SpeaksOfTask o (rejected (lead ++ t)) ↔ Regex.occurs GATEWAY_BUSY (lead ++ t).toList = false ∧
    mentions (o.lower (lead ++ t).toList) (MODEL_MISSING_MARKERS ++ TIMEOUT_MARKERS ++ CONNECTION_MARKERS ++ ["malformed"]) = false := by
  have hnamed : "verification_failed".toList <+: (lead ++ t).toList ∨ "ownership_violation".toList <+: (lead ++ t).toList := by
    rw [String.toList_append]
    rcases List.mem_cons.mp hlead with heq | hmem
    · cases heq
      exact .inl ((show "verification_failed".toList <+: "verification_failed: ".toList by decide).trans (List.prefix_append _ _))
    · cases List.mem_singleton.mp hmem
      exact .inr ((show "ownership_violation".toList <+: "ownership_violation: ".toList by decide).trans (List.prefix_append _ _))
  have hstop : "" ∈ ["stop","end_turn",""] := by decide
  have hstatus : ∀ status ∈ (none : Option ℤ), Undecided status := by
    rintro status h
    cases h
  exact ⟨fun h => ⟨h.1,h.2.2.1⟩,fun h => ⟨h.1,hstatus,h.2,hstop,hnamed⟩⟩

theorem classify_rejected : classify o (rejected (lead ++ t)) =
    if isContextLengthError o (lead ++ t).toList then .ok (unparked (lead ++ t).toList "context_length_exceeded" .reroute)
    else (parseResetHint o (lead ++ t).toList).map fun hint => classifyFailure o (rejected (lead ++ t)) (hint.getD (.num 0)) := by
  rw [classify_failed o (t := rejected (lead ++ t)) rfl,taskFeedback_rejected hlead,cooldownOf_hint o (t := rejected (lead ++ t)) rfl]
  by_cases hlong : isContextLengthError o (lead ++ t).toList = true
  · rw [if_pos hlong,if_pos hlong]
    rfl
  · rw [if_neg hlong,if_neg hlong]
    show Except.map _ (Except.map _ (parseResetHint o (lead ++ t).toList)) = _
    cases parseResetHint o (lead ++ t).toList with
    | error e => exact Eq.refl (Except.error e)
    | ok hint => exact Eq.refl (Except.ok _)

theorem classify_undisturbed (h : Undisturbed o (lead ++ t).toList) :
    classify o (rejected (lead ++ t)) = .ok (unparked (lead ++ t).toList category action) := by
  obtain ⟨hshort,hbusy,hmentions,hreadable⟩ := h
  rw [classify_rejected hlead,if_neg (by rw [hshort]; exact Bool.false_ne_true)]
  have hspeaks := (speaksOfTask_rejected hlead t).mpr ⟨hbusy,hmentions⟩
  cases hhint : parseResetHint o (lead ++ t).toList with
  | error e =>
    rw [← parseResetHint_isOk,hhint] at hreadable
    cases hreadable
  | ok hint =>
    rcases classifyFailure_cases o (rejected (lead ++ t)) (hint.getD (.num 0)) with ⟨-,htask⟩ | ⟨hno,-⟩
    · exact congrArg Except.ok (htask.trans (taskFailure_rejected hlead t))
    · exact absurd hspeaks hno

theorem undisturbed_of_classify {c : FailureClassification} (h : classify o (rejected (lead ++ t)) = .ok c)
    (hname : c.category = category) (hzero : c.cooldownSeconds = .num 0) : Undisturbed o (lead ++ t).toList := by
  rw [classify_rejected hlead] at h
  split at h
  · cases h
    have hall : ∀ e ∈ verdictPrefixes, "context_length_exceeded" ≠ e.2.1 := by decide
    exact absurd hname (hall _ hlead)
  · rename_i hshort
    obtain ⟨hint,hhint,rfl⟩ := Raising.map_ok.mp h
    rcases classifyFailure_cases o (rejected (lead ++ t)) (hint.getD (.num 0)) with ⟨hspeaks,-⟩ | ⟨-,hparks⟩
    · obtain ⟨hbusy,hmentions⟩ := (speaksOfTask_rejected hlead t).mp hspeaks
      exact ⟨Bool.eq_false_of_not_eq_true hshort,hbusy,hmentions,parseResetHint_isOk.mp (by rw [hhint]; rfl)⟩
    · exact absurd hzero hparks.ne_zero

end

/-- A failed verification and an ownership violation blame the task exactly when nothing else stands in their text. -/
theorem verdicts_blame_task (o : Outside) (t : String) :
    ((∃ c, classify o (rejected ("verification_failed: " ++ t)) = .ok c ∧ c.category = "verification_failed" ∧
        c.action = .correctImplementation ∧ c.scope = .none ∧ c.cooldownSeconds = .num 0) ↔
      Undisturbed o ("verification_failed: " ++ t).toList) ∧
    ((∃ c, classify o (rejected ("ownership_violation: " ++ t)) = .ok c ∧ c.category = "ownership_violation" ∧
        c.scope = .none ∧ c.cooldownSeconds = .num 0) ↔
      Undisturbed o ("ownership_violation: " ++ t).toList) := by
  have hverification : ("verification_failed: ","verification_failed",Action.correctImplementation) ∈ verdictPrefixes := List.mem_cons_self
  have hownership : ("ownership_violation: ","ownership_violation",Action.rehydrate) ∈ verdictPrefixes :=
    List.mem_cons_of_mem _ List.mem_cons_self
  constructor
  · constructor
    · rintro ⟨c,hc,hname,-,-,hzero⟩
      exact undisturbed_of_classify hverification t hc hname hzero
    · exact fun h => ⟨_,classify_undisturbed hverification t h,rfl,rfl,rfl,rfl⟩
  · constructor
    · rintro ⟨c,hc,hname,-,hzero⟩
      exact undisturbed_of_classify hownership t hc hname hzero
    · exact fun h => ⟨_,classify_undisturbed hownership t h,rfl,rfl,rfl⟩

/-- The output of a test that ran into a timeout parks the route. -/
theorem test_output_blames_route : ¬∀ (o : Outside) (t : String), ∃ c, classify o (rejected ("verification_failed: " ++ t)) = .ok c ∧
    c.category = "verification_failed" ∧ c.action = .correctImplementation ∧ c.scope = .none ∧ c.cooldownSeconds = .num 0 := by
  intro hall
  obtain ⟨c,hc,-,-,hscope,-⟩ := hall plainText "FAILED tests/test_pool.py::test_timeout"
  have hroute : (classify plainText (rejected ("verification_failed: " ++ "FAILED tests/test_pool.py::test_timeout"))).toOption.map
      (·.scope) = some .route := by decide +kernel
  rw [hc] at hroute
  have hroute : c.scope = .route := Option.some.inj hroute
  rw [hscope] at hroute
  cases hroute

end Verdict.Recovery

import Mathlib.Tactic.Linarith
import Verdict.Basics.Run
import Verdict.BoundedRecovery.Decide

/-! # What recovery promises of its decisions

Over any sequence of calls the decisions stay within the bounds and never report success. What
they say of an escalation and of an overflow holds where the candidates invite no weaker choice: a
stronger candidate of the same tier is taken before one of a higher tier, and another plane of the
same model counts as an equivalent route.
-/
namespace Verdict.BoundedRecovery
open CostLedger (Context Ledger)

section
variable (lower : Text → Text) (digest : FailureEvidence → String) (ctx : Context)

def decisions (c : Controller) : List Call → List (Call × RecoveryDecision)
  | [] => []
  | a :: rest => match c.decide lower digest ctx a with
    | (c,.ok d) => (a,d) :: decisions c rest
    | (c,.error _) => decisions c rest

def nextController (c : Controller) (a : Call) : Option Controller := some (c.decide lower digest ctx a).1

structure Bounded (b : RecoveryBounds) (a : Call) (d : RecoveryDecision) : Prop where
  inTime : d.outcome = .proceed → ∀ deadline ∈ b.deadlineAt, a.now ≤ deadline
  inCash : d.outcome = .proceed → ∃ cash, remainingCashUsd ctx a.ledger = .ok cash ∧ ∀ q ∈ cash, cashNeeded b a ≤ q
  inTokens : d.outcome = .proceed → lacksTokens ctx a.ledger (tokensNeeded b a) = .ok false
  noSuccess : d.success = false ∧ d.outcome ≠ .success
  sameTier : d.failureClass = .providerOrGatewayFailure → d.action = .switchExecutionPlane →
    d.routeAfter.capabilityTier = d.routeBefore.capabilityTier ∧
      (d.routeAfter.isFrontier = true → d.routeBefore.isFrontier = true)
  noFrontier : d.action = .rehydrate → d.frontierCall = false ∧ d.routeAfter.isFrontier = false

structure Improves (d : RecoveryDecision) : Prop where
  higher : d.action = .escalateCapability → d.routeBefore.capabilityTier < d.routeAfter.capabilityTier
  otherModel : d.failureClass = .contextLengthOverflow → d.outcome = .proceed →
    d.routeAfter.modelId ≠ d.routeBefore.modelId

structure Promised (b : RecoveryBounds) (ds : List (Call × RecoveryDecision)) : Prop where
  attempts : ((ds.filter fun x => decide (x.2.outcome = .proceed)).length : ℤ) ≤ b.maxAttempts
  bounded : ∀ x ∈ ds, Bounded ctx b x.1 x.2
  improves : ∀ x ∈ ds, Improves x.2

/-! ### When the candidates serve -/

def TiersApart (a : Call) : Prop :=
  ∀ c ∈ a.strongerRoutes, c.capabilityTier = a.route.capabilityTier → c.modelId = a.route.modelId

/-- The first equivalent candidate is another model; and if there is none, so is the least of the stronger ones. -/
def ModelsApart (a : Call) : Prop :=
  (∀ pre c rest, a.equivalentRoutes = pre ++ c :: rest → (∀ x ∈ pre, isEquivalent a.route a.certification x = false) →
      isEquivalent a.route a.certification c = true → c.modelId ≠ a.route.modelId) ∧
    ((∀ c ∈ a.equivalentRoutes, isEquivalent a.route a.certification c = false) →
      ∀ c ∈ a.strongerRoutes, isStronger a.route c = true →
        (∀ x ∈ a.strongerRoutes, isStronger a.route x = true → routeKey c ≤ routeKey x) → c.modelId ≠ a.route.modelId)

/-- The call gets as far as a plan: it is independent and not cancelled, and no bound stops it. -/
def Planned (b : RecoveryBounds) (attempt : ℤ) (a : Call) : Prop :=
  sameWorker a.evidence = none ∧ a.evidence.cancelled = false ∧
    ∃ cash, remainingCashUsd ctx a.ledger = .ok cash ∧ gate ctx b attempt a cash = .ok none

def Served (b : RecoveryBounds) (attempt : ℤ) (a : Call) : Prop :=
  Planned ctx b attempt a → (classifyFailure lower a.evidence = .modelCapabilityDeficit → TiersApart a) ∧
    (classifyFailure lower a.evidence = .contextLengthOverflow → ModelsApart a)

end

/-! ### The pickers -/

variable {current c : ExecutionRoute} {candidates : List ExecutionRoute} {cert : Certification}

theorem pickEquivalent_some (h : pickEquivalent current candidates cert = some c) : isEquivalent current
    cert c = true ∧ ∃ pre rest, candidates = pre ++ c :: rest ∧ ∀ x ∈ pre, isEquivalent current cert x =
    false := by
  obtain ⟨hc,pre,rest,hsplit,hpre⟩ := List.find?_eq_some_iff_append.mp h
  exact ⟨hc,pre,rest,hsplit,fun x hx => by simpa using hpre x hx⟩

theorem pickEquivalent_of_split {pre rest : List ExecutionRoute}
    (hc : isEquivalent current cert c = true) (hpre : ∀ x ∈ pre, isEquivalent current cert x = false) :
    pickEquivalent current (pre ++ c :: rest) cert = some c :=
  List.find?_eq_some_iff_append.mpr ⟨hc,pre,rest,rfl,fun x hx => by simp [hpre x hx]⟩

theorem isEquivalent_tier (h : isEquivalent current cert c = true) :
    c.capabilityTier = current.capabilityTier ∧ (c.isFrontier = true → current.isFrontier = true) := by
  simp only [isEquivalent,Bool.and_eq_true,decide_eq_true_eq] at h
  refine ⟨h.1.1.1.1,fun hf => ?_⟩
  have hfrontier := h.1.1.1.2
  rw [hf] at hfrontier
  simpa using hfrontier

theorem pickStronger_some (h : pickStronger current candidates = some c) : c ∈ candidates ∧ isStronger
    current c = true ∧ ∀ x ∈ candidates, isStronger current x = true → routeKey c ≤ routeKey x := by
  have hmem := List.mem_of_mem_head? h
  rw [List.mem_mergeSort,List.mem_filter] at hmem
  refine ⟨hmem.1,hmem.2,fun x hx hstrong => ?_⟩
  have hsorted : ((candidates.filter (isStronger current)).mergeSort
      fun a b => decide (routeKey a ≤ routeKey b)).Pairwise fun a b => decide (routeKey a ≤ routeKey b) = true :=
    List.pairwise_mergeSort (fun a b c hab hbc => decide_eq_true ((of_decide_eq_true hab).trans (of_decide_eq_true hbc)))
      (fun a b => by simpa using le_total (routeKey a) (routeKey b)) _
  obtain ⟨rest,hrest⟩ := List.head?_eq_some_iff.mp h
  rw [hrest] at hsorted
  have hx' : x ∈ c :: rest := by
    rw [← hrest,List.mem_mergeSort,List.mem_filter]
    exact ⟨hx,hstrong⟩
  rcases List.mem_cons.mp hx' with rfl | hx'
  · exact le_rfl
  · exact of_decide_eq_true ((List.pairwise_cons.mp hsorted).1 x hx')

theorem pickStronger_isSome (hc : c ∈ candidates) (hstrong : isStronger current c = true) : ∃ d, pickStronger current candidates = some d := by
  refine Option.isSome_iff_exists.mp (List.isSome_head?.mpr fun hnil => ?_)
  have hmem : c ∈ (candidates.filter (isStronger current)).mergeSort fun a b => decide (routeKey a ≤ routeKey b) := by
    rw [List.mem_mergeSort,List.mem_filter]
    exact ⟨hc,hstrong⟩
  rw [hnil] at hmem
  cases hmem

theorem tier_le_of_key {d : ExecutionRoute} (h : routeKey c ≤ routeKey d) : c.capabilityTier ≤ d.capabilityTier :=
  (Prod.Lex.le_iff.mp h).elim le_of_lt fun h => h.1.le

theorem higher_iff {a : Call} (h : pickStronger a.route a.strongerRoutes = some c) :
    a.route.capabilityTier < c.capabilityTier ↔ TiersApart a := by
  obtain ⟨hmem,hstrong,hleast⟩ := pickStronger_some h
  constructor
  · intro hlt x hx htier
    by_contra hne
    have hkey := tier_le_of_key (hleast x hx (decide_eq_true (.inr ⟨htier,hne⟩)))
    omega
  · intro happart
    rcases of_decide_eq_true hstrong with hlt | ⟨htier,hne⟩
    · exact hlt
    · exact absurd (happart c hmem htier) hne

theorem model_of_key {d : ExecutionRoute} (h : routeKey c = routeKey d) : c.modelId = d.modelId := by
  have hfields := congrArg (fun k => (ofLex (ofLex (ofLex k).2).2).1) h
  exact String.toList_injective hfields

theorem apart_iff_equivalent {a : Call}
    (h : pickEquivalent a.route a.equivalentRoutes a.certification = some c) :
    c.modelId ≠ a.route.modelId ↔ ModelsApart a := by
  obtain ⟨hc,pre,rest,hsplit,hpre⟩ := pickEquivalent_some h
  constructor
  · intro hne
    refine ⟨fun pre' c' rest' hsplit' hpre' hc' => ?_,fun hnone => ?_⟩
    · rw [hsplit',pickEquivalent_of_split hc' hpre'] at h
      exact Option.some.inj h ▸ hne
    · rw [hnone c (by simp [hsplit])] at hc
      cases hc
  · exact fun happart => happart.1 pre c rest hsplit hpre hc

theorem apart_iff_stronger {a : Call}
    (hnone : pickEquivalent a.route a.equivalentRoutes a.certification = none)
    (h : pickStronger a.route a.strongerRoutes = some c) : c.modelId ≠ a.route.modelId ↔ ModelsApart a := by
  obtain ⟨hmem,hstrong,hleast⟩ := pickStronger_some h
  have hno : ∀ x ∈ a.equivalentRoutes, isEquivalent a.route a.certification x = false := by
    simpa [pickEquivalent] using hnone
  constructor
  · intro hne
    refine ⟨fun pre x rest hsplit _ hx => ?_,fun _ x hx hxs hxl => ?_⟩
    · rw [hno x (by simp [hsplit])] at hx
      cases hx
    · rw [model_of_key (le_antisymm (hxl c hmem hstrong) (hleast x hx hxs))]
      exact hne
  · exact fun happart => happart.2 hno c hmem hstrong hleast

/-! ### One decision -/

structure Stopped (d : RecoveryDecision) : Prop where
  action : d.action = .block
  outcome : d.outcome = .blocked ∨ d.outcome = .cancelled
  success : d.success = false

structure Proceeds (failureClass : RecoveryFailureClass) (a : Call) (plan : Plan) (d : RecoveryDecision) : Prop where
  planned : planFor a failureClass = .ok plan
  ofClass : d.failureClass = failureClass
  action : d.action = plan.action
  outcome : d.outcome = .proceed
  success : d.success = false
  before : d.routeBefore = a.route
  after : d.routeAfter = (plan.tamed a.route failureClass).routeAfter
  frontier : d.frontierCall = (plan.tamed a.route failureClass).frontierCall

section Decision
variable {lower : Text → Text} {digest : FailureEvidence → String} {ctx : Context} {b : RecoveryBounds} {a : Call}
  {d : RecoveryDecision} {attempt : ℤ} {cash : Option ℚ}
variable {plan : Plan} {route : ExecutionRoute} {failureClass : RecoveryFailureClass}

theorem tamed_action : (plan.tamed route failureClass).action = plan.action := by
  unfold Plan.tamed
  split <;> rfl

theorem decision_cases (h : decision lower digest ctx b attempt a cash = .ok d) :
    (Stopped d ∧ (a.evidence.cancelled = false → gate ctx b attempt a cash = .ok none →
        ∃ reason, planFor a (classifyFailure lower a.evidence) = .error reason)) ∨
      a.evidence.cancelled = false ∧ gate ctx b attempt a cash = .ok none ∧
        ∃ plan, Proceeds (classifyFailure lower a.evidence) a plan d := by
  unfold decision at h
  split at h
  · rename_i hcancelled
    cases h
    exact .inl ⟨⟨rfl,.inr rfl,rfl⟩,fun hc => by simp [hc] at hcancelled⟩
  · rename_i hcancelled
    split at h
    · cases h
    · rename_i reason hgate
      cases h
      exact .inl ⟨⟨rfl,.inl rfl,rfl⟩,fun _ hg => by simp [hgate] at hg⟩
    · rename_i hgate
      cases hplan : planFor a (classifyFailure lower a.evidence) with
      | error reason =>
        simp only [hplan] at h
        cases h
        exact .inl ⟨⟨rfl,.inl rfl,rfl⟩,fun _ _ => ⟨reason,rfl⟩⟩
      | ok plan =>
        simp only [hplan] at h
        cases h
        exact .inr ⟨by simpa using hcancelled,hgate,plan,hplan,rfl,tamed_action,rfl,rfl,rfl,rfl,rfl⟩

theorem decide_cases (lower : Text → Text) (digest : FailureEvidence → String) (ctx : Context) (c : Controller) (a : Call) :
    (¬ Planned ctx c.bounds (a.attemptIndex.getD c.history.length) a ∧
        ∃ e, c.decide lower digest ctx a = (c,.error e)) ∨
      ∃ d, c.decide lower digest ctx a = ({c with history := c.history ++ [d]},.ok d) ∧
        ((Stopped d ∧ (Planned ctx c.bounds (a.attemptIndex.getD c.history.length) a →
            ∃ reason, planFor a (classifyFailure lower a.evidence) = .error reason)) ∨
          Planned ctx c.bounds (a.attemptIndex.getD c.history.length) a ∧
            ∃ plan, Proceeds (classifyFailure lower a.evidence) a plan d) := by
  unfold Controller.decide
  cases hworker : sameWorker a.evidence with
  | some worker => exact .inl ⟨fun ⟨hp,_⟩ => by simp [hworker] at hp,⟨.notIndependent worker,rfl⟩⟩
  | none =>
    cases hcash : remainingCashUsd ctx a.ledger with
    | error e => exact .inl ⟨fun ⟨_,_,_,hok,_⟩ => by simp [hcash] at hok,⟨e,rfl⟩⟩
    | ok cash =>
      cases hd : decision lower digest ctx c.bounds (a.attemptIndex.getD c.history.length) a cash with
      | error e =>
        refine .inl ⟨fun ⟨_,hcancelled,_,hok,hgate⟩ => ?_,⟨e,by simp only [Except.bind,hd]⟩⟩
        obtain rfl := Except.ok.inj (hcash.symm.trans hok)
        simp only [decision,hcancelled,Bool.false_eq_true,if_false,hgate] at hd
        split at hd <;> cases hd
      | ok d =>
        refine .inr ⟨d,by simp only [Except.bind,hd],?_⟩
        rcases decision_cases hd with ⟨hstopped,hreason⟩ | ⟨hcancelled,hgate,hplan⟩
        · refine .inl ⟨hstopped,fun ⟨_,hcancelled,_,hok,hgate⟩ => ?_⟩
          obtain rfl := Except.ok.inj (hcash.symm.trans hok)
          exact hreason hcancelled hgate
        · exact .inr ⟨⟨hworker,hcancelled,cash,hcash,hgate⟩,hplan⟩

theorem gate_none (h : gate ctx b attempt a cash = .ok none) : (∀ deadline ∈ b.deadlineAt, a.now ≤ deadline)
    ∧ attempt < b.maxAttempts ∧ (∀ q ∈ cash, cashNeeded b a ≤ q) ∧ lacksTokens ctx a.ledger
    (tokensNeeded b a) = .ok false := by
  unfold gate at h
  split at h
  · cases h
  rename_i hdeadline
  split at h
  · cases h
  rename_i hattempt
  split at h
  · cases h
  rename_i hcash
  refine ⟨fun t ht => ?_,not_le.mp hattempt,fun q hq => ?_,?_⟩
  · rw [Option.mem_def.mp ht] at hdeadline
    simpa using hdeadline
  · rw [Option.mem_def.mp hq] at hcash
    simpa using hcash
  · split at h
    · cases h
    · cases h
    · assumption

theorem plan_spec (h : planFor a failureClass = .ok plan) :
    (failureClass = .providerOrGatewayFailure → pickEquivalent a.route a.equivalentRoutes a.certification = some plan.routeAfter) ∧
    (failureClass = .modelCapabilityDeficit ↔ plan.action = .escalateCapability) ∧
    (failureClass = .modelCapabilityDeficit → pickStronger a.route a.strongerRoutes = some plan.routeAfter) ∧
    (failureClass = .missingOrStaleContext ↔ plan.action = .rehydrate) ∧
    (failureClass = .missingOrStaleContext → plan.frontierCall = false) ∧
    (failureClass = .contextLengthOverflow →
      pickEquivalent a.route a.equivalentRoutes a.certification = some plan.routeAfter ∨
        pickEquivalent a.route a.equivalentRoutes a.certification = none ∧
          pickStronger a.route a.strongerRoutes = some plan.routeAfter) := by
  cases failureClass with
  | providerOrGatewayFailure =>
    cases hc : pickEquivalent a.route a.equivalentRoutes a.certification with
    | none => simp [planFor,hc] at h
    | some c =>
      simp only [planFor,hc,Except.ok.injEq] at h
      subst h
      simp
  | modelCapabilityDeficit =>
    cases hc : pickStronger a.route a.strongerRoutes with
    | none => simp [planFor,hc] at h
    | some c =>
      simp only [planFor,hc,Except.ok.injEq] at h
      subst h
      simp
  | contextLengthOverflow =>
    cases hc : pickEquivalent a.route a.equivalentRoutes a.certification with
    | some c =>
      simp only [planFor,hc,Except.ok.injEq] at h
      subst h
      simp
    | none => cases hs : pickStronger a.route a.strongerRoutes with
      | none => simp [planFor,hc,hs] at h
      | some c =>
        simp only [planFor,hc,hs,Except.ok.injEq] at h
        subst h
        simp
  | ambiguousOrUnknown => cases h
  | _ =>
    cases h
    simp

theorem served_of_no_plan {reason : String} (h : planFor a failureClass = .error reason) :
    (failureClass = .modelCapabilityDeficit → TiersApart a) ∧ (failureClass = .contextLengthOverflow → ModelsApart a) := by
  have hnone : pickStronger a.route a.strongerRoutes = none → ∀ c ∈ a.strongerRoutes, isStronger a.route c ≠ true := by
    intro hnone c hc hstrong
    obtain ⟨d,hd⟩ := pickStronger_isSome hc hstrong
    simp [hnone] at hd
  constructor
  · rintro rfl
    intro c hc htier
    by_contra hne
    cases hs : pickStronger a.route a.strongerRoutes with
    | none => exact hnone hs c hc (decide_eq_true (.inr ⟨htier,hne⟩))
    | some s => simp [planFor,hs] at h
  · rintro rfl
    cases hp : pickEquivalent a.route a.equivalentRoutes a.certification with
    | some c => simp [planFor,hp] at h
    | none => cases hs : pickStronger a.route a.strongerRoutes with
      | some c => simp [planFor,hp,hs] at h
      | none =>
        have hno : ∀ x ∈ a.equivalentRoutes, isEquivalent a.route a.certification x = false := by
          simpa [pickEquivalent] using hp
        refine ⟨fun pre c rest hsplit _ hc => ?_,fun _ c hc hstrong _ => absurd hstrong (hnone hs c hc)⟩
        rw [hno c (by simp [hsplit])] at hc
        cases hc

theorem tamed_of_ne (h : failureClass ≠ .missingOrStaleContext) : plan.tamed route failureClass = plan :=
  if_neg fun hc => h hc.2

theorem tamed_frontier : (plan.tamed route .missingOrStaleContext).routeAfter.isFrontier = false ∧
    (plan.frontierCall = false → (plan.tamed route .missingOrStaleContext).frontierCall = false) := by
  unfold Plan.tamed
  split
  · exact ⟨rfl,fun _ => rfl⟩
  · rename_i hnot
    refine ⟨?_,id⟩
    simpa using hnot

theorem Stopped.bounded (h : Stopped d) : Bounded ctx b a d := by
  have hgo : d.outcome ≠ .proceed := by rcases h.outcome with h | h <;> simp [h]
  refine ⟨fun hp => absurd hp hgo,fun hp => absurd hp hgo,fun hp => absurd hp hgo,⟨h.success,?_⟩,fun _ hs => ?_,fun hs => ?_⟩
  · rcases h.outcome with h | h <;> simp [h]
  · simp [h.action] at hs
  · simp [h.action] at hs

theorem Stopped.improves (h : Stopped d) : Improves d := by
  refine ⟨fun hs => ?_,fun _ hp => ?_⟩
  · simp [h.action] at hs
  · rcases h.outcome with h | h <;> simp [h] at hp

theorem Proceeds.bounded (h : Proceeds failureClass a plan d)
    (hp : Planned ctx b attempt a) : Bounded ctx b a d := by
  obtain ⟨_,_,cash,hcash,hgate⟩ := hp
  obtain ⟨hdeadline,_,henough,htokens⟩ := gate_none hgate
  obtain ⟨hequiv,_,_,hrehydrate,hquiet,_⟩ := plan_spec h.planned
  refine ⟨fun _ => hdeadline,fun _ => ⟨cash,hcash,henough⟩,fun _ => htokens,⟨h.success,by simp [h.outcome]⟩,
    fun hc _ => ?_,fun ha => ?_⟩
  · rw [h.ofClass] at hc
    subst hc
    rw [h.after,h.before,tamed_of_ne (by simp)]
    exact isEquivalent_tier (pickEquivalent_some (hequiv rfl)).1
  · rw [h.action] at ha
    obtain rfl := hrehydrate.mpr ha
    rw [h.after,h.frontier]
    exact ⟨tamed_frontier.2 (hquiet rfl),tamed_frontier.1⟩

theorem Proceeds.improves_iff (h : Proceeds failureClass a plan d) : Improves d ↔
    (failureClass = .modelCapabilityDeficit → TiersApart a) ∧
    (failureClass = .contextLengthOverflow → ModelsApart a) := by
  obtain ⟨_,hescalate,hstronger,_,_,hoverflow⟩ := plan_spec h.planned
  have hhigher : (d.action = .escalateCapability → d.routeBefore.capabilityTier < d.routeAfter.capabilityTier) ↔
      (failureClass = .modelCapabilityDeficit → TiersApart a) := by
    rw [h.action,← hescalate]
    refine forall_congr' fun hc => ?_
    rw [h.after,h.before,tamed_of_ne (by simp [hc])]
    exact higher_iff (hstronger hc)
  have hother : (d.failureClass = .contextLengthOverflow → d.outcome = .proceed →
      d.routeAfter.modelId ≠ d.routeBefore.modelId) ↔ (failureClass = .contextLengthOverflow → ModelsApart a) := by
    rw [h.ofClass]
    refine forall_congr' fun hc => ?_
    rw [h.after,h.before,h.outcome,tamed_of_ne (by simp [hc])]
    refine (forall_prop_of_true rfl).trans ?_
    rcases hoverflow hc with hpick | ⟨hnone,hpick⟩
    · exact apart_iff_equivalent hpick
    · exact apart_iff_stronger hnone hpick
  rw [← hhigher,← hother]
  exact ⟨fun h => ⟨h.higher,h.otherModel⟩,fun h => ⟨h.1,h.2⟩⟩

end Decision

/-! ### Whole sequences -/

section
variable (lower : Text → Text) (digest : FailureEvidence → String) (ctx : Context)
variable (calls : List Call)

theorem proceeding_le (hindex : ∀ a ∈ calls, a.attemptIndex = none) (c : Controller) :
    (((decisions lower digest ctx c calls).filter fun x => decide (x.2.outcome = .proceed)).length : ℤ) ≤
    max 0 (c.bounds.maxAttempts - c.history.length) := by
  induction calls generalizing c with
  | nil => simp [decisions]
  | cons a rest ih =>
    have hrest := ih fun x hx => hindex x (List.mem_cons_of_mem a hx)
    rw [decisions]
    rcases decide_cases lower digest ctx c a with ⟨hunplanned,e,he⟩ | ⟨d,hd,hcases⟩
    · simp only [he]
      exact hrest c
    · simp only [hd,List.filter_cons]
      have hnext := hrest {c with history := c.history ++ [d]}
      simp only [List.length_append,List.length_singleton,Nat.cast_add,Nat.cast_one] at hnext
      split
      · rename_i hgo
        have hgo : d.outcome = .proceed := by simpa using hgo
        rcases hcases with ⟨hstopped,_⟩ | ⟨⟨_,_,_,_,hgate⟩,_⟩
        · rcases hstopped.outcome with h | h <;> simp [h] at hgo
        · have hleft := (gate_none hgate).2.1
          rw [hindex a List.mem_cons_self,Option.getD_none] at hleft
          simp only [List.length_cons,Nat.cast_add,Nat.cast_one]
          omega
      · omega

/-- Each call of the sequence has candidates to serve its plan, in the state it is made in. -/
def ServedRun (c : Controller) (calls : List Call) : Prop :=
  Run.AllSteps (nextController lower digest ctx)
    (fun c a => Served lower ctx c.bounds (a.attemptIndex.getD c.history.length) a) c calls

theorem decisions_bounded (c : Controller) :
    ∀ x ∈ decisions lower digest ctx c calls, Bounded ctx c.bounds x.1 x.2 := by
  induction calls generalizing c with
  | nil => simp [decisions]
  | cons a rest ih =>
    rw [decisions]
    rcases decide_cases lower digest ctx c a with ⟨hunplanned,e,he⟩ | ⟨d,hd,hcases⟩
    · simp only [he]
      exact ih c
    · simp only [hd,List.forall_mem_cons]
      refine ⟨?_,ih _⟩
      rcases hcases with ⟨hstopped,_⟩ | ⟨hplanned,plan,hgoes⟩
      · exact hstopped.bounded
      · exact hgoes.bounded hplanned

theorem decisions_improve_iff (c : Controller) :
    (∀ x ∈ decisions lower digest ctx c calls, Improves x.2) ↔ ServedRun lower digest ctx c calls := by
  induction calls generalizing c with
  | nil => exact iff_of_true (by simp [decisions]) trivial
  | cons a rest ih =>
    rw [decisions,ServedRun,Run.AllSteps]
    simp only [nextController,Option.some.injEq,forall_eq']
    rcases decide_cases lower digest ctx c a with ⟨hunplanned,e,he⟩ | ⟨d,hd,hcases⟩
    · simp only [he]
      exact (ih c).trans ⟨fun h => ⟨fun hplanned => absurd hplanned hunplanned,h⟩,fun h => h.2⟩
    · simp only [hd,List.forall_mem_cons]
      refine and_congr ?_ (ih _)
      rcases hcases with ⟨hstopped,hnoplan⟩ | ⟨hplanned,plan,hgoes⟩
      · refine iff_of_true hstopped.improves fun hplanned => ?_
        obtain ⟨reason,hreason⟩ := hnoplan hplanned
        exact served_of_no_plan hreason
      · exact hgoes.improves_iff.trans ⟨fun h _ => h,fun h => h hplanned⟩

/-- A controller keeps what it promises in a sequence of calls exactly if the candidates serve their plans. -/
theorem promised_iff_served (b : RecoveryBounds) (calls : List Call) (hindex : ∀ a ∈ calls, a.attemptIndex = none) :
    Promised ctx b (decisions lower digest ctx ⟨b,[]⟩ calls) ↔ ServedRun lower digest ctx ⟨b,[]⟩ calls := by
  rw [← decisions_improve_iff]
  refine ⟨fun h => h.improves,fun h => ⟨?_,decisions_bounded lower digest ctx calls ⟨b,[]⟩,h⟩⟩
  have hle := proceeding_le lower digest ctx calls hindex ⟨b,[]⟩
  have hpositive := b.positive
  simp only [List.length_nil,Nat.cast_zero,sub_zero] at hle
  rwa [max_eq_right (by omega)] at hle

end

def noBudgets : CostLedger.Budgets :=
  {cash_nonneg := by simp, subscription_nonneg := by simp, quota_nonneg := by simp, floor_nonneg := le_refl 0,
    floor_le := le_refl 0}

variable (strongerRoutes : List ExecutionRoute)

def tooWeak : Call where
  evidence := {signals := ["model_too_weak".toList]}
  route := {modelId := "small", provider := "p", capabilityTier := 1}
  ledger := {budgets := noBudgets}
  strongerRoutes
  now := 0

theorem tooWeak_planned : Planned some {} 0 (tooWeak strongerRoutes) :=
  ⟨rfl,rfl,none,rfl,rfl⟩

theorem higher_candidate_promised :
    Promised some {} (decisions id (fun _ => "") some ⟨{},[]⟩ [tooWeak [{modelId := "large", provider := "p", capabilityTier := 2}]]) := by
  refine (promised_iff_served id (fun _ => "") some {} _ ?_).mpr ⟨fun _ => ⟨fun _ c hc htier => ?_,fun hc => ?_⟩,fun _ _ => trivial⟩
  · exact fun a ha => List.mem_singleton.mp ha ▸ rfl
  · obtain rfl := List.mem_singleton.mp hc
    exact absurd htier (by decide)
  · exact absurd hc (by decide +kernel)

/-- A sibling of the same tier is escalated to, though a higher candidate is there. -/
theorem sibling_breaks_promise : ¬ ∀ (lower : Text → Text) (digest : FailureEvidence → String) (ctx : Context)
    (b : RecoveryBounds) (calls : List Call), (∀ a ∈ calls, a.attemptIndex = none) →
    Promised ctx b (decisions lower digest ctx ⟨b,[]⟩ calls) := by
  intro h
  let sibling : ExecutionRoute := {modelId := "sibling", provider := "p", capabilityTier := 1}
  let calls := [tooWeak [sibling,{modelId := "large", provider := "p", capabilityTier := 2}]]
  have hpromised := h id (fun _ => "") some {} calls fun a ha => List.mem_singleton.mp ha ▸ rfl
  have hserved := (decisions_improve_iff id (fun _ => "") some calls ⟨{},[]⟩).mp hpromised.improves
  have hapart := (hserved.1 (tooWeak_planned _)).1 (by decide +kernel) sibling List.mem_cons_self rfl
  exact absurd hapart (by decide)

end Verdict.BoundedRecovery

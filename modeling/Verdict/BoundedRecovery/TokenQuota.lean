import Verdict.Basics.Raising
import Verdict.BoundedRecovery.Decide
import Verdict.CostLedger.Conservation

/-! # Two counts of the tokens

`decide` sums what the reservations of the tokens pool hold, the ledger keeps a running total. A partial bill
takes the whole hold out of the total while `decide` still counts it; in a run without one, and with exact
sums, the counts are the same in every state.
-/
namespace Verdict.BoundedRecovery
open CostLedger

def OfTokens (r : Reservation) : Prop := r.pool = .quota ∧ r.poolId = some "tokens"

instance (r : Reservation) : Decidable (OfTokens r) := inferInstanceAs (Decidable (_ ∧ _))

def counted (r : Reservation) : ℚ := (countedTokens r).getD 0

def OnTokens (l : Ledger) : CostLedger.Call → Prop
  | .reserve args => args.pool = .quota ∧ args.poolId = some "tokens"
  | .reconcile id _ => ∃ r, l.reservations[id]? = some r ∧ OfTokens r
  | .release id => ∃ r, l.reservations[id]? = some r ∧ OfTokens r

/-- A call about the tokens pool bills no less than is held if it leaves a reservation open, and its sums are exact. -/
def TokensFit (ctx : Context) (l : Ledger) (c : CostLedger.Call) : Prop := OnTokens l c → Fits ctx l c

structure Whole (r : Reservation) : Prop where
  nonneg : 0 ≤ r.amount
  status : r.status ≠ .partially
  billed : r.status = .reconciled → ∃ q, r.actual = some q ∧ 0 ≤ q

/-- The running total is what `decide` counts. -/
structure Counted (l : Ledger) : Prop where
  total : l.quotaReserved "tokens" = (l.reservations.map counted).sum
  whole : ∀ r ∈ l.reservations, OfTokens r → Whole r

def withTokens (l : Ledger) (q : ℚ) : Ledger := {l with quotaReserved := Function.update l.quotaReserved "tokens" q}

theorem withTokens_total (l : Ledger) (q : ℚ) : (withTokens l q).quotaReserved "tokens" = q := by
  simp [withTokens]

theorem update_other {f : String → ℚ} {id : String} (h : "tokens" ≠ id) (q : ℚ) :
    Function.update f id q "tokens" = f "tokens" := by
  simp [Function.update,h]

section Reservations
variable {l l' : Ledger} {r r' : Reservation} {ctx : Context}

theorem counted_other (h : ¬ OfTokens r) : counted r = 0 := by
  have hnone : countedTokens r = none := if_neg h
  rw [counted,hnone]
  rfl

theorem counted_reserved (h : OfTokens r) (hs : r.status = .reserved) : counted r = r.amount := by
  simp [counted,countedTokens,h.1,h.2,hs]

variable {q : ℚ}

theorem counted_reconciled (h : OfTokens r) (hs : r.status = .reconciled) (hq : r.actual = some q) :
    counted r = q := by
  simp [counted,countedTokens,h.1,h.2,hs,hq]

theorem counted_released (hs : r.status = .released) : counted r = 0 := by
  simp [counted,countedTokens,hs]

theorem counted_nonneg (h : OfTokens r → Whole r) : 0 ≤ counted r := by
  by_cases ht : OfTokens r
  swap
  · rw [counted_other ht]
  cases hs : r.status with
  | reserved => exact counted_reserved ht hs ▸ (h ht).nonneg
  | partially => exact absurd hs (h ht).status
  | released => rw [counted_released hs]
  | reconciled =>
    obtain ⟨q,hq,hnonneg⟩ := (h ht).billed hs
    rw [counted_reconciled ht hs hq]
    exact hnonneg

theorem Counted.counted_le (h : Counted l) (hr : r ∈ l.reservations) : counted r ≤ l.quotaReserved "tokens" := by
  rw [h.total]
  refine List.single_le_sum (fun x hx => ?_) _ (List.mem_map_of_mem hr)
  obtain ⟨y,hy,rfl⟩ := List.mem_map.mp hx
  exact counted_nonneg (h.whole y hy)

theorem Counted.replaced (h : Counted l) {i : ℕ} (hr : l.reservations[i]? = some r) (hres : l'.reservations = l.reservations)
    (hwhole : OfTokens r' → Whole r')
    (htotal : l'.quotaReserved "tokens" = l.quotaReserved "tokens" - counted r + counted r') : Counted (l'.put i r') := by
  constructor
  · have hsum : ((l'.reservations.set i r').map counted).sum = (l.reservations.map counted).sum - counted r + counted r' := by
      rw [hres]
      exact sum_set hr
    show l'.quotaReserved "tokens" = _
    rw [htotal,h.total]
    exact hsum.symm
  · intro x hx
    rcases List.mem_or_eq_of_mem_set hx with hx | rfl
    · exact h.whole x (hres ▸ hx)
    · exact hwhole

/-! ### The calls -/

variable {args : ReserveArgs}

theorem hold_tokens (h : l.hold ctx args q = .ok l') (hq : q = args.amount.value) :
    l'.reservations = l.reservations ∧
      (OnTokens l (.reserve args) → Fits ctx l (.reserve args) → l'.quotaReserved "tokens" = l.quotaReserved "tokens" + q) ∧
      (¬ OnTokens l (.reserve args) → l'.quotaReserved "tokens" = l.quotaReserved "tokens") := by
  subst hq
  unfold Ledger.hold at h
  cases hpool : args.pool with
  | cash =>
    simp only [hpool] at h
    split at h
    · cases h
    · obtain ⟨sum,_,rfl⟩ := Raising.map_ok.mp h
      exact ⟨rfl,fun hon => by simp [OnTokens,hpool] at hon,fun _ => rfl⟩
  | subscription =>
    simp only [hpool] at h
    split at h
    · cases h
    · cases h
    · obtain ⟨sum,_,rfl⟩ := Raising.map_ok.mp h
      exact ⟨rfl,fun hon => by simp [OnTokens,hpool] at hon,fun _ => rfl⟩
  | quota =>
    simp only [hpool] at h
    split at h
    · cases h
    · cases h
    · rename_i id _ hid
      obtain ⟨sum,hsum,rfl⟩ := Raising.map_ok.mp h
      refine ⟨rfl,fun hon hfits => ?_,fun hoff => ?_⟩
      · obtain rfl : id = "tokens" := Option.some.inj (hid.symm.trans hon.2)
        have hexact := hfits.1
        simp only [sums,hpool,hid,Option.getD_some] at hexact
        rw [← (holdMore_ok hexact hsum).1]
        exact withTokens_total l sum
      · have hne : "tokens" ≠ id := fun heq => hoff ⟨hpool,heq ▸ hid⟩
        exact update_other hne sum
  | cheaperInference =>
    simp only [hpool] at h
    split at h
    · cases h
    · split at h
      · cases h
      · obtain ⟨sum,_,rfl⟩ := Raising.map_ok.mp h
        exact ⟨rfl,fun hon => by simp [OnTokens,hpool] at hon,fun _ => rfl⟩
  | unknown name =>
    simp only [hpool] at h
    cases h

theorem quotaId_of_not (h : ¬ OfTokens r) (hpool : r.pool = .quota) : "tokens" ≠ r.poolId.getD "" := by
  intro heq
  cases hid : r.poolId with
  | none =>
    rw [hid] at heq
    exact absurd heq (by decide)
  | some id =>
    rw [hid] at heq
    exact h ⟨hpool,by rw [hid,← show "tokens" = id from heq]⟩

theorem applySettle_other (h : ¬ OfTokens r) (q : ℚ) : (l.applySettle ctx r q).1.reservations =
    l.reservations ∧ (l.applySettle ctx r q).1.quotaReserved "tokens" = l.quotaReserved "tokens" := by
  unfold Ledger.applySettle
  cases hpool : r.pool with
  | cash =>
    dsimp only
    split
    · exact ⟨rfl,rfl⟩
    · split <;> exact ⟨rfl,rfl⟩
  | subscription =>
    dsimp only
    split <;> exact ⟨rfl,rfl⟩
  | quota =>
    dsimp only
    split
    · exact ⟨rfl,rfl⟩
    · exact ⟨rfl,update_other (quotaId_of_not h hpool) _⟩
  | cheaperInference =>
    dsimp only
    split
    · exact ⟨rfl,rfl⟩
    · split <;> exact ⟨rfl,rfl⟩
  | unknown name => exact ⟨rfl,rfl⟩

theorem releaseReserved_other (h : ¬ OfTokens r) (q : ℚ) : (l.releaseReserved ctx r q).1.reservations =
    l.reservations ∧ (l.releaseReserved ctx r q).1.quotaReserved "tokens" = l.quotaReserved "tokens" := by
  unfold Ledger.releaseReserved
  cases hpool : r.pool with
  | quota =>
    dsimp only
    split
    · exact ⟨rfl,rfl⟩
    · exact ⟨rfl,update_other (quotaId_of_not h hpool) _⟩
  | unknown name => exact ⟨rfl,rfl⟩
  | _ =>
    dsimp only
    split <;> exact ⟨rfl,rfl⟩

theorem settleSums_tokens (h : OfTokens r) (q : ℚ) :
    settleSums l r q = [l.quotaReserved "tokens" - r.amount,l.quotaReserved "tokens" - r.amount + q] := by
  simp [settleSums,Reservation.account,h.1,h.2,Ledger.accounted]

theorem reserve_counted (h : Counted l) (hfits : TokensFit ctx l (.reserve args)) :
    Counted (l.reserve ctx args).1 := by
  unfold Ledger.reserve
  cases hq : args.amount.amount "amount" with
  | error e => exact h
  | ok q =>
    obtain ⟨hvalue,hnonneg⟩ := amount_ok hq
    dsimp only
    split
    · exact h
    cases hhold : l.hold ctx args q with
    | error e => exact h
    | ok l' =>
      obtain ⟨hres,hon,hoff⟩ := hold_tokens hhold hvalue
      let r : Reservation := ⟨q,args.unit,args.pool,args.poolId,.reserved,args.terms,none,none⟩
      have hmine : OfTokens r ↔ OnTokens l (.reserve args) := Iff.rfl
      constructor
      · show l'.quotaReserved "tokens" = ((l'.reservations ++ [r]).map counted).sum
        rw [List.map_append,List.sum_append,hres,← h.total]
        by_cases hm : OfTokens r
        · rw [hon (hmine.mp hm) (hfits (hmine.mp hm))]
          simp [counted_reserved hm (rfl : r.status = .reserved),r]
        · rw [hoff fun ho => hm (hmine.mpr ho)]
          simp [counted_other hm]
      · intro x hx hm
        rcases List.mem_append.mp hx with hx | hx
        · exact h.whole x (hres ▸ hx) hm
        · obtain rfl := List.mem_singleton.mp hx
          exact ⟨hnonneg,by simp,by simp⟩

variable {id : ℕ}

theorem release_counted (h : Counted l) (hfits : TokensFit ctx l (.release id)) :
    Counted (l.release ctx id).1 := by
  unfold Ledger.release
  cases hr : l.reservations[id]? with
  | none => exact h
  | some r =>
    dsimp only
    split
    · exact h
    rename_i hst
    have hst : r.status = .reserved := not_not.mp hst
    by_cases hm : OfTokens r
    · have hexact := (hfits ⟨r,hr,hm⟩).1 (l.quotaReserved "tokens" - r.amount) (by
        rw [sums,hr]
        simp [settleSums_tokens hm])
      have hle := h.counted_le (List.mem_of_getElem? hr)
      rw [counted_reserved hm hst] at hle
      have hset : l.releaseReserved ctx r r.amount = (withTokens l (l.quotaReserved "tokens" - r.amount),none) := by
        simp [Ledger.releaseReserved,withTokens,hm.1,hm.2,hexact,max_eq_right (sub_nonneg.mpr hle)]
      rw [hset]
      refine h.replaced hr rfl (fun _ => ⟨(h.whole r (List.mem_of_getElem? hr) hm).nonneg,by simp,by simp⟩) ?_
      rw [counted_reserved hm hst,counted_released rfl,add_zero]
      exact withTokens_total _ _
    · obtain ⟨hres,htotal⟩ := releaseReserved_other hm r.amount
      split
      · rename_i l' e heq
        rw [heq] at hres htotal
        exact ⟨by rw [htotal,h.total,hres],fun x hx => h.whole x (hres ▸ hx)⟩
      · rename_i l' heq
        rw [heq] at hres htotal
        refine h.replaced hr hres (fun hm' => absurd hm' hm) ?_
        rw [counted_other hm,counted_released rfl,htotal,sub_zero,add_zero]

theorem reconcile_counted (h : Counted l) {args : ReconcileArgs} (hfits : TokensFit ctx l (.reconcile id args)) :
    Counted (l.reconcile ctx id args).1 := by
  unfold Ledger.reconcile
  cases hr : l.reservations[id]? with
  | none => exact h
  | some r =>
    have hrmem := List.mem_of_getElem? hr
    dsimp only
    split
    · exact h
    rename_i hopen
    have hst : OfTokens r → r.status = .reserved := by
      intro hm
      cases hs : r.status with
      | reserved => rfl
      | partially => exact absurd hs (h.whole r hrmem hm).status
      | reconciled => exact absurd (.inl hs) hopen
      | released => exact absurd (.inr hs) hopen
    -- a hold that is noted again counts as before
    have hnoted : ∀ notes, Counted (l.put id {r with status := .reserved, notes}) := by
      intro notes
      refine h.replaced hr rfl (fun hm => ⟨(h.whole r hrmem hm).nonneg,by simp,by simp⟩) ?_
      by_cases hm : OfTokens r
      · have hm' : OfTokens {r with status := .reserved, notes} := hm
        rw [counted_reserved hm (hst hm),counted_reserved hm' rfl,sub_add_cancel]
      · have hm' : ¬ OfTokens {r with status := .reserved, notes} := hm
        rw [counted_other hm,counted_other hm',sub_zero,add_zero]
    split
    · exact hnoted _
    rename_i hmissing
    split
    · exact hnoted _
    rename_i hdelayed
    split
    · exact h
    cases hq : args.actual.amount "actual_amount" with
    | error e => exact h
    | ok q =>
      obtain ⟨rfl,hnonneg⟩ := amount_ok hq
      cases hterms : addedTerms args with
      | error e => exact h
      | ok terms =>
        dsimp only
        by_cases hm : OfTokens r
        · have hfit := hfits ⟨r,hr,hm⟩
          have hexact : ∀ s ∈ settleSums l r args.actual.value, ctx s = some s := fun s hs => hfit.1 s (by
            rw [sums,hr]
            simpa using hs)
          rw [settleSums_tokens hm] at hexact
          have hclosed : ¬ (args.partially = true ∧ args.actual.value < r.amount) := by
            rintro ⟨hpart,hshort⟩
            exact absurd (hfit.2 r hr hpart (by simpa using hmissing) fun hd ha => hdelayed ⟨hd,ha⟩) (not_le.mpr hshort)
          have hle := h.counted_le hrmem
          rw [counted_reserved hm (hst hm)] at hle
          have hpos : 0 ≤ l.quotaReserved "tokens" - r.amount + args.actual.value :=
            add_nonneg (sub_nonneg.mpr hle) hnonneg
          have hset : l.applySettle ctx r args.actual.value =
              (withTokens l (l.quotaReserved "tokens" - r.amount + args.actual.value),none) := by
            simp [Ledger.applySettle,Ledger.settled,withTokens,hm.1,hm.2,hexact _ List.mem_cons_self,
              hexact _ (List.mem_cons_of_mem _ List.mem_cons_self),max_eq_right hpos]
          rw [if_neg hclosed,hset]
          refine h.replaced hr rfl (fun _ => ⟨(h.whole r hrmem hm).nonneg,by simp,fun _ => ⟨_,rfl,hnonneg⟩⟩) ?_
          rw [counted_reserved hm (hst hm),withTokens_total]
          refine congrArg (l.quotaReserved "tokens" - r.amount + ·) (Eq.symm ?_)
          refine counted_reconciled ?_ rfl rfl
          exact hm
        · obtain ⟨hres,htotal⟩ := applySettle_other hm args.actual.value
          split
          · rename_i l' e heq
            rw [heq] at hres htotal
            exact ⟨by rw [htotal,h.total,hres],fun x hx => h.whole x (hres ▸ hx)⟩
          · rename_i l' heq
            rw [heq] at hres htotal
            refine h.replaced hr hres (fun hm' => absurd hm' hm) ?_
            rw [counted_other hm,htotal,sub_zero]
            refine (add_eq_left.mpr ?_).symm
            refine counted_other fun hm' => hm ?_
            exact hm'

theorem step_counted (h : Counted l) {c : CostLedger.Call} (hfits : TokensFit ctx l c) : Counted (l.step ctx c).1 := by
  cases c with
  | reserve args => exact reserve_counted h hfits
  | reconcile id args => exact reconcile_counted h hfits
  | release id => exact release_counted h hfits

end Reservations

/-! ### The two refusals -/

/-- The sums that `decide` makes over a ledger are exact. -/
structure SumsExact (ctx : Context) (l : Ledger) : Prop where
  parts : ∀ qs, qs <+: l.reservations.filterMap countedTokens → qs ≠ [] → ctx qs.sum = some qs.sum
  rest : ∀ b ∈ l.budgets.quota "tokens", ctx (b - l.quotaReserved "tokens") = some (b - l.quotaReserved "tokens")

theorem foldlM_exact {ctx : Context} (qs : List ℚ) (start : ℚ)
    (h : ∀ pre, pre <+: qs → pre ≠ [] → ctx (start + pre.sum) = some (start + pre.sum)) :
    qs.foldlM (fun sum q => ctx (sum + q)) start = some (start + qs.sum) := by
  induction qs generalizing start with
  | nil => simp
  | cons q rest ih =>
    have hq := h [q] ⟨rest,rfl⟩ (by simp)
    rw [List.sum_singleton] at hq
    rw [List.foldlM_cons,hq,Option.bind_eq_bind,Option.bind_some,List.sum_cons,← add_assoc]
    refine ih (start + q) fun pre hpre hne => ?_
    have hpart := h (q :: pre) (List.prefix_cons_inj q |>.mpr hpre) (by simp)
    rwa [List.sum_cons,← add_assoc] at hpart

theorem sum_countedTokens (rs : List Reservation) : (rs.filterMap countedTokens).sum = (rs.map counted).sum := by
  induction rs with
  | nil => rfl
  | cons r rest ih =>
    rw [List.map_cons,List.sum_cons,← ih,counted]
    cases hr : countedTokens r with
    | none => simp [hr]
    | some q => simp [hr]

theorem lacksTokens_eq {ctx : Context} {l : Ledger} (h : Counted l) (hexact : SumsExact ctx l) (needed : ℚ)
    : lacksTokens ctx l needed = .ok
    ((l.budgets.quota "tokens").any fun b => decide (b - l.quotaReserved "tokens" < needed)) := by
  unfold lacksTokens
  cases hb : l.budgets.quota "tokens" with
  | none => rfl
  | some b =>
    have hsum : reservedTokens ctx l = some (l.quotaReserved "tokens") := by
      rw [reservedTokens,foldlM_exact _ 0 fun pre hpre hne => by simpa using hexact.parts pre hpre hne,zero_add,
        sum_countedTokens,← h.total]
    simp only [hsum,hexact.rest b hb,Option.any_some]

def tokenReserve (q : ℚ) : ReserveArgs := {amount := .finite q, pool := .quota, unit := .tokens, poolId := some "tokens"}

theorem reserve_insufficient_iff {ctx : Context} {l : Ledger} (hexact : SumsExact ctx l) {q : ℚ}
    (hq : 0 ≤ q) : (l.reserve ctx (tokenReserve q)).2 = .error (.insufficient .quota) ↔
    (l.budgets.quota "tokens").any (fun b => decide (b - l.quotaReserved "tokens" < q)) = true := by
  have hamount : (tokenReserve q).amount.amount "amount" = .ok q := if_neg (not_lt.mpr hq)
  have hhold : l.hold ctx (tokenReserve q) q = (Ledger.holdMore ctx .quota (l.budgets.quota "tokens")
      (l.quotaReserved "tokens") q "tokens").map fun sum => withTokens l sum := rfl
  have hnow : (tokenReserve q).naiveNow = false := rfl
  simp only [Ledger.reserve,hamount,hhold,hnow,Bool.false_eq_true,if_false]
  cases hb : l.budgets.quota "tokens" with
  | none => simp [Ledger.holdMore,Except.map]
  | some b =>
    simp only [Ledger.holdMore,hexact.rest b hb,Option.any_some,decide_eq_true_eq]
    by_cases hlt : b - l.quotaReserved "tokens" < q
    · simp [hlt,Except.map]
    · simp only [hlt,iff_false]
      cases ctx (l.quotaReserved "tokens" + q) <;> simp [Except.map]

section
variable (lower : Text → Text) (digest : FailureEvidence → String) (ctx : Context)

structure ReachesQuota (c : Controller) (a : Call) (cash : Option ℚ) : Prop where
  independent : sameWorker a.evidence = none
  running : a.evidence.cancelled = false
  inTime : c.bounds.deadlineAt.any (· < a.now) = false
  attempts : a.attemptIndex.getD c.history.length < c.bounds.maxAttempts
  left : remainingCashUsd ctx a.ledger = .ok cash
  affordable : cash.any (· < cashNeeded c.bounds a) = false

/-- `decide` refuses for lack of tokens. -/
def RefusesTokens (c : Controller) (a : Call) : Prop :=
  ∃ d, (c.decide lower digest ctx a).2 = .ok d ∧ d.outcome = .blocked ∧
    d.reason = "insufficient token/quota budget for recovery action; bounded blocker"

variable {lower digest ctx}
variable {a : Call}

theorem planFor_reason {failureClass : RecoveryFailureClass} {reason : String}
    (h : planFor a failureClass = .error reason) :
    reason ≠ "insufficient token/quota budget for recovery action; bounded blocker" := by
  cases failureClass with
  | providerOrGatewayFailure => cases hc : pickEquivalent a.route a.equivalentRoutes a.certification with
    | none =>
      simp only [planFor,hc,Except.error.injEq] at h
      subst h
      decide
    | some c => simp [planFor,hc] at h
  | contextLengthOverflow => cases hc : pickEquivalent a.route a.equivalentRoutes a.certification with
    | some c => simp [planFor,hc] at h
    | none => cases hs : pickStronger a.route a.strongerRoutes with
      | some c => simp [planFor,hc,hs] at h
      | none =>
        simp only [planFor,hc,hs,Except.error.injEq] at h
        subst h
        decide
  | modelCapabilityDeficit => cases hs : pickStronger a.route a.strongerRoutes with
    | some c => simp [planFor,hs] at h
    | none =>
      simp only [planFor,hs,Except.error.injEq] at h
      subst h
      decide
  | ambiguousOrUnknown =>
    cases h
    decide
  | _ => cases h

variable (lower digest) in
theorem refusesTokens_iff {c : Controller} {cash : Option ℚ} (h : ReachesQuota ctx c a cash) {short : Bool}
    (hshort : lacksTokens ctx a.ledger (tokensNeeded c.bounds a) = .ok short) :
    RefusesTokens lower digest ctx c a ↔ short = true := by
  have hgate : gate ctx c.bounds (a.attemptIndex.getD c.history.length) a cash =
      .ok (if short then some "insufficient token/quota budget for recovery action; bounded blocker" else none) := by
    simp only [gate,h.inTime,Bool.false_eq_true,if_false,ge_iff_le,not_le.mpr h.attempts,h.affordable,hshort]
    cases short <;> rfl
  simp only [RefusesTokens,Controller.decide,h.independent,h.left,Except.bind]
  cases short with
  | true =>
    refine iff_of_true ?_ rfl
    simp only [decision,h.running,Bool.false_eq_true,if_false,hgate,if_true]
    exact ⟨_,rfl,rfl,rfl⟩
  | false =>
    refine iff_of_false ?_ (by simp)
    simp only [decision,h.running,Bool.false_eq_true,if_false,hgate]
    rintro ⟨d,hd,houtcome,hreason⟩
    cases hplan : planFor a (classifyFailure lower a.evidence) with
    | error reason =>
      simp only [hplan] at hd
      cases hd
      exact planFor_reason hplan hreason
    | ok plan =>
      simp only [hplan] at hd
      cases hd
      cases houtcome

/-- In a run without partial bills of the tokens pool, `decide` refuses for lack of tokens exactly when the ledger does. -/
theorem quota_agreement (lower : Text → Text) (digest : FailureEvidence → String) (ctx : Context) (b : Budgets)
    (calls : List CostLedger.Call) (l : Ledger) (hfits : Run.AllSteps (next ctx) (TokensFit ctx) (fresh b) calls)
    (hrun : Run.exec (next ctx) (fresh b) calls = some l) (hexact : SumsExact ctx l) (c : Controller) (a : Call)
    (hledger : a.ledger = l) (cash : Option ℚ) (hreach : ReachesQuota ctx c a cash) (hneeded : 0 ≤ tokensNeeded c.bounds a) :
    RefusesTokens lower digest ctx c a ↔
      (l.reserve ctx (tokenReserve (tokensNeeded c.bounds a))).2 = .error (.insufficient .quota) := by
  subst hledger
  have hcounted : Counted a.ledger := Run.exec_invariant_of (I := Counted) (fun l c l' hl hc hn => by
    cases hn
    exact step_counted hl hc) hfits hrun ⟨by simp [fresh],by simp [fresh]⟩
  rw [reserve_insufficient_iff hexact hneeded]
  exact refusesTokens_iff lower digest hreach (lacksTokens_eq hcounted hexact _)

end

def hundredTokens : Budgets where
  quota := fun id => if id = "tokens" then some 100 else none
  cash_nonneg := Budgets.unset_nonneg
  subscription_nonneg := Budgets.unsets_nonneg
  quota_nonneg := by
    intro id b hb
    by_cases hid : id = "tokens"
    · simp only [hid,if_true,Option.mem_some_iff] at hb
      exact hb ▸ by norm_num
    · simp [hid] at hb
  floor_nonneg := Budgets.floor_zero
  floor_le := Budgets.floor_zero

def retryForFifty (l : Ledger) : Call where
  evidence := {signals := ["logic_bug".toList]}
  route := {modelId := "m", provider := "p"}
  ledger := l
  estimatedTokens := some 50
  now := 0

theorem retryForFifty_reaches {l : Ledger} (h : l.budgets.cash = none) :
    ReachesQuota some ⟨{},[]⟩ (retryForFifty l) none :=
  ⟨rfl,rfl,rfl,show (0 : ℤ) < 3 by decide,by simp [remainingCashUsd,retryForFifty,h],rfl⟩

theorem held_tokens_agree : let l := ((fresh hundredTokens).step some (.reserve (tokenReserve 60))).1
    RefusesTokens id (fun _ => "") some ⟨{},[]⟩ (retryForFifty l) ↔
      (l.reserve some (tokenReserve 50)).2 = .error (.insufficient .quota) := by
  intro l
  refine quota_agreement id (fun _ => "") some hundredTokens [.reserve (tokenReserve 60)] l ?_ rfl
    ⟨fun _ _ _ => rfl,fun _ _ => rfl⟩ _ _ rfl none (retryForFifty_reaches (by decide +kernel)) (by decide +kernel)
  exact ⟨fun _ => ⟨fun _ _ => rfl,trivial⟩,fun _ _ => trivial⟩

/-- After a bill of ten for a hold of sixty, `decide` still counts sixty of a hundred; the ledger would hold fifty more. -/
theorem partial_bill_disagrees : ¬ ∀ (lower : Text → Text) (digest : FailureEvidence → String) (ctx : Context) (b : Budgets)
    (calls : List CostLedger.Call) (l : Ledger), Run.exec (next ctx) (fresh b) calls = some l →
    ∀ (c : Controller) (a : Call), a.ledger = l → ∀ cash, ReachesQuota ctx c a cash → 0 ≤ tokensNeeded c.bounds a →
      (RefusesTokens lower digest ctx c a ↔
        (l.reserve ctx (tokenReserve (tokensNeeded c.bounds a))).2 = .error (.insufficient .quota)) := by
  intro h
  let l := (((fresh hundredTokens).step some (.reserve (tokenReserve 60))).1.step some
    (.reconcile 0 {actual := .finite 10, partially := true})).1
  have hreach : ReachesQuota some ⟨{},[]⟩ (retryForFifty l) none := retryForFifty_reaches (by decide +kernel)
  have hiff := h id (fun _ => "") some hundredTokens
    [.reserve (tokenReserve 60),.reconcile 0 {actual := .finite 10, partially := true}] l rfl ⟨{},[]⟩ (retryForFifty l) rfl none hreach (by decide +kernel)
  have hshort : lacksTokens some l (tokensNeeded {} (retryForFifty l)) = .ok true := by decide +kernel
  have hrefused := (refusesTokens_iff id (fun _ => "") hreach hshort).mpr rfl
  have hraised := hiff.mp hrefused
  have hheld : (l.reserve some (tokenReserve 50)).2.isOk = true := by decide +kernel
  rw [show tokensNeeded ({} : RecoveryBounds) (retryForFifty l) = 50 from rfl] at hraised
  rw [hraised] at hheld
  cases hheld

end Verdict.BoundedRecovery

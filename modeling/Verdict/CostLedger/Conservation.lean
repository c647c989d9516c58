import Mathlib.Algebra.Order.BigOperators.Group.List
import Mathlib.Tactic.Linarith
import Mathlib.Tactic.Ring
import Verdict.Basics.Raising
import Verdict.Basics.Run
import Verdict.CostLedger.Ledger

/-! # What the pools account for

In a run whose partial bills are never below their holds, and whose sums are exact, the
amount of a pool is that of its open holds and settled actuals.
-/
namespace Verdict.CostLedger

open Function (update update_self)
open List (forall_mem_cons map_cons mem_map mem_of_getElem? sum_cons take_succ_cons take_zero)

/-- What has a budget of its own. -/
inductive Account
  | cash | subscription (id : String) | quota (id : String) | cheaperInference
  deriving DecidableEq

def Reservation.account (r : Reservation) : Option Account := match r.pool with
  | .cash => some .cash
  | .subscription => some (.subscription (r.poolId.getD ""))
  | .quota => some (.quota (r.poolId.getD ""))
  | .cheaperInference => some .cheaperInference
  | .unknown _ => none

namespace Ledger

def accounted (l : Ledger) : Account → ℚ
  | .cash => l.cashReserved + l.cashSpent
  | .subscription id => l.subscriptionReserved id
  | .quota id => l.quotaReserved id
  | .cheaperInference => l.ciReserved + l.ciSpent

def budget (l : Ledger) : Account → Option ℚ
  | .cash => l.budgets.cash
  | .subscription id => l.budgets.subscription id
  | .quota id => l.budgets.quota id
  | .cheaperInference => some l.budgets.cheaperInference

def ofAccount (l : Ledger) (a : Account) : List Reservation :=
  l.reservations.filter fun r => decide (r.account = some a)

end Ledger

/-- What a reservation may contribute: its hold or its actual, not less than the hold while it is open. -/
def Contributes (r : Reservation) (q : ℚ) : Prop := match r.status with
  | .released => q = 0
  | .reconciled => r.actual = some q
  | .reserved | .partially => (q = r.amount ∨ r.actual = some q) ∧ r.amount ≤ q

def Conserved (l : Ledger) : Prop :=
  ∀ a, ∃ qs, List.Forall₂ Contributes (l.ofAccount a) qs ∧ l.accounted a = qs.sum

def NoOverrun (l : Ledger) : Prop := ∀ r ∈ l.reservations, ∀ q ∈ r.actual, q ≤ r.amount

def Within (l : Ledger) : Prop := ∀ a, ∀ b ∈ l.budget a, l.accounted a ≤ b

def Given.value : Given → ℚ
  | .finite q => q
  | _ => 0

def settleSums (l : Ledger) (r : Reservation) (actual : ℚ) : List ℚ := match r.account with
  | some .cash => [l.cashReserved - r.amount,l.cashSpent + actual]
  | some .cheaperInference => [l.ciReserved - r.amount,l.ciSpent + actual]
  | some a => [l.accounted a - r.amount,l.accounted a - r.amount + actual]
  | none => []

def sums (l : Ledger) : Call → List ℚ
  | .reserve args =>
    let q := args.amount.value
    match args.pool with
    | .cash => l.budgets.cash.toList.flatMap (fun b => [b - l.cashReserved,b - l.cashReserved - l.cashSpent])
        ++ [l.cashReserved + q]
    | .subscription => let id := args.poolId.getD ""
      (l.budgets.subscription id).toList.map (fun b => b - l.subscriptionReserved id) ++ [l.subscriptionReserved id + q]
    | .quota => let id := args.poolId.getD ""
      (l.budgets.quota id).toList.map (fun b => b - l.quotaReserved id) ++ [l.quotaReserved id + q]
    | .cheaperInference =>
      let usable := if args.allowProtected then l.budgets.cheaperInference
        else l.budgets.cheaperInference - l.budgets.protectedFloor
      [usable,usable - l.ciReserved,usable - l.ciReserved - l.ciSpent,l.ciReserved + q]
    | .unknown _ => []
  | .reconcile id args => (l.reservations[id]?).toList.flatMap fun r => settleSums l r args.actual.value
  | .release id => (l.reservations[id]?).toList.flatMap fun r => (settleSums l r 0).take 1

def notShort (l : Ledger) : Call → Prop
  | .reconcile id args => ∀ r ∈ l.reservations[id]?, args.partially = true → args.missing = false →
      (args.delayed = true → args.actual ≠ .absent) → r.amount ≤ args.actual.value
  | _ => True

def Fits (ctx : Context) (l : Ledger) (c : Call) : Prop := (∀ q ∈ sums l c, ctx q = some q) ∧ notShort l c

def fresh (b : Budgets) : Ledger := {budgets := b}

def next (ctx : Context) (l : Ledger) (c : Call) : Option Ledger := some (l.step ctx c).1

def Atomic (ctx : Context) (l : Ledger) (c : Call) : Prop := ∀ e, (l.step ctx c).2 = .error e → (l.step ctx c).1 = l

/-! ### Holds and actuals -/

def held (a : Account) (r : Reservation) : ℚ := if r.account = some a ∧ r.status = .reserved then r.amount else 0

def spent (a : Account) (r : Reservation) : ℚ := if r.account = some a ∧ r.status = .reconciled then r.actual.getD 0 else 0

def total (f : Account → Reservation → ℚ) (l : Ledger) (a : Account) : ℚ := (l.reservations.map (f a)).sum

structure Booked (l : Ledger) (holds actuals : Account → ℚ) : Prop where
  cashReserved : l.cashReserved = holds .cash
  cashSpent : l.cashSpent = actuals .cash
  ciReserved : l.ciReserved = holds .cheaperInference
  ciSpent : l.ciSpent = actuals .cheaperInference
  subscription : ∀ id, l.subscriptionReserved id = holds (.subscription id) + actuals (.subscription id)
  quota : ∀ id, l.quotaReserved id = holds (.quota id) + actuals (.quota id)

structure Reservation.Sound (r : Reservation) : Prop where
  account : r.account ≠ none
  nonneg : 0 ≤ r.amount
  whole : r.status ≠ .partially
  unbilled : r.status = .reserved → r.actual = none
  billed : r.status = .reconciled → ∃ q, r.actual = some q ∧ 0 ≤ q

structure Inv (l : Ledger) : Prop where
  booked : Booked l (total held l) (total spent l)
  sound : ∀ r ∈ l.reservations, r.Sound
  within : NoOverrun l → Within l

variable {ctx : Context} {l l' : Ledger} {r r' : Reservation} {a : Account} {holds actuals : Account → ℚ}
variable {i : ℕ}

theorem sum_set {f : Reservation → ℚ} {rs : List Reservation} (h : rs[i]? = some r) :
    ((rs.set i r').map f).sum = (rs.map f).sum - f r + f r' := by
  induction rs generalizing i with
  | nil => cases h
  | cons x rs ih =>
    cases i with
    | zero =>
      cases h
      simp only [List.set_cons_zero,map_cons,sum_cons]
      ring
    | succ i =>
      simp only [List.set_cons_succ,map_cons,sum_cons,ih h]
      ring

theorem held_nonneg (h : r.Sound) : 0 ≤ held a r := by
  rw [held]
  split
  · exact h.nonneg
  · exact le_refl 0

theorem held_le_total (hs : ∀ r ∈ l.reservations, r.Sound) (h : l.reservations[i]? = some r) :
    held a r ≤ total held l a := by
  refine List.single_le_sum (fun q hq => ?_) _ (List.mem_map_of_mem (mem_of_getElem? h))
  obtain ⟨x,hx,rfl⟩ := mem_map.mp hq
  exact held_nonneg (hs x hx)

theorem Booked.accounted (h : Booked l holds actuals) (a : Account) : l.accounted a = holds a + actuals a := by
  cases a with
  | cash => rw [Ledger.accounted,h.cashReserved,h.cashSpent]
  | subscription id => exact h.subscription id
  | quota id => exact h.quota id
  | cheaperInference => rw [Ledger.accounted,h.ciReserved,h.ciSpent]

theorem Inv.conserved (h : Inv l) : Conserved l := by
  intro a
  refine ⟨(l.ofAccount a).map fun r => held a r + spent a r,?_,?_⟩
  · rw [List.forall₂_map_right_iff,List.forall₂_same]
    intro r hr
    obtain ⟨hmem,hacc⟩ := List.mem_filter.mp hr
    have hsound := h.sound r hmem
    have hacc : r.account = some a := of_decide_eq_true hacc
    rw [Contributes]
    cases hst : r.status with
    | reserved => simp [held,spent,hacc,hst]
    | partially => exact absurd hst hsound.whole
    | reconciled =>
      obtain ⟨q,hq,-⟩ := hsound.billed hst
      simp [held,spent,hacc,hst,hq]
    | released => simp [held,spent,hst]
  · rw [h.booked.accounted a,total,total,← List.sum_map_add,Ledger.ofAccount]
    generalize l.reservations = rs
    induction rs with
    | nil => rfl
    | cons r rs ih =>
      rw [map_cons,sum_cons,ih,List.filter_cons]
      split
      · rw [map_cons,sum_cons]
      · rename_i hno
        have hno : r.account ≠ some a := by simpa using hno
        simp [held,spent,hno]

/-! ### One call -/

theorem total_put {f : Account → Reservation → ℚ} (h : l.reservations[i]? = some r) (a : Account) :
    total f (l.put i r') a = total f l a - f a r + f a r' := sum_set h

theorem mem_put (h : l.reservations[i]? = some r) {x : Reservation} (hx : x ∈ l.reservations) :
    x = r ∨ x ∈ (l.put i r').reservations := by
  obtain ⟨j,hj⟩ := List.mem_iff_getElem?.mp hx
  by_cases hij : i = j
  · rw [← hij,h] at hj
    exact .inl (Option.some.inj hj).symm
  · refine .inr (List.mem_iff_getElem?.mpr ⟨j,?_⟩)
    rw [Ledger.put,List.getElem?_set_ne hij,hj]

theorem share_le (hr : r.status = .reserved) (hr' : r'.Sound) (hacc : r'.account = r.account) (hamount : r'.amount = r.amount)
    (hno : ∀ q ∈ r'.actual, q ≤ r'.amount) (h : r.Sound) : held a r' + spent a r' ≤ held a r + spent a r := by
  by_cases ha : r.account = some a
  · have hnonneg := h.nonneg
    cases hst : r'.status with
    | reserved => simp [held,spent,hr,hst,hacc,ha,hamount]
    | partially => exact absurd hst hr'.whole
    | reconciled =>
      obtain ⟨q,hq,-⟩ := hr'.billed hst
      have hle := hno q hq
      rw [hamount] at hle
      simpa [held,spent,hr,hst,hacc,ha,hq] using hle
    | released => simpa [held,spent,hr,hst,hacc,ha] using hnonneg
  · simp [held,spent,hacc,ha]

theorem Inv.replaced (h : Inv l) (hr : l.reservations[i]? = some r) (hreserved : r.status = .reserved)
    (hr' : r'.Sound) (hacc : r'.account = r.account) (hamount : r'.amount = r.amount) (hbudgets : l'.budgets = l.budgets)
    (hres : l'.reservations = l.reservations)
    (hbooked : Booked l' (fun a => total held l a - held a r + held a r') fun a => total spent l a - spent a r + spent a r') :
    Inv (l'.put i r') := by
  have hr₂ : l'.reservations[i]? = some r := by rw [hres,hr]
  have htotal : ∀ f : Account → Reservation → ℚ, total f (l'.put i r') = fun a => total f l a - f a r + f a r' := by
    intro f
    funext a
    rw [total_put hr₂,total,hres]
    rfl
  have hrmem : r ∈ l.reservations := mem_of_getElem? hr
  have hr'mem : r' ∈ (l'.put i r').reservations := by
    refine List.mem_iff_getElem?.mpr ⟨i,?_⟩
    obtain ⟨hi,-⟩ := List.getElem?_eq_some_iff.mp hr₂
    rw [Ledger.put,List.getElem?_set_self hi]
  refine ⟨?_,?_,?_⟩
  · rw [htotal held,htotal spent]
    exact ⟨hbooked.cashReserved,hbooked.cashSpent,hbooked.ciReserved,hbooked.ciSpent,hbooked.subscription,hbooked.quota⟩
  · intro x hx
    rcases List.mem_or_eq_of_mem_set hx with hx | rfl
    · exact h.sound x (hres ▸ hx)
    · exact hr'
  · intro hno a b hb
    have hnoOld : NoOverrun l := by
      intro x hx q hq
      have hput : x = r ∨ x ∈ (l'.put i r').reservations := mem_put hr₂ (hres.symm ▸ hx)
      rcases hput with rfl | hx
      · rw [(h.sound x hrmem).unbilled hreserved] at hq
        cases hq
      · exact hno x hx q hq
    have hbudget : l.budget a = some b := by
      rw [← hb]
      cases a <;> simp [Ledger.budget,Ledger.put,hbudgets]
    have hold := h.within hnoOld a b hbudget
    have hshare := share_le (a := a) hreserved hr' hacc hamount (hno r' hr'mem) (h.sound r hrmem)
    have hnew : (l'.put i r').accounted a = l'.accounted a := by cases a <;> rfl
    rw [hnew,hbooked.accounted a]
    rw [h.booked.accounted a] at hold
    linarith

variable {q : ℚ}

/-- The hold of an account grows by `dh`, what is spent on it by `ds`. -/
def Ledger.adjust (l : Ledger) (dh ds : ℚ) : Account → Ledger
  | .cash => {l with cashReserved := l.cashReserved + dh, cashSpent := l.cashSpent + ds}
  | .subscription id =>
    {l with subscriptionReserved := update l.subscriptionReserved id (l.subscriptionReserved id + dh + ds)}
  | .quota id => {l with quotaReserved := update l.quotaReserved id (l.quotaReserved id + dh + ds)}
  | .cheaperInference => {l with ciReserved := l.ciReserved + dh, ciSpent := l.ciSpent + ds}

variable {dh ds : ℚ}

theorem adjust_rest : (l.adjust dh ds a).reservations = l.reservations ∧ (l.adjust dh ds a).budgets = l.budgets := by
  cases a <;> exact ⟨rfl,rfl⟩

theorem Booked.adjust (hb : Booked l holds actuals) :
    Booked (l.adjust dh ds a) (update holds a (holds a + dh)) (update actuals a (actuals a + ds)) := by
  obtain ⟨c1,c2,c3,c4,c5,c6⟩ := hb
  have shared : ∀ {f holds actuals : String → ℚ} (id id' : String), (∀ id, f id = holds id + actuals id) →
      update f id (f id + dh + ds) id' = update holds id (holds id + dh) id' + update actuals id (actuals id + ds) id' := by
    intro f holds actuals id id' hf
    by_cases hid : id' = id
    · subst hid
      simp only [update_self,hf]
      ring
    · simp [hid,hf]
  cases a with
  | cash | cheaperInference => constructor <;> simp [Ledger.adjust,c1,c2,c3,c4,c5,c6]
  | subscription id =>
    refine ⟨by simp [Ledger.adjust,c1],by simp [Ledger.adjust,c2],by simp [Ledger.adjust,c3],by simp [Ledger.adjust,c4],
      fun id' => ?_,by simp [Ledger.adjust,c6]⟩
    simpa [Ledger.adjust,Function.update_apply] using shared id id' c5
  | quota id =>
    refine ⟨by simp [Ledger.adjust,c1],by simp [Ledger.adjust,c2],by simp [Ledger.adjust,c3],by simp [Ledger.adjust,c4],
      by simp [Ledger.adjust,c5],fun id' => ?_⟩
    simpa [Ledger.adjust,Function.update_apply] using shared id id' c6

theorem applySettle_adjust (hb : Booked l holds actuals) (ha : r.account = some a)
    (hexact : ∀ s ∈ settleSums l r q, ctx s = some s) (hle : r.amount ≤ holds a) (hact : 0 ≤ actuals a) (hq : 0 ≤ q) :
    l.applySettle ctx r q = (l.adjust (-r.amount) q a,none) := by
  cases hpool : r.pool with
  | cash =>
    obtain rfl : a = .cash := by simpa [Reservation.account,hpool] using ha.symm
    simp only [settleSums,ha,forall_mem_cons] at hexact
    have hpos : ¬ l.cashReserved - r.amount < 0 := by rw [hb.cashReserved]; linarith
    simp only [Ledger.applySettle,hpool,hexact.1,hexact.2.1,hpos,if_false,Ledger.adjust,← sub_eq_add_neg]
  | subscription =>
    obtain rfl : a = .subscription (r.poolId.getD "") := by simpa [Reservation.account,hpool] using ha.symm
    simp only [settleSums,ha,forall_mem_cons,Ledger.accounted] at hexact
    have hpos : 0 ≤ l.subscriptionReserved (r.poolId.getD "") - r.amount + q := by rw [hb.subscription]; linarith
    simp only [Ledger.applySettle,Ledger.settled,hpool,hexact.1,hexact.2.1,Option.map_some,max_eq_right hpos,
      Ledger.adjust,← sub_eq_add_neg]
  | quota =>
    obtain rfl : a = .quota (r.poolId.getD "") := by simpa [Reservation.account,hpool] using ha.symm
    simp only [settleSums,ha,forall_mem_cons,Ledger.accounted] at hexact
    have hpos : 0 ≤ l.quotaReserved (r.poolId.getD "") - r.amount + q := by rw [hb.quota]; linarith
    simp only [Ledger.applySettle,Ledger.settled,hpool,hexact.1,hexact.2.1,Option.map_some,max_eq_right hpos,
      Ledger.adjust,← sub_eq_add_neg]
  | cheaperInference =>
    obtain rfl : a = .cheaperInference := by simpa [Reservation.account,hpool] using ha.symm
    simp only [settleSums,ha,forall_mem_cons] at hexact
    have hpos : ¬ l.ciReserved - r.amount < 0 := by rw [hb.ciReserved]; linarith
    simp only [Ledger.applySettle,hpool,hexact.1,hexact.2.1,hpos,if_false,Ledger.adjust,← sub_eq_add_neg]
  | unknown name =>
    rw [Reservation.account,hpool] at ha
    cases ha

theorem releaseReserved_adjust (hb : Booked l holds actuals) (ha : r.account = some a) (hle : r.amount ≤ holds a)
    (hact : 0 ≤ actuals a) (hexact : ∀ s ∈ (settleSums l r 0).take 1, ctx s = some s) :
    l.releaseReserved ctx r r.amount = (l.adjust (-r.amount) 0 a,none) := by
  have hpos : 0 ≤ holds a - r.amount ∧ 0 ≤ holds a + actuals a - r.amount := by constructor <;> linarith
  cases hpool : r.pool with
  | cash =>
    obtain rfl : a = .cash := by simpa [Reservation.account,hpool] using ha.symm
    simp only [settleSums,ha,take_succ_cons,take_zero,List.forall_mem_singleton] at hexact
    rw [← hb.cashReserved] at hpos
    simp only [Ledger.releaseReserved,hpool,hexact,max_eq_right hpos.1,Ledger.adjust,← sub_eq_add_neg,add_zero]
  | subscription =>
    obtain rfl : a = .subscription (r.poolId.getD "") := by simpa [Reservation.account,hpool] using ha.symm
    simp only [settleSums,ha,take_succ_cons,take_zero,List.forall_mem_singleton,Ledger.accounted] at hexact
    rw [← hb.subscription] at hpos
    simp only [Ledger.releaseReserved,hpool,hexact,max_eq_right hpos.2,Ledger.adjust,← sub_eq_add_neg,add_zero]
  | quota =>
    obtain rfl : a = .quota (r.poolId.getD "") := by simpa [Reservation.account,hpool] using ha.symm
    simp only [settleSums,ha,take_succ_cons,take_zero,List.forall_mem_singleton,Ledger.accounted] at hexact
    rw [← hb.quota] at hpos
    simp only [Ledger.releaseReserved,hpool,hexact,max_eq_right hpos.2,Ledger.adjust,← sub_eq_add_neg,add_zero]
  | cheaperInference =>
    obtain rfl : a = .cheaperInference := by simpa [Reservation.account,hpool] using ha.symm
    simp only [settleSums,ha,take_succ_cons,take_zero,List.forall_mem_singleton] at hexact
    rw [← hb.ciReserved] at hpos
    simp only [Ledger.releaseReserved,hpool,hexact,max_eq_right hpos.1,Ledger.adjust,← sub_eq_add_neg,add_zero]
  | unknown name =>
    rw [Reservation.account,hpool] at ha
    cases ha

theorem held_update (hr : r.account = some a) (hst : r.status = .reserved) (hr' : r'.status ≠ .reserved) :
    update (total held l) a (total held l a + -r.amount) = fun a' => total held l a' - held a' r + held a' r' := by
  funext a'
  by_cases h : a' = a
  · subst h
    simp [held,hr,hst,hr',← sub_eq_add_neg]
  · have hne : r.account ≠ some a' := fun he => h (Option.some.inj (he.symm.trans hr))
    simp [held,h,hne,hr']

theorem spent_update (hr : r.account = some a) (hst : r.status = .reserved) (hacc : r'.account = r.account)
    (hr' : r'.status = .reconciled) (hq : r'.actual = some q) :
    update (total spent l) a (total spent l a + q) = fun a' => total spent l a' - spent a' r + spent a' r' := by
  funext a'
  by_cases h : a' = a
  · subst h
    simp [spent,hr,hst,hacc,hr',hq]
  · have hne : r.account ≠ some a' := fun he => h (Option.some.inj (he.symm.trans hr))
    simp [spent,h,hne,hacc]

theorem Booked.congr (h : Booked l holds actuals) {holds' actuals' : Account → ℚ} (hh : holds = holds') (ha : actuals = actuals') :
    Booked l holds' actuals' := hh ▸ ha ▸ h

theorem spent_nonneg (hs : ∀ r ∈ l.reservations, r.Sound) (a : Account) : 0 ≤ total spent l a := by
  refine List.sum_nonneg fun q hq => ?_
  obtain ⟨x,hx,rfl⟩ := mem_map.mp hq
  rw [spent]
  split
  · rename_i hx'
    obtain ⟨q,hq,hpos⟩ := (hs x hx).billed hx'.2
    rw [hq]
    exact hpos
  · exact le_refl 0

theorem Inv.reserved (h : Inv l) {i : ℕ} (hr : l.reservations[i]? = some r)
    (hopen : ¬ (r.status = .reconciled ∨ r.status = .released)) : r.status = .reserved := by
  have hwhole := (h.sound r (mem_of_getElem? hr)).whole
  cases hst : r.status with
  | reserved => rfl
  | partially => exact absurd hst hwhole
  | reconciled => exact absurd (.inl hst) hopen
  | released => exact absurd (.inr hst) hopen

theorem Inv.own (h : Inv l) (hr : l.reservations[i]? = some r) (hst : r.status = .reserved) :
    ∃ a, r.account = some a ∧ r.amount ≤ total held l a := by
  obtain ⟨a,ha⟩ := Option.ne_none_iff_exists'.mp (h.sound r (mem_of_getElem? hr)).account
  refine ⟨a,ha,?_⟩
  have hle := held_le_total (a := a) h.sound hr
  rwa [held,if_pos ⟨ha,hst⟩] at hle

variable {id : ℕ}

theorem release_inv (h : Inv l) (hfits : Fits ctx l (.release id)) :
    Inv (l.release ctx id).1 ∧ Atomic ctx l (.release id) := by
  simp only [Atomic,Ledger.step,Ledger.release]
  cases hr : l.reservations[id]? with
  | none => exact ⟨h,fun _ _ => rfl⟩
  | some r =>
    dsimp only
    split
    · exact ⟨h,fun _ _ => rfl⟩
    · rename_i hst
      have hst : r.status = .reserved := not_not.mp hst
      have hsound := h.sound r (mem_of_getElem? hr)
      obtain ⟨a,ha,hle⟩ := h.own hr hst
      have hexact : ∀ s ∈ (settleSums l r 0).take 1, ctx s = some s := fun s hs => hfits.1 s (by
        rw [sums,hr]
        simpa using hs)
      rw [releaseReserved_adjust h.booked ha hle (spent_nonneg h.sound a) hexact]
      refine ⟨?_,fun e he => by cases he⟩
      refine h.replaced hr hst ⟨hsound.account,hsound.nonneg,by simp,by simp,by simp⟩ rfl rfl adjust_rest.2 adjust_rest.1 ?_
      refine h.booked.adjust.congr (held_update ha hst (by simp)) ?_
      funext a'
      simp [spent,hst]

theorem amount_ok {g : Given} {field : String} (h : g.amount field = .ok q) : q = g.value ∧ 0 ≤ q := by
  cases g with
  | absent => cases h; exact ⟨rfl,le_refl 0⟩
  | invalid => cases h
  | finite x =>
    simp only [Given.amount] at h
    split at h
    · cases h
    · rename_i hx
      cases h
      exact ⟨rfl,not_lt.mp hx⟩

theorem Inv.noted (h : Inv l) (hr : l.reservations[i]? = some r) (hst : r.status = .reserved) (notes : Option String) :
    Inv (l.put i {r with status := .reserved, notes}) := by
  have hsound := h.sound r (mem_of_getElem? hr)
  refine h.replaced hr hst ⟨hsound.account,hsound.nonneg,by simp,fun _ => hsound.unbilled hst,by simp⟩ rfl rfl rfl rfl ?_
  refine h.booked.congr ?_ ?_
  · funext a
    simp [held,hst,Reservation.account]
  · funext a
    simp [spent,hst,Reservation.account]

theorem reconcile_inv (h : Inv l) {args : ReconcileArgs} (hfits : Fits ctx l (.reconcile id args)) :
    Inv (l.reconcile ctx id args).1 ∧ Atomic ctx l (.reconcile id args) := by
  simp only [Atomic,Ledger.step,Ledger.reconcile]
  cases hr : l.reservations[id]? with
  | none => exact ⟨h,fun _ _ => rfl⟩
  | some r =>
    dsimp only
    split
    · exact ⟨h,fun _ _ => rfl⟩
    · rename_i hopen
      have hst := h.reserved hr hopen
      split
      · exact ⟨h.noted hr hst _,fun e he => by cases he⟩
      · rename_i hmissing
        split
        · exact ⟨h.noted hr hst _,fun e he => by cases he⟩
        · rename_i hdelayed
          split
          · exact ⟨h,fun _ _ => rfl⟩
          · cases hq : args.actual.amount "actual_amount" with
            | error e => exact ⟨h,fun _ _ => rfl⟩
            | ok q =>
              cases hterms : addedTerms args with
              | error e => exact ⟨h,fun _ _ => rfl⟩
              | ok terms =>
                obtain ⟨rfl,hnonneg⟩ := amount_ok hq
                have hsound := h.sound r (mem_of_getElem? hr)
                obtain ⟨a,ha,hle⟩ := h.own hr hst
                have hexact : ∀ s ∈ settleSums l r args.actual.value, ctx s = some s := fun s hs => hfits.1 s (by
                  rw [sums,hr]
                  simpa using hs)
                have heq := applySettle_adjust h.booked ha hexact hle (spent_nonneg h.sound a) hnonneg
                -- a partial bill is not below the hold, so the reservation is closed
                have hclosed : ¬ (args.partially = true ∧ args.actual.value < r.amount) := by
                  rintro ⟨hpart,hshort⟩
                  exact absurd (hfits.2 r hr hpart (by simpa using hmissing) fun hd ha => hdelayed ⟨hd,ha⟩) (not_le.mpr hshort)
                dsimp only
                rw [if_neg hclosed,heq]
                refine ⟨?_,fun e he => by cases he⟩
                refine h.replaced hr hst ⟨hsound.account,hsound.nonneg,by simp,by simp,fun _ => ⟨_,rfl,hnonneg⟩⟩ rfl rfl
                  adjust_rest.2 adjust_rest.1 ?_
                exact h.booked.adjust.congr (held_update ha hst (by simp)) (spent_update ha hst rfl rfl rfl)

variable {pool : Pool} {reserved amount sum : ℚ}

theorem holdMore_ok {budget : Option ℚ} {id : String}
    (hexact : ∀ s ∈ budget.toList.map (fun b => b - reserved) ++ [reserved + amount], ctx s = some s)
    (h : Ledger.holdMore ctx pool budget reserved amount id = .ok sum) :
    sum = reserved + amount ∧ ∀ b ∈ budget, reserved + amount ≤ b := by
  cases budget with
  | none => cases h
  | some b =>
    have hsub : ctx (b - reserved) = some (b - reserved) := hexact _ (by simp)
    have hadd : ctx (reserved + amount) = some (reserved + amount) := hexact _ (by simp)
    simp only [Ledger.holdMore,hsub,hadd] at h
    split at h
    · cases h
    · rename_i hle
      cases h
      refine ⟨rfl,fun b' hb' => ?_⟩
      cases hb'
      linarith

theorem holdApart_ok {usable : Option ℚ} {spent : ℚ}
    (hexact : ∀ s ∈ usable.toList.flatMap (fun b => [b - reserved,b - reserved - spent]) ++ [reserved + amount], ctx s = some s)
    (h : Ledger.holdApart ctx pool usable reserved spent amount = .ok sum) :
    sum = reserved + amount ∧ ∀ b ∈ usable, reserved + spent + amount ≤ b := by
  have hadd : ctx (reserved + amount) = some (reserved + amount) := hexact _ (by simp)
  cases usable with
  | none =>
    simp only [Ledger.holdApart,hadd] at h
    cases h
    exact ⟨rfl,fun b hb => by cases hb⟩
  | some b =>
    have hsub : ctx (b - reserved) = some (b - reserved) := hexact _ (by simp)
    have hsub₂ : ctx (b - reserved - spent) = some (b - reserved - spent) := hexact _ (by simp)
    simp only [Ledger.holdApart,minusTwice,hsub,hsub₂,hadd] at h
    split at h
    · cases h
    · rename_i hchecked
      split at hchecked
      · cases hchecked
      · rename_i hle
        cases h
        refine ⟨rfl,fun b' hb' => ?_⟩
        cases hb'
        linarith

variable {args : ReserveArgs}

theorem hold_adjust (hq : q = args.amount.value) (hexact : ∀ s ∈ sums l (.reserve args), ctx s = some s)
    (h : l.hold ctx args q = .ok l') (hr : r.pool = args.pool) (hid : r.poolId = args.poolId) :
    ∃ a, r.account = some a ∧ l' = l.adjust q 0 a ∧ ∀ b ∈ l.budget a, l.accounted a + q ≤ b := by
  subst hq
  simp only [Ledger.hold] at h
  cases hpool : args.pool with
  | cash =>
    rw [hpool] at h
    simp only [sums,hpool] at hexact
    dsimp only at h
    split at h
    · cases h
    · obtain ⟨sum,hsum,rfl⟩ := Raising.map_ok.mp h
      obtain ⟨rfl,hle⟩ := holdApart_ok hexact hsum
      exact ⟨.cash,by rw [Reservation.account,hr,hpool],by simp only [Ledger.adjust,add_zero],hle⟩
  | subscription =>
    rw [hpool] at h
    simp only [sums,hpool] at hexact
    dsimp only at h
    split at h
    · cases h
    · cases h
    · rename_i id _ hargs
      rw [hargs,Option.getD_some] at hexact
      obtain ⟨sum,hsum,rfl⟩ := Raising.map_ok.mp h
      obtain ⟨rfl,hle⟩ := holdMore_ok hexact hsum
      exact ⟨.subscription id,by rw [Reservation.account,hr,hpool,hid,hargs]; rfl,by simp only [Ledger.adjust,add_zero],hle⟩
  | quota =>
    rw [hpool] at h
    simp only [sums,hpool] at hexact
    dsimp only at h
    split at h
    · cases h
    · cases h
    · rename_i id _ hargs
      rw [hargs,Option.getD_some] at hexact
      obtain ⟨sum,hsum,rfl⟩ := Raising.map_ok.mp h
      obtain ⟨rfl,hle⟩ := holdMore_ok hexact hsum
      exact ⟨.quota id,by rw [Reservation.account,hr,hpool,hid,hargs]; rfl,by simp only [Ledger.adjust,add_zero],hle⟩
  | cheaperInference =>
    rw [hpool] at h
    simp only [sums,hpool] at hexact
    dsimp only at h
    split at h
    · cases h
    · split at h
      · cases h
      · rename_i usable husable
        have hvalue : usable = if args.allowProtected = true then l.budgets.cheaperInference
            else l.budgets.cheaperInference - l.budgets.protectedFloor := by
          have hctx := hexact _ List.mem_cons_self
          split at husable
          · rw [if_pos (by assumption)]
            exact (Option.some.inj husable).symm
          · rename_i hno
            rw [if_neg hno] at hctx ⊢
            exact (Option.some.inj (husable.symm.trans hctx))
        rw [← hvalue] at hexact
        obtain ⟨sum,hsum,rfl⟩ := Raising.map_ok.mp h
        obtain ⟨rfl,hle⟩ := holdApart_ok (fun s hs => hexact s (by
          simp only [Option.toList_some,List.flatMap_cons,List.flatMap_nil,List.append_nil] at hs
          exact List.mem_cons_of_mem _ hs)) hsum
        refine ⟨.cheaperInference,by rw [Reservation.account,hr,hpool],by simp only [Ledger.adjust,add_zero],fun b hb => ?_⟩
        cases hb
        have hfloor := l.budgets.floor_nonneg
        have hmax : usable ≤ l.budgets.cheaperInference := by
          rw [hvalue]
          split <;> linarith
        exact (hle usable rfl).trans hmax
  | unknown name =>
    rw [hpool] at h
    cases h

theorem Inv.appended (h : Inv l) (hsome : r.account ≠ none) (ha : r.account = some a) (hst : r.status = .reserved)
    (hnonneg : 0 ≤ r.amount) (hactual : r.actual = none) (hres : l'.reservations = l.reservations)
    (hbud : l'.budgets = l.budgets)
    (hbook : Booked l' (update (total held l) a (total held l a + r.amount)) (total spent l))
    (hle : ∀ b ∈ l.budget a, l.accounted a + r.amount ≤ b) : Inv {l' with reservations := l'.reservations ++ [r]} := by
  have htotal : ∀ f : Account → Reservation → ℚ,
      total f {l' with reservations := l'.reservations ++ [r]} = fun a' => total f l a' + f a' r := by
    intro f
    funext a'
    simp only [total,hres,List.map_append,List.sum_append,List.map_singleton,List.sum_singleton]
  have hheld : update (total held l) a (total held l a + r.amount) = fun a' => total held l a' + held a' r := by
    funext a'
    by_cases haa : a' = a
    · subst haa
      simp [held,ha,hst]
    · have hne : a ≠ a' := fun he => haa he.symm
      simp [held,ha,haa,hne]
  have hspent : total spent l = fun a' => total spent l a' + spent a' r := by
    funext a'
    simp [spent,hst]
  have hbook' := hbook.congr hheld hspent
  refine ⟨?_,?_,?_⟩
  · rw [htotal held,htotal spent]
    exact ⟨hbook'.cashReserved,hbook'.cashSpent,hbook'.ciReserved,hbook'.ciSpent,hbook'.subscription,hbook'.quota⟩
  · intro x hx
    rcases List.mem_append.mp hx with hx | hx
    · exact h.sound x (hres ▸ hx)
    · rw [List.mem_singleton.mp hx]
      exact ⟨hsome,hnonneg,by simp [hst],fun _ => hactual,by simp [hst]⟩
  · intro hno a' b hb
    have hnoOld : NoOverrun l := fun x hx => hno x (List.mem_append_left _ (hres.symm ▸ hx))
    have hbudget : l.budget a' = some b := by
      rw [← hb]
      cases a' <;> simp [Ledger.budget,hbud]
    have hold := h.within hnoOld a' b hbudget
    have hnew : Ledger.accounted {l' with reservations := l'.reservations ++ [r]} a' = l'.accounted a' := by cases a' <;> rfl
    rw [hnew,hbook.accounted a']
    rw [h.booked.accounted a'] at hold
    by_cases haa : a' = a
    · subst haa
      have hbound := hle b hbudget
      rw [h.booked.accounted a'] at hbound
      rw [update_self]
      linarith
    · rw [Function.update_of_ne haa]
      exact hold

theorem reserve_inv (h : Inv l) (hfits : Fits ctx l (.reserve args)) :
    Inv (l.reserve ctx args).1 ∧ Atomic ctx l (.reserve args) := by
  simp only [Atomic,Ledger.step,Ledger.reserve]
  cases hq : args.amount.amount "amount" with
  | error e => exact ⟨h,fun _ _ => rfl⟩
  | ok q =>
    dsimp only
    split
    · exact ⟨h,fun _ _ => rfl⟩
    · cases hhold : l.hold ctx args q with
      | error e => exact ⟨h,fun _ _ => rfl⟩
      | ok l' =>
        refine ⟨?_,fun e he => by cases he⟩
        obtain ⟨hvalue,hnonneg⟩ := amount_ok hq
        obtain ⟨a,ha,rfl,hle⟩ := hold_adjust hvalue hfits.1 hhold rfl rfl
          (r := ⟨q,args.unit,args.pool,args.poolId,.reserved,args.terms,none,none⟩)
        refine h.appended (by rw [ha]; exact Option.some_ne_none a) ha rfl hnonneg rfl adjust_rest.1 adjust_rest.2 ?_ hle
        exact h.booked.adjust.congr rfl (by rw [add_zero,Function.update_eq_self])

theorem step_inv (h : Inv l) {c : Call} (hfits : Fits ctx l c) : Inv (l.step ctx c).1 ∧ Atomic ctx l c := by
  cases c with
  | reserve args => exact reserve_inv h hfits
  | reconcile id args => exact reconcile_inv h hfits
  | release id => exact release_inv h hfits

theorem fresh_inv (b : Budgets) : Inv (fresh b) := by
  refine ⟨⟨rfl,rfl,rfl,rfl,fun _ => (add_zero 0).symm,fun _ => (add_zero 0).symm⟩,fun r hr => absurd hr List.not_mem_nil,fun _ a q hq => ?_⟩
  have hzero : (fresh b).accounted a = 0 := by
    cases a with
    | cash | cheaperInference => exact add_zero 0
    | subscription | quota => rfl
  rw [hzero]
  cases a with
  | cash => exact b.cash_nonneg q hq
  | subscription id => exact b.subscription_nonneg id q hq
  | quota id => exact b.quota_nonneg id q hq
  | cheaperInference =>
    cases hq
    exact b.floor_nonneg.trans b.floor_le

/-- A run whose calls fit accounts for what is held and spent, and a call that raises in it changes
nothing. -/
theorem run_conserves (ctx : Context) (b : Budgets) (calls : List Call) (l : Ledger)
    (hfits : Run.AllSteps (next ctx) (Fits ctx) (fresh b) calls) (h : Run.exec (next ctx) (fresh b) calls = some l) :
    Conserved l ∧ (NoOverrun l → Within l) ∧ ∀ c, Fits ctx l c → Atomic ctx l c := by
  have hinv : Inv l := Run.exec_invariant_of (I := Inv) (fun l c l' hi hc hn => by
    cases hn
    exact (step_inv hi hc).1) hfits h (fresh_inv b)
  exact ⟨hinv.conserved,hinv.within,fun c hc => (step_inv hinv hc).2⟩

def tenCash : Budgets :=
  {cash := some 10, cash_nonneg := by simp, subscription_nonneg := Budgets.unsets_nonneg, quota_nonneg := Budgets.unsets_nonneg,
    floor_nonneg := Budgets.floor_zero, floor_le := Budgets.floor_zero}

theorem run_conserves_final :
    let calls : List Call := [.reserve {amount := .finite 10},.reconcile 0 {actual := .finite 4, partially := false},
      .reserve {amount := .finite 6}]
    ∃ l, Run.exec (next some) (fresh tenCash) calls = some l ∧ l.accounted .cash = 10 ∧ Conserved l := by
  intro calls
  refine ⟨_,rfl,by decide +kernel,(run_conserves some tenCash calls _ ?_ rfl).1⟩
  refine ⟨⟨fun _ _ => rfl,trivial⟩,fun _ _ => ⟨⟨fun _ _ => rfl,?_⟩,fun _ _ => ⟨⟨fun _ _ => rfl,trivial⟩,fun _ _ => trivial⟩⟩⟩
  exact fun r _ hpart => absurd hpart (by decide)

/-- A partial bill of four takes a hold of ten out of the books, though the rest may still be billed. -/
theorem partial_bill_drops_hold : ¬ ∀ (ctx : Context) (b : Budgets) (calls : List Call) (l : Ledger),
    Run.exec (next ctx) (fresh b) calls = some l → Conserved l := by
  intro h
  obtain ⟨qs,hqs,hsum⟩ := h some tenCash
    [.reserve {amount := .finite 10},.reconcile 0 {actual := .finite 4, partially := true}] _ rfl .cash
  have hlist : Ledger.ofAccount ((((fresh tenCash).step some (.reserve {amount := .finite 10})).1.step some
      (.reconcile 0 {actual := .finite 4, partially := true})).1) .cash =
      [⟨10,.usd,.cash,none,.partially,[],some 4,some "partial_billing"⟩] := by decide +kernel
  have hfour : Ledger.accounted ((((fresh tenCash).step some (.reserve {amount := .finite 10})).1.step some
      (.reconcile 0 {actual := .finite 4, partially := true})).1) .cash = 4 := by decide +kernel
  rw [hlist] at hqs
  obtain ⟨q,rest,hq,hrest,rfl⟩ := List.forall₂_cons_left_iff.mp hqs
  cases hrest
  have hge : (10 : ℚ) ≤ q := hq.2
  have heq : (4 : ℚ) = q := by rw [← hfour,hsum,sum_cons,List.sum_nil,add_zero]
  rw [← heq] at hge
  exact absurd hge (by decide +kernel)

end Verdict.CostLedger

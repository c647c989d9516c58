import Mathlib.Algebra.Order.Ring.Rat

/-! # The cost ledger

Reservations of spend against the four pools of a trajectory, how they are reconciled with
actual amounts and released. Amounts are exact, and every sum goes through the context of the
decimals, which may round it or trap. A reservation's id is its place in the order of them.
-/
namespace Verdict.CostLedger

open Function (update)

abbrev Context := ℚ → Option ℚ

inductive Pool
  | cash | subscription | quota | cheaperInference | unknown (name : String)
  deriving DecidableEq

inductive CostUnit
  | usd | tokens | quotaUnits | subscriptionUnits | dimensionless
  deriving DecidableEq

inductive ReservationStatus
  | reserved | reconciled | released | partially
  deriving DecidableEq

inductive TermStatus
  | observed | estimated | unknown | assumed
  deriving DecidableEq

inductive LedgerError
  | negative (field : String)
  | notFinite (field : String)
  | naive
  | poolUnit (pool : Pool)
  | insufficient (pool : Pool)
  | needsPoolId (pool : Pool)
  | unknownPoolId (pool : Pool) (id : String)
  | unknownPool (name : String)
  | unknownReservation (id : ℕ)
  | already (status : ReservationStatus)
  | actualRequired
  | cannotRelease (status : ReservationStatus)
  | savingsType
  | trap

structure CostTerm where
  kind : String
  amount : Option ℚ
  unit : CostUnit
  status : TermStatus
  evidenceId : Option String := none
  notes : Option String := none
  deriving DecidableEq

/-- An amount as a caller gives it. -/
inductive Given
  | absent
  | invalid
  | finite (q : ℚ)
  deriving DecidableEq

/-- `_require_non_negative(_as_decimal(value) or 0)`. -/
def Given.amount (field : String) : Given → Except LedgerError ℚ
  | .absent => .ok 0
  | .invalid => .error (.notFinite field)
  | .finite q => if q < 0 then .error (.negative field) else .ok q

structure Reservation where
  amount : ℚ
  unit : CostUnit
  pool : Pool
  poolId : Option String
  status : ReservationStatus := .reserved
  terms : List CostTerm := []
  actual : Option ℚ := none
  notes : Option String := none
  deriving DecidableEq

/-- The budgets of a ledger as `__post_init__` leaves them. -/
structure Budgets where
  cash : Option ℚ := none
  subscription : String → Option ℚ := fun _ => none
  quota : String → Option ℚ := fun _ => none
  cheaperInference : ℚ := 0
  protectedFloor : ℚ := 0
  cash_nonneg : ∀ b ∈ cash, 0 ≤ b
  subscription_nonneg : ∀ id, ∀ b ∈ subscription id, 0 ≤ b
  quota_nonneg : ∀ id, ∀ b ∈ quota id, 0 ≤ b
  floor_nonneg : 0 ≤ protectedFloor
  floor_le : protectedFloor ≤ cheaperInference

namespace Budgets

theorem unset_nonneg : ∀ b ∈ (none : Option ℚ), 0 ≤ b := by simp

theorem unsets_nonneg : ∀ _ : String, ∀ b ∈ (none : Option ℚ), 0 ≤ b := by simp

theorem floor_zero : (0 : ℚ) ≤ 0 := le_refl 0

end Budgets

structure Ledger where
  budgets : Budgets
  reservations : List Reservation := []
  cashReserved : ℚ := 0
  cashSpent : ℚ := 0
  subscriptionReserved : String → ℚ := fun _ => 0
  quotaReserved : String → ℚ := fun _ => 0
  ciReserved : ℚ := 0
  ciSpent : ℚ := 0

abbrev Result := Except LedgerError Reservation

structure ReserveArgs where
  amount : Given
  pool : Pool := .cash
  unit : CostUnit := .usd
  poolId : Option String := none
  terms : List CostTerm := []
  allowProtected : Bool := false
  naiveNow : Bool := false

structure CacheEvidence where
  cachedInputTokens : Option ℤ := none
  cacheHit : Bool := false
  savings : Option Given := none
  evidenceId : Option String := none

structure ReconcileArgs where
  actual : Given := .absent
  missing : Bool := false
  delayed : Bool := false
  partially : Bool := false
  cachedTokens : Option ℤ := none
  cacheEvidence : Option CacheEvidence := none
  notes : Option String := none

inductive Call
  | reserve (args : ReserveArgs)
  | reconcile (id : ℕ) (args : ReconcileArgs)
  | release (id : ℕ)

variable (ctx : Context)

/-- `a - b - c`, rounded twice. -/
def minusTwice (a b c : ℚ) : Except LedgerError ℚ := match ctx (a - b) with
  | none => .error .trap
  | some q => match ctx (q - c) with
    | none => .error .trap
    | some q => .ok q

namespace Ledger

def holdMore (pool : Pool) (budget : Option ℚ) (reserved amount : ℚ) (id : String) : Except LedgerError ℚ :=
  match budget with
  | none => .error (.unknownPoolId pool id)
  | some budget => match ctx (budget - reserved) with
    | none => .error .trap
    | some remaining =>
      if remaining < amount then .error (.insufficient pool)
      else match ctx (reserved + amount) with
        | none => .error .trap
        | some sum => .ok sum

def holdApart (pool : Pool) (usable : Option ℚ) (reserved spent amount : ℚ) : Except LedgerError ℚ :=
  let checked : Except LedgerError Unit := match usable with
    | none => .ok ()
    | some usable => match minusTwice ctx usable reserved spent with
      | .error e => .error e
      | .ok remaining => if remaining < amount then .error (.insufficient pool) else .ok ()
  match checked with
  | .error e => .error e
  | .ok () => match ctx (reserved + amount) with
    | none => .error .trap
    | some sum => .ok sum

variable (l : Ledger)

/-- What `reserve` does to the pools. -/
def hold (args : ReserveArgs) (amount : ℚ) : Except LedgerError Ledger := match args.pool with
  | .cash =>
    if args.unit ≠ .usd then .error (.poolUnit .cash)
    else (holdApart ctx .cash l.budgets.cash l.cashReserved l.cashSpent amount).map fun sum => {l with cashReserved := sum}
  | .subscription => match args.poolId with
    | none | some "" => .error (.needsPoolId .subscription)
    | some id => (holdMore ctx .subscription (l.budgets.subscription id) (l.subscriptionReserved id) amount id).map
        (fun sum => {l with subscriptionReserved := update l.subscriptionReserved id sum})
  | .quota => match args.poolId with
    | none | some "" => .error (.needsPoolId .quota)
    | some id => (holdMore ctx .quota (l.budgets.quota id) (l.quotaReserved id) amount id).map
        (fun sum => {l with quotaReserved := update l.quotaReserved id sum})
  | .cheaperInference =>
    if args.unit ≠ .usd then .error (.poolUnit .cheaperInference)
    else match (if args.allowProtected then some l.budgets.cheaperInference
        else ctx (l.budgets.cheaperInference - l.budgets.protectedFloor)) with
      | none => .error .trap
      | some usable => (holdApart ctx .cheaperInference (some usable) l.ciReserved l.ciSpent amount).map
          (fun sum => {l with ciReserved := sum})
  | .unknown name => .error (.unknownPool name)

def reserve (args : ReserveArgs) : Ledger × Result := match args.amount.amount "amount" with
  | .error e => (l,.error e)
  | .ok amount =>
    if args.naiveNow then (l,.error .naive)
    else match l.hold ctx args amount with
      | .error e => (l,.error e)
      | .ok l' =>
        let reservation : Reservation := ⟨amount,args.unit,args.pool,args.poolId,.reserved,args.terms,none,none⟩
        ({l' with reservations := l'.reservations ++ [reservation]},.ok reservation)

/-- `max(0, current - reserved + actual)`. -/
def settled (current reserved actual : ℚ) : Option ℚ := match ctx (current - reserved) with
  | none => none
  | some q => (ctx (q + actual)).map (max 0)

/-- A trap leaves what was written before it. -/
def applySettle (r : Reservation) (actual : ℚ) : Ledger × Option LedgerError := match r.pool with
  | .cash => match ctx (l.cashReserved - r.amount) with
    | none => (l,some .trap)
    | some reserved => match ctx (l.cashSpent + actual) with
      | none => ({l with cashReserved := reserved},some .trap)
      | some spent => ({l with cashReserved := if reserved < 0 then 0 else reserved, cashSpent := spent},none)
  | .subscription => match settled ctx (l.subscriptionReserved (r.poolId.getD "")) r.amount actual with
    | none => (l,some .trap)
    | some sum => ({l with subscriptionReserved := update l.subscriptionReserved (r.poolId.getD "") sum},none)
  | .quota => match settled ctx (l.quotaReserved (r.poolId.getD "")) r.amount actual with
    | none => (l,some .trap)
    | some sum => ({l with quotaReserved := update l.quotaReserved (r.poolId.getD "") sum},none)
  | .cheaperInference => match ctx (l.ciReserved - r.amount) with
    | none => (l,some .trap)
    | some reserved => match ctx (l.ciSpent + actual) with
      | none => ({l with ciReserved := reserved},some .trap)
      | some spent => ({l with ciReserved := if reserved < 0 then 0 else reserved, ciSpent := spent},none)
  | .unknown _ => (l,none)

def releaseReserved (r : Reservation) (amount : ℚ) : Ledger × Option LedgerError := match r.pool with
  | .cash => match ctx (l.cashReserved - amount) with
    | none => (l,some .trap)
    | some q => ({l with cashReserved := max 0 q},none)
  | .subscription => match ctx (l.subscriptionReserved (r.poolId.getD "") - amount) with
    | none => (l,some .trap)
    | some q => ({l with subscriptionReserved := update l.subscriptionReserved (r.poolId.getD "") (max 0 q)},none)
  | .quota => match ctx (l.quotaReserved (r.poolId.getD "") - amount) with
    | none => (l,some .trap)
    | some q => ({l with quotaReserved := update l.quotaReserved (r.poolId.getD "") (max 0 q)},none)
  | .cheaperInference => match ctx (l.ciReserved - amount) with
    | none => (l,some .trap)
    | some q => ({l with ciReserved := max 0 q},none)
  | .unknown _ => (l,none)

end Ledger

def tokenTerm (tokens : ℤ) (evidenceId notes : Option String) : Except LedgerError CostTerm :=
  if tokens < 0 then .error (.negative "amount")
  else .ok ⟨"cache_read",some tokens,.tokens,.observed,evidenceId,notes⟩

def cacheTerms (e : CacheEvidence) (cachedTokens : Option ℤ) : Except LedgerError (List CostTerm) := do
  let tokens ← match e.cachedInputTokens.or cachedTokens with
    | none => .ok []
    | some tokens => (tokenTerm tokens e.evidenceId none).map fun t => [t]
  match e.savings with
  | none => .ok (tokens ++ if e.cacheHit then
      [⟨"cache_read",none,.usd,.unknown,e.evidenceId,some "cache_hit_without_observed_savings"⟩] else [])
  | some given => (given.amount "savings_usd").map fun q => tokens ++ [⟨"cache_read",some q,.usd,.observed,e.evidenceId,none⟩]

variable (args : ReconcileArgs)

def addedTerms : Except LedgerError (List CostTerm) := match args.cacheEvidence with
  | some e => cacheTerms e args.cachedTokens
  | none => match args.cachedTokens with
    | some tokens => (tokenTerm tokens none (some "cached_tokens_without_priced_savings")).map fun t => [t]
    | none => .ok []

/-- Empty notes take the default as well. -/
def ReconcileArgs.notesOr (default : String) : String := match args.notes with
  | some notes => if notes = "" then default else notes
  | none => default

namespace Ledger

def put (l : Ledger) (id : ℕ) (r : Reservation) : Ledger := {l with reservations := l.reservations.set id r}

def reconcile (l : Ledger) (id : ℕ) (args : ReconcileArgs) : Ledger × Result := match l.reservations[id]? with
  | none => (l,.error (.unknownReservation id))
  | some r =>
    if r.status = .reconciled ∨ r.status = .released then (l,.error (.already r.status))
    else if args.missing then
      let r' := {r with status := .reserved, notes := some (args.notesOr "actual_missing_conservative_hold")}
      (l.put id r',.ok r')
    else if args.delayed ∧ args.actual = .absent then
      let r' := {r with status := .reserved, notes := some (args.notesOr "actual_delayed_hold")}
      (l.put id r',.ok r')
    else if args.actual = .absent ∧ ¬ args.partially then (l,.error .actualRequired)
    else match args.actual.amount "actual_amount" with
      | .error e => (l,.error e)
      | .ok actual => match addedTerms args with
        | .error e => (l,.error e)
        | .ok terms =>
          let status := if args.partially ∧ actual < r.amount then .partially else .reconciled
          match l.applySettle ctx r actual with
          | (l',some e) => (l',.error e)
          | (l',none) =>
            let notes := some (args.notesOr (if status = .partially then "partial_billing" else "reconciled"))
            let r' := {r with status, actual := some actual, terms := r.terms ++ terms, notes}
            (l'.put id r',.ok r')

def release (l : Ledger) (id : ℕ) : Ledger × Result := match l.reservations[id]? with
  | none => (l,.error (.unknownReservation id))
  | some r =>
    if r.status ≠ .reserved then (l,.error (.cannotRelease r.status))
    else match l.releaseReserved ctx r r.amount with
      | (l',some e) => (l',.error e)
      | (l',none) =>
        let r' := {r with status := .released, notes := some "released"}
        (l'.put id r',.ok r')

def step (l : Ledger) : Call → Ledger × Result
  | .reserve args => l.reserve ctx args
  | .reconcile id args => l.reconcile ctx id args
  | .release id => l.release ctx id

end Ledger
end Verdict.CostLedger

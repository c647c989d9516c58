import Mathlib.Algebra.Order.Ring.Int
import Verdict.HealthCache.Entry

/-! # The backoff of a route that keeps failing

Each failure in a row doubles the time a route stays negative, up to the cap of its kind. The
power of two is made a float before it meets the cap, and the number of failures has no bound,
so that a route that fails for long enough can no longer be recorded.
-/
namespace Verdict.HealthCache

def Throttled (category : Category) (httpStatus : Option ℕ) : Prop :=
  category = .rateLimited ∨ httpStatus = some 429

instance (category : Category) (httpStatus : Option ℕ) : Decidable (Throttled category httpStatus) :=
  inferInstanceAs (Decidable (_ ∨ _))

def capOf (category : Category) (httpStatus : Option ℕ) : ℤ :=
  if isLongNegative category httpStatus then longCap else transientCap

/-- The `n`th failure in a row has a backoff, below its cap, and none of those before it had a
longer one. -/
def BacksOff (category : Category) (httpStatus : Option ℕ) (retryAfter : Option ℤ) (n : ℕ) : Prop :=
  ∃ span, negativeSeconds category httpStatus retryAfter n = .ok span
    ∧ (¬ Throttled category httpStatus → span ≤ capOf category httpStatus)
    ∧ ∀ m, 1 ≤ m → m ≤ n → ∃ earlier, negativeSeconds category httpStatus retryAfter m = .ok earlier ∧ earlier ≤ span

/-- A probe whose backoff grows with the failures before it: it failed, and carries no
cooldown of its own. -/
def ProbeResult.Failing (r : ProbeResult) : Prop := r.healthy = false ∧ r.negativeTtl = none

instance (r : ProbeResult) : Decidable r.Failing := inferInstanceAs (Decidable (_ ∧ _))

def failures (previous : Option HealthEntry) : ℕ := previous.elim 0 HealthEntry.consecutiveFailures

/-- `HealthCache.record` for one result after the other. -/
def recordAll (fresh : EvidenceFresh) (route : String) (previous : Option HealthEntry)
    (results : List (ProbeResult × Time)) : Except HealthCacheError (Option HealthEntry) :=
  results.foldlM (fun entry r => (recordEntry fresh route entry r.1 r.2).map some) previous

section
variable {base cap : ℤ} {n m : ℕ}

theorem capped_ok (h : n ≤ 1024) : capped base n cap = .ok (min cap (base * 2 ^ (n - 1))) :=
  if_neg (by omega)

theorem capped_overflow (h : 1024 < n) : capped base n cap = .error .backoffOverflow :=
  if_pos (by omega)

theorem capped_mono (hbase : 0 ≤ base) (h : m ≤ n) : min cap (base * 2 ^ (m - 1)) ≤ min cap (base * 2 ^ (n - 1)) := by
  have hexp : m - 1 ≤ n - 1 := by omega
  have hpow : (2 : ℤ) ^ (m - 1) ≤ 2 ^ (n - 1) := pow_le_pow_right₀ (by omega) hexp
  exact min_le_min le_rfl (mul_le_mul_of_nonneg_left hpow hbase)

end

section
variable {category : Category} {httpStatus : Option ℕ}

theorem negativeSeconds_throttled (h : Throttled category httpStatus) (retryAfter : Option ℤ) :
    ∃ span, ∀ n, negativeSeconds category httpStatus retryAfter n = .ok span := by
  have hbranch : ∀ n, negativeSeconds category httpStatus retryAfter n = _ := fun n => if_pos h
  cases retryAfter with
  | none => exact ⟨rateLimitBackoff,hbranch⟩
  | some r =>
    by_cases hr : 0 < r
    · exact ⟨r,fun n => (hbranch n).trans (if_pos hr)⟩
    · exact ⟨rateLimitBackoff,fun n => (hbranch n).trans (if_neg hr)⟩

theorem negativeSeconds_growing (h : ¬ Throttled category httpStatus) (retryAfter : Option ℤ) : ∃ base, 0 ≤
    base ∧ ∀ n, negativeSeconds category httpStatus retryAfter n = capped base (max 1 n)
    (capOf category httpStatus) := by
  have hbranch : ∀ n, negativeSeconds category httpStatus retryAfter n =
      if isLongNegative category httpStatus then capped longBase (max 1 n) longCap
      else capped transientBase (max 1 n) transientCap := fun n => if_neg h
  by_cases hlong : isLongNegative category httpStatus = true
  · refine ⟨longBase,by decide,fun n => ?_⟩
    rw [hbranch,capOf,if_pos hlong,if_pos hlong]
  · refine ⟨transientBase,by decide,fun n => ?_⟩
    rw [hbranch,capOf,if_neg hlong,if_neg hlong]

variable (retryAfter : Option ℤ)

theorem negativeSeconds_isOk_iff (n : ℕ) :
    (∃ span, negativeSeconds category httpStatus retryAfter n = .ok span) ↔ Throttled category httpStatus ∨ n ≤ 1024 := by
  by_cases ht : Throttled category httpStatus
  · obtain ⟨span,hspan⟩ := negativeSeconds_throttled ht retryAfter
    exact iff_of_true ⟨span,hspan n⟩ (.inl ht)
  · obtain ⟨base,-,hbase⟩ := negativeSeconds_growing ht retryAfter
    rw [hbase n,or_iff_right ht]
    constructor
    · rintro ⟨span,hspan⟩
      by_contra hmany
      rw [capped_overflow (by omega)] at hspan
      cases hspan
    · intro hfew
      exact ⟨_,capped_ok (by omega)⟩

theorem backsOff_iff (n : ℕ) :
    BacksOff category httpStatus retryAfter n ↔ Throttled category httpStatus ∨ n ≤ 1024 := by
  constructor
  · rintro ⟨span,hspan,-⟩
    exact (negativeSeconds_isOk_iff retryAfter n).mp ⟨span,hspan⟩
  · intro hcond
    by_cases ht : Throttled category httpStatus
    · obtain ⟨span,hspan⟩ := negativeSeconds_throttled ht retryAfter
      exact ⟨span,hspan n,fun hno => absurd ht hno,fun m _ _ => ⟨span,hspan m,le_rfl⟩⟩
    · have hfew : n ≤ 1024 := hcond.resolve_left ht
      obtain ⟨base,hpos,hbase⟩ := negativeSeconds_growing ht retryAfter
      refine ⟨_,(hbase n).trans (capped_ok (by omega)),fun _ => min_le_left _ _,fun m _ hm => ?_⟩
      exact ⟨_,(hbase m).trans (capped_ok (by omega)),capped_mono hpos (by omega)⟩

end

section Recording
variable {fresh : EvidenceFresh} {route : String}

theorem revokeSession_failures (result : ProbeResult) (current : Time) (e : HealthEntry) :
    (revokeSession result current e).consecutiveFailures = e.consecutiveFailures := by
  unfold revokeSession
  split
  · rfl
  · split <;> rfl

theorem recordEntry_failing (hroute : Path.strip route.toList ≠ []) (previous : Option HealthEntry) {result : ProbeResult}
    (hf : result.Failing) (current : Time) :
    (Throttled result.category result.httpStatus ∨ failures previous < 1024 →
        ∃ e, recordEntry fresh route previous result current = .ok e ∧ e.consecutiveFailures = failures previous + 1)
      ∧ (¬ (Throttled result.category result.httpStatus ∨ failures previous < 1024) →
        recordEntry fresh route previous result current = .error .backoffOverflow) := by
  obtain ⟨hsick,httl⟩ := hf
  have hspan : failureSpan result (failures previous + 1)
      = negativeSeconds result.category result.httpStatus result.retryAfter (failures previous + 1) := by
    rw [failureSpan,httl]
  have hentry : recordEntry fresh route previous result current =
      (negativeSeconds result.category result.httpStatus result.retryAfter (failures previous + 1)).map (fun span =>
        revokeSession result current (carryOver previous (some ((previousFailure previous).elim current (max current)))
          (failureEntry route previous result span (agenticFields previous result current) current))) := by
    rw [← hspan]
    simp only [recordEntry,if_neg hroute,hsick,Bool.false_eq_true,if_false]
    rw [show previous.elim 0 HealthEntry.consecutiveFailures = failures previous from rfl]
    cases failureSpan result (failures previous + 1) with
    | error e => rfl
    | ok span => cases previousFailure previous <;> rfl
  have hok : (∃ span, negativeSeconds result.category result.httpStatus result.retryAfter (failures previous + 1) = .ok span) ↔
      Throttled result.category result.httpStatus ∨ failures previous + 1 ≤ 1024 :=
    negativeSeconds_isOk_iff result.retryAfter (failures previous + 1)
  rw [show failures previous + 1 ≤ 1024 ↔ failures previous < 1024 from Iff.rfl] at hok
  rw [hentry]
  constructor
  · intro hcond
    obtain ⟨span,hs⟩ := hok.mpr hcond
    rw [hs]
    exact ⟨_,rfl,revokeSession_failures result current _⟩
  · intro hcond
    obtain ⟨ht,hmany⟩ := not_or.mp hcond
    obtain ⟨base,-,hbase⟩ := negativeSeconds_growing ht result.retryAfter
    rw [hbase,capped_overflow (by omega)]
    rfl

theorem recordAll_isOk_iff (hroute : Path.strip route.toList ≠ []) (results : List (ProbeResult × Time)) :
    ∀ previous, (∀ r ∈ results, r.1.Failing) →
      ((∃ e, recordAll fresh route previous results = .ok e) ↔
        ∀ i (h : i < results.length), 1024 ≤ failures previous + i → Throttled results[i].1.category results[i].1.httpStatus) := by
  induction results with
  | nil => exact fun previous _ => iff_of_true ⟨previous,rfl⟩ fun i h => absurd h (Nat.not_lt_zero i)
  | cons r rest ih =>
    intro previous hf
    obtain ⟨hr,hrest⟩ := List.forall_mem_cons.mp hf
    obtain ⟨hgood,hbad⟩ := @recordEntry_failing fresh route hroute previous r.1 hr r.2
    have hstep : recordAll fresh route previous (r :: rest)
        = ((recordEntry fresh route previous r.1 r.2).map some).bind fun e => recordAll fresh route e rest := rfl
    by_cases hcond : Throttled r.1.category r.1.httpStatus ∨ failures previous < 1024
    · obtain ⟨e,he,hcount⟩ := hgood hcond
      have hnext : failures (some e) = failures previous + 1 := hcount
      rw [hstep,he]
      refine (ih (some e) hrest).trans ?_
      rw [hnext]
      constructor
      · intro h i hi hmany
        cases i with
        | zero => exact hcond.resolve_right (by omega)
        | succ i => exact h i (by simpa using hi) (by omega)
      · intro h i hi hmany
        exact h (i + 1) (by simpa using hi) (by omega)
    · rw [hstep,hbad hcond]
      refine iff_of_false (fun ⟨e,he⟩ => nomatch he) fun h => hcond ?_
      by_cases hfew : failures previous < 1024
      · exact .inr hfew
      · exact .inl (h 0 (by simp) (by omega))

/-- A backoff exists, stays below the cap of its kind and never shrinks along a streak exactly
up to the 1024th failure, rate limits apart; and so long, and no longer, does a streak of
failing probes get recorded. -/
theorem backoff_total (category : Category) (httpStatus : Option ℕ) (retryAfter : Option ℤ) (n : ℕ) (fresh : EvidenceFresh)
    (route : String) (results : List (ProbeResult × Time)) :
    (BacksOff category httpStatus retryAfter n ↔ Throttled category httpStatus ∨ n ≤ 1024)
      ∧ (Path.strip route.toList ≠ [] → (∀ r ∈ results, r.1.Failing) →
          ((∃ e, recordAll fresh route none results = .ok e) ↔
            ∀ i (h : i < results.length), 1024 ≤ i → Throttled results[i].1.category results[i].1.httpStatus)) := by
  refine ⟨backsOff_iff retryAfter n,fun hroute hf => ?_⟩
  have hall := @recordAll_isOk_iff fresh route hroute results none hf
  simpa only [failures,Option.elim_none,Nat.zero_add] using hall

def deadProbe : ProbeResult where
  category := .timeout
  chatOk := false
  toolOk := false

/-- The 1025th timeout in a row has no backoff, and recording it raises. -/
theorem long_dead_route_unrecorded : ¬ (∀ n, 1 ≤ n → BacksOff .timeout none none n) ∧ ¬ ∃ e, recordAll {}
    "codex/gpt-5" none (List.replicate 1025 (deadProbe,0)) = .ok e := by
  constructor
  · intro h
    have hmany := (backsOff_iff none 1025).mp (h 1025 (by omega))
    revert hmany
    decide
  · intro h
    have hall := (recordAll_isOk_iff (by decide) _ none (by
      intro r hr
      rw [(List.mem_replicate.mp hr).2]
      decide)).mp h
    have hlast := hall 1024 (by rw [List.length_replicate]; omega) (by omega)
    rw [List.getElem_replicate] at hlast
    revert hlast
    decide

end Recording
end Verdict.HealthCache

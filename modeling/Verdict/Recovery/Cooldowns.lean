import Verdict.Basics.Raising
import Verdict.Recovery.Classify

/-! # How long a failure parks a route

A hint in the text of an error is cut to 24 hours, and so is every default; the number of seconds
that the executor reports is taken as it is. A failure that blames neither route nor pool has no
cooldown, unless the gateway itself was busy.
-/
namespace Verdict.Recovery
open Runtime (Action Scope)
open Regex (findall occurs search)

/-! ### Units of a hint -/

def Readable (o : Outside) (error : List Char) : Prop :=
  error ≠ [] → firstHint error ((RETRY_AFTER_PATTERNS o).take 3) = .ok none →
    ∀ groups, search [hintLead,hintDurations o] error = some groups → ∀ duration ∈ groups[1]?,
      ∀ number blank unit last, [number,blank,unit,last] ∈ findall (durationPart o) duration →
        (DURATION_UNITS.lookup (o.lower unit)).isSome = true

theorem parseDuration_isOk {o : Outside} {duration : List Char} : (parseDuration o duration).isOk = true ↔ ∀
    number blank unit last, [number,blank,unit,last] ∈ findall (durationPart o) duration →
    (DURATION_UNITS.lookup (o.lower unit)).isSome = true := by
  refine (Raising.foldlM_isOk (P := fun groups => ∀ number blank unit last, [number,blank,unit,last] = groups →
    (DURATION_UNITS.lookup (o.lower unit)).isSome = true) ?_ _ none).trans ?_
  · intro total groups
    constructor
    · rintro h number blank unit last rfl
      cases hunit : DURATION_UNITS.lookup (o.lower unit) with
      | some size => rfl
      | none => simp only [hunit] at h; cases h
    · intro h
      split
      · rename_i number blank unit last
        obtain ⟨size,hsize⟩ := Option.isSome_iff_exists.mp (h number blank unit last rfl)
        simp only [hsize]
        rfl
      · rfl
  · exact ⟨fun h number blank unit last hmem => h _ hmem number blank unit last rfl,
      fun h groups hmem number blank unit last heq => h number blank unit last (heq ▸ hmem)⟩

theorem firstHint_early (o : Outside) (error : List Char) : (firstHint error ((RETRY_AFTER_PATTERNS o).take 3)).isOk = true := by
  have htotal : ∀ p ∈ (RETRY_AFTER_PATTERNS o).take 3, ∀ groups, (p.2 groups).isOk = true := by
    intro p hp groups
    rcases List.mem_cons.mp hp with rfl | hp
    · rfl
    · rcases List.mem_cons.mp hp with rfl | hp
      · rfl
      · rcases List.mem_cons.mp hp with rfl | hp
        · rfl
        · exact (List.not_mem_nil hp).elim
  generalize (RETRY_AFTER_PATTERNS o).take 3 = patterns at htotal
  induction patterns with
  | nil => rfl
  | cons p rest ih =>
    have hrest := ih fun q hq => htotal q (List.mem_cons_of_mem _ hq)
    simp only [firstHint]
    split
    · exact hrest
    · rename_i groups _
      have hp := htotal p List.mem_cons_self groups
      split
      · rename_i e he
        rw [he] at hp
        cases hp
      · split
        · rfl
        · exact hrest
      · exact hrest

variable {error : List Char}

theorem firstHint_append {early late : List (List Regex.Pattern × (List (List Char) → Except UnknownUnit (Option Seconds)))} :
    firstHint error (early ++ late) = match firstHint error early with
      | .ok none => firstHint error late
      | result => result := by
  induction early with
  | nil => rfl
  | cons p rest ih =>
    rw [List.cons_append]
    simp only [firstHint]
    split
    · exact ih
    · split
      · rfl
      · split
        · rfl
        · exact ih
      · exact ih

theorem parseResetHint_isOk {o : Outside} : (parseResetHint o error).isOk = true ↔ Readable o error := by
  rw [parseResetHint]
  by_cases hempty : error = []
  · rw [if_pos hempty]
    exact ⟨fun _ hne => absurd hempty hne,fun _ => rfl⟩
  · have hsplit : RETRY_AFTER_PATTERNS o = (RETRY_AFTER_PATTERNS o).take 3 ++ (RETRY_AFTER_PATTERNS o).drop 3 := (List.take_append_drop 3 _).symm
    rw [if_neg hempty,hsplit,firstHint_append]
    obtain ⟨early,hearly⟩ : ∃ early, firstHint error ((RETRY_AFTER_PATTERNS o).take 3) = .ok early := by
      have hok := firstHint_early o error
      cases hcase : firstHint error ((RETRY_AFTER_PATTERNS o).take 3) with
      | error e => rw [hcase] at hok; cases hok
      | ok early => exact ⟨early,rfl⟩
    cases early with
    | some s =>
      rw [hearly]
      refine ⟨fun _ _ hnone => ?_,fun _ => rfl⟩
      rw [hearly] at hnone
      cases hnone
    | none =>
      rw [hearly]
      have hlast : (firstHint error ((RETRY_AFTER_PATTERNS o).drop 3)).isOk = true ↔
          ∀ groups, search [hintLead,hintDurations o] error = some groups → ∀ duration ∈ groups[1]?,
            (parseDuration o duration).isOk = true := by
        show (firstHint error [([hintLead,hintDurations o],_)]).isOk = true ↔ _
        cases hsearch : search [hintLead,hintDurations o] error with
        | none =>
          simp only [firstHint,hsearch]
          refine ⟨?_,fun _ => rfl⟩
          rintro - groups hgroups
          cases hgroups
        | some groups =>
          simp only [firstHint,hsearch,Option.some.injEq,forall_eq']
          cases hduration : groups[1]? with
          | none =>
            refine ⟨?_,fun _ => rfl⟩
            rintro - duration hmem
            cases hmem
          | some duration =>
            simp only [Option.mem_def,Option.some.injEq,forall_eq']
            cases parseDuration o duration with
            | error e => rfl
            | ok result =>
              cases result with
              | none => exact iff_of_true rfl rfl
              | some seconds =>
                refine iff_of_true ?_ rfl
                show (if seconds.positive = true then _ else _ : Except UnknownUnit (Option Seconds)).isOk = true
                split <;> rfl
      refine hlast.trans ⟨fun h _ _ groups hgroups duration hduration => parseDuration_isOk.mp (h groups hgroups duration hduration),
        fun h groups hgroups duration hduration => parseDuration_isOk.mpr (h hempty hearly groups hgroups duration hduration)⟩

/-! ### Branches -/

variable {o : Outside}

def Undecided (status : ℤ) : Prop := status ∉ [429,401,402,403,400,404,410] ∧ ¬(500 ≤ status ∧ status < 600)

/-- The failure is one of the task: nothing before the last two prefixes applies. -/
def SpeaksOfTask (o : Outside) (t : WorkerTerminal) : Prop :=
  occurs GATEWAY_BUSY t.error.toList = false ∧ (∀ status ∈ t.statusCode, Undecided status) ∧
  mentions (o.lower t.error.toList) (MODEL_MISSING_MARKERS ++ TIMEOUT_MARKERS ++ CONNECTION_MARKERS ++ ["malformed"]) = false ∧
  t.stopReason ∈ ["stop","end_turn",""] ∧
  ("verification_failed".toList <+: t.error.toList ∨ "ownership_violation".toList <+: t.error.toList)

def taskFailure (error : List Char) : FailureClassification :=
  if "verification_failed".toList <+: error then unparked error "verification_failed" .correctImplementation
  else unparked error "ownership_violation" .rehydrate

theorem taskFailure_zero (error : List Char) : (taskFailure error).cooldownSeconds = .num 0 := by
  rw [taskFailure]
  split <;> rfl

/-- A classification that parks something for the cooldown, or for a default within the cap. -/
def Parks (cooldown : Seconds) (c : FailureClassification) : Prop :=
  (c.scope ≠ .none ∨ c.action = .retryInfra) ∧
    ∃ default : ℚ, 0 < default ∧ default ≤ MAX_COOLDOWN_SECONDS ∧ c.cooldownSeconds = cooldown.orElse (.num default)

variable {cooldown : Seconds} {category : String} {scope : Scope} {default : ℚ}

theorem parked_parks (hscope : scope ≠ .none) (hpos : 0 < default) (hcap : default ≤ MAX_COOLDOWN_SECONDS) :
    Parks cooldown (parked error cooldown category scope default) := ⟨.inl hscope,default,hpos,hcap,rfl⟩

theorem parked_found {status : ℤ}
    (hdecided : ¬Undecided status) (hscope : scope ≠ .none) (hpos : 0 < default) (hcap : default ≤ MAX_COOLDOWN_SECONDS) :
    (Undecided status ∧ some (parked error cooldown category scope default) = none) ∨
      (¬Undecided status ∧ ∃ c, some (parked error cooldown category scope default) = some c ∧ Parks cooldown c) :=
  .inr ⟨hdecided,_,rfl,parked_parks hscope hpos hcap⟩

variable {c : FailureClassification}

theorem Parks.ne_zero (h : Parks cooldown c) : c.cooldownSeconds ≠ .num 0 := by
  obtain ⟨-,default,hpos,-,heq⟩ := h
  rw [heq,Seconds.orElse]
  split
  · rename_i htruthy
    exact fun hzero => by simp [hzero,Seconds.truthy] at htruthy
  · exact fun hzero => hpos.ne' (Seconds.num.inj hzero)

theorem byStatus_cases (o : Outside) (error : List Char) (cooldown : Seconds) (status : ℤ) :
    (Undecided status ∧ byStatus o error cooldown status = none) ∨
    (¬Undecided status ∧ ∃ c, byStatus o error cooldown status = some c ∧ Parks cooldown c) := by
  have hlisted : ∀ {code : ℤ}, code ∈ [429,401,402,403,400,404,410] → status = code → ¬Undecided status :=
    fun hmem heq hun => hun.1 (heq ▸ hmem)
  have hscope : ∀ b : Bool, (if b = true then Scope.route else .provider) ≠ .none := by decide
  simp only [byStatus]
  by_cases h429 : status = 429
  · rw [if_pos h429]
    split
    · exact parked_found (hlisted (by decide) h429) (hscope _) (by decide) (by decide)
    · exact parked_found (hlisted (by decide) h429) (by decide) (by decide) (by decide)
  rw [if_neg h429]
  by_cases h401 : status = 401
  · rw [if_pos h401]
    exact parked_found (hlisted (by decide) h401) (by decide) (by decide) (by decide)
  rw [if_neg h401]
  by_cases h402 : status = 402
  · rw [if_pos h402]
    exact parked_found (hlisted (by decide) h402) (by decide) (by decide) (by decide)
  rw [if_neg h402]
  by_cases h403 : status = 403
  · rw [if_pos h403]
    exact parked_found (hlisted (by decide) h403) (hscope _) (by decide) (by decide)
  rw [if_neg h403]
  by_cases h400 : status = 400
  · rw [if_pos h400]
    split
    · exact parked_found (hlisted (by decide) h400) (by decide) (by decide) (by decide)
    · exact parked_found (hlisted (by decide) h400) (by decide) (by decide) (by decide)
  rw [if_neg h400]
  by_cases h404 : status = 404
  · rw [if_pos h404]
    exact parked_found (hlisted (by decide) h404) (by decide) (by decide) (by decide)
  rw [if_neg h404]
  by_cases h410 : status = 410
  · rw [if_pos h410]
    exact parked_found (hlisted (by decide) h410) (by decide) (by decide) (by decide)
  rw [if_neg h410]
  by_cases h5xx : 500 ≤ status ∧ status < 600
  · rw [if_pos h5xx]
    exact parked_found (fun hun => hun.2 h5xx) (by decide) (by decide) (by decide)
  rw [if_neg h5xx]
  refine .inl ⟨⟨?_,h5xx⟩,rfl⟩
  simp only [List.mem_cons,List.not_mem_nil,or_false,not_or]
  exact ⟨h429,h401,h402,h403,h400,h404,h410⟩

theorem mentions_append {text : List Char} {a b : List String} : mentions text (a ++ b) = (mentions text a || mentions text b) := List.any_append

theorem byText_cases (o : Outside) (t : WorkerTerminal) (cooldown : Seconds)
    (hbusy : occurs GATEWAY_BUSY t.error.toList = false) (hstatus : ∀ status ∈ t.statusCode, Undecided status) :
    (SpeaksOfTask o t ∧ byText o t cooldown = taskFailure t.error.toList) ∨
      (¬SpeaksOfTask o t ∧ Parks cooldown (byText o t cooldown)) := by
  have hparked : ∀ {category default}, ¬SpeaksOfTask o t → 0 < default → default ≤ MAX_COOLDOWN_SECONDS →
      (SpeaksOfTask o t ∧ parked t.error.toList cooldown category .route default = taskFailure t.error.toList) ∨
        (¬SpeaksOfTask o t ∧ Parks cooldown (parked t.error.toList cooldown category .route default)) :=
    fun hno hpos hcap => .inr ⟨hno,parked_parks (by decide) hpos hcap⟩
  have hspeaks : SpeaksOfTask o t ↔ mentions (o.lower t.error.toList) MODEL_MISSING_MARKERS = false ∧
      mentions (o.lower t.error.toList) TIMEOUT_MARKERS = false ∧ mentions (o.lower t.error.toList) CONNECTION_MARKERS = false ∧
      mentions (o.lower t.error.toList) ["malformed"] = false ∧ t.stopReason ∈ ["stop","end_turn",""] ∧
      ("verification_failed".toList <+: t.error.toList ∨ "ownership_violation".toList <+: t.error.toList) := by
    rw [SpeaksOfTask,mentions_append,mentions_append,mentions_append]
    simp only [hbusy,Bool.or_eq_false_iff,and_assoc,true_and]
    exact and_iff_right hstatus
  simp only [byText]
  by_cases hmissing : mentions (o.lower t.error.toList) MODEL_MISSING_MARKERS = true
  · rw [if_pos hmissing]
    exact hparked (fun h => by simp [(hspeaks.mp h).1] at hmissing) (by decide) (by decide)
  rw [if_neg hmissing]
  by_cases htimeout : t.stopReason = "timeout" ∨ mentions (o.lower t.error.toList) TIMEOUT_MARKERS = true
  · rw [if_pos htimeout]
    refine hparked (fun h => ?_) (by decide) (by decide)
    obtain ⟨-,hno,-,-,hstop,-⟩ := hspeaks.mp h
    rcases htimeout with hstop' | hmention
    · rw [hstop'] at hstop
      exact absurd hstop (by decide)
    · rw [hno] at hmention
      cases hmention
  rw [if_neg htimeout]
  by_cases hconnection : mentions (o.lower t.error.toList) CONNECTION_MARKERS = true
  · rw [if_pos hconnection]
    exact hparked (fun h => by simp [(hspeaks.mp h).2.2.1] at hconnection) (by decide) (by decide)
  rw [if_neg hconnection]
  by_cases hfinal : t.error = "no_final_answer" ∨ t.stopReason ∉ ["stop","end_turn",""]
  · rw [if_pos hfinal]
    refine hparked (fun h => ?_) (by decide) (by decide)
    obtain ⟨-,-,-,-,hstop,htask⟩ := hspeaks.mp h
    rcases hfinal with herror | hno
    · rw [herror] at htask
      exact absurd htask (by decide)
    · exact hno hstop
  rw [if_neg hfinal]
  by_cases hmalformed : mentions (o.lower t.error.toList) ["malformed"] = true
  · rw [if_pos hmalformed]
    exact hparked (fun h => by simp [(hspeaks.mp h).2.2.2.1] at hmalformed) (by decide) (by decide)
  rw [if_neg hmalformed]
  by_cases hmismatch : t.error = "model_mismatch"
  · rw [if_pos hmismatch]
    refine hparked (fun h => ?_) (by decide) (by decide)
    have htask := (hspeaks.mp h).2.2.2.2.2
    rw [hmismatch] at htask
    exact absurd htask (by decide)
  rw [if_neg hmismatch]
  have hquiet : ∀ {b : Bool}, ¬b = true → b = false := Bool.eq_false_of_not_eq_true
  have hspeaks' : SpeaksOfTask o t ↔ "verification_failed".toList <+: t.error.toList ∨ "ownership_violation".toList <+: t.error.toList :=
    hspeaks.trans ⟨fun h => h.2.2.2.2.2,fun h => ⟨hquiet hmissing,hquiet fun hm => htimeout (.inr hm),hquiet hconnection,
      hquiet hmalformed,not_not.mp fun hno => hfinal (.inr hno),h⟩⟩
  by_cases hverification : "verification_failed".toList <+: t.error.toList
  · rw [if_pos hverification]
    exact .inl ⟨hspeaks'.mpr (.inl hverification),(if_pos hverification).symm⟩
  rw [if_neg hverification]
  by_cases hownership : "ownership_violation".toList <+: t.error.toList
  · rw [if_pos hownership]
    exact .inl ⟨hspeaks'.mpr (.inr hownership),(if_neg hverification).symm⟩
  rw [if_neg hownership]
  exact hparked (fun h => (hspeaks'.mp h).elim hverification hownership) (by decide) (by decide)

theorem classifyFailure_cases (o : Outside) (t : WorkerTerminal) (cooldown : Seconds) :
    (SpeaksOfTask o t ∧ classifyFailure o t cooldown = taskFailure t.error.toList) ∨
    (¬SpeaksOfTask o t ∧ Parks cooldown (classifyFailure o t cooldown)) := by
  rw [classifyFailure]
  by_cases hbusy : occurs GATEWAY_BUSY t.error.toList = true
  · rw [if_pos hbusy]
    refine .inr ⟨fun h => ?_,.inr rfl,15,by decide,by decide,rfl⟩
    rw [h.1] at hbusy
    cases hbusy
  rw [if_neg hbusy]
  have hquiet := Bool.eq_false_of_not_eq_true hbusy
  cases hcode : t.statusCode with
  | none => exact byText_cases o t cooldown hquiet (by rw [hcode]; exact fun _ h => nomatch h)
  | some status =>
    have hstatus : ∀ s ∈ t.statusCode, s = status := fun s hs => by rw [hcode] at hs; exact (Option.some.inj hs).symm
    rw [Option.bind_some]
    rcases byStatus_cases o t.error.toList cooldown status with ⟨hun,hnone⟩ | ⟨hdecided,c,hsome,hparks⟩
    · rw [hnone]
      exact byText_cases o t cooldown hquiet fun s hs => hstatus s hs ▸ hun
    · rw [hsome]
      exact .inr ⟨fun h => hdecided (h.2.1 status hcode),hparks⟩

/-! ### The cap -/

def Bounded (c : FailureClassification) : Prop :=
  c.cooldownSeconds.Within MAX_COOLDOWN_SECONDS ∧ (c.scope = .none ∧ c.action ≠ .retryInfra → c.cooldownSeconds = .num 0)

theorem bounded_zero (h : c.cooldownSeconds = .num 0) : Bounded c := by
  refine ⟨?_,fun _ => h⟩
  rw [h]
  decide

theorem Parks.bounded (h : Parks cooldown c) : Bounded c ↔ cooldown.Within MAX_COOLDOWN_SECONDS := by
  obtain ⟨hparks,default,hpos,hcap,heq⟩ := h
  have hdefault : (Seconds.num default).Within MAX_COOLDOWN_SECONDS := ⟨hpos.le,hcap⟩
  rw [Bounded,heq,Seconds.orElse_within hdefault,and_iff_left_iff_imp]
  exact fun _ hnone => absurd hparks (not_or.mpr ⟨not_not.mpr hnone.1,hnone.2⟩)

/-- The error reports on the task, on the harness or on a request that is too long. -/
def SpeaksOfRequest (o : Outside) (t : WorkerTerminal) : Prop :=
  "worker_blocked:".toList <+: t.error.toList ∨ "harness_configuration:".toList <+: t.error.toList ∨
  ("ownership_refused:".toList <+: t.error.toList ∨ t.statusCode = some 125) ∨
  (t.statusCode ∈ [some 400,some 413,none] ∧ isContextLengthError o t.error.toList = true)

variable {t : WorkerTerminal}

theorem taskFeedback_eq_none : taskFeedback o t = none ↔ ¬SpeaksOfRequest o t := by
  simp only [taskFeedback,SpeaksOfRequest,not_or]
  split_ifs with hblocked hharness hrefused hlong
  · exact iff_of_false (fun h => nomatch h) fun h => h.1 hblocked
  · exact iff_of_false (fun h => nomatch h) fun h => h.2.1 hharness
  · exact iff_of_false (fun h => nomatch h) fun h => hrefused.elim h.2.2.1.1 h.2.2.1.2
  · exact iff_of_false (fun h => nomatch h) fun h => h.2.2.2 hlong
  · exact iff_of_true rfl ⟨hblocked,hharness,not_or.mp hrefused,hlong⟩

theorem taskFeedback_zero (h : taskFeedback o t = some c) : c.cooldownSeconds = .num 0 := by
  simp only [taskFeedback] at h
  split_ifs at h <;> cases h <;> rfl

/-- The cooldown that a failure is classified with is in bounds, or nothing reads it. -/
def CooldownKnown (o : Outside) (t : WorkerTerminal) : Prop :=
  if (t.retryAfterSeconds.getD (.num 0)).truthy then
    SpeaksOfTask o t ∨ (t.retryAfterSeconds.getD (.num 0)).Within MAX_COOLDOWN_SECONDS
  else Readable o t.error.toList

/-- A classification is returned with a cooldown in bounds, unless the executor reports more. -/
theorem cooldowns_bounded (o : Outside) (t : WorkerTerminal) :
    (∃ c, classify o t = .ok c ∧ Bounded c) ↔ t.ok = true ∨ SpeaksOfRequest o t ∨ CooldownKnown o t := by
  rw [classify]
  by_cases hok : t.ok = true
  · rw [if_pos hok]
    refine iff_of_true ?_ (.inl hok)
    split
    · exact ⟨_,rfl,by decide,by rintro ⟨⟨⟩,-⟩⟩
    · exact ⟨_,rfl,bounded_zero rfl⟩
  rw [if_neg hok,or_iff_right hok]
  cases hfeedback : taskFeedback o t with
  | some c =>
    have hspeaks : SpeaksOfRequest o t := by
      by_contra hno
      rw [taskFeedback_eq_none.mpr hno] at hfeedback
      cases hfeedback
    exact iff_of_true ⟨c,rfl,bounded_zero (taskFeedback_zero hfeedback)⟩ (.inl hspeaks)
  | none =>
    rw [or_iff_right (taskFeedback_eq_none.mp hfeedback),CooldownKnown]
    have hclassified : ∀ cooldown, (∃ c, (Except.ok cooldown : Except UnknownUnit Seconds).map (classifyFailure o t) = .ok c ∧ Bounded c) ↔
        SpeaksOfTask o t ∨ cooldown.Within MAX_COOLDOWN_SECONDS := by
      intro cooldown
      simp only [Except.map,Except.ok.injEq,exists_eq_left']
      rcases classifyFailure_cases o t cooldown with ⟨hspeaks,htask⟩ | ⟨hno,hparks⟩
      · exact iff_of_true (bounded_zero (htask ▸ taskFailure_zero _)) (.inl hspeaks)
      · rw [hparks.bounded,or_iff_right hno]
    by_cases hgiven : (t.retryAfterSeconds.getD (.num 0)).truthy = true
    · simp only [cooldownOf,if_pos hgiven]
      exact hclassified _
    · simp only [cooldownOf,if_neg hgiven]
      rw [← parseResetHint_isOk]
      cases hhint : parseResetHint o t.error.toList with
      | error e => exact ⟨by rintro ⟨c,⟨⟩,-⟩,fun h => absurd h Bool.false_ne_true⟩
      | ok hint =>
        refine iff_of_true ((hclassified _).mpr (.inr ?_)) rfl
        have hzero : t.retryAfterSeconds.getD (.num 0) = .num 0 := by simpa [Seconds.truthy] using hgiven
        cases hint with
        | none => rw [Option.getD_none,hzero]; decide
        | some s => exact parseResetHint_within hhint

def plainText : Outside where
  lower cs := cs.map Char.toLower
  isWord c := c.isAlphanum || c = '_'
  isDigit := Char.isDigit
  float cs := .num ((cs.takeWhile Char.isDigit).foldl (fun n c => 10 * n + (c.toNat - 48)) 0 : ℕ)
  plus a b := match a,b with
    | .num p,.num q => .num (p + q)
    | _,_ => .nan
  times s n := match s with
    | .num q => .num (q * n)
    | s => s

def weekAsked : WorkerTerminal := {ok := false,error := "Too Many Requests",statusCode := some 429,retryAfterSeconds := some (.num 604800)}

theorem header_not_capped : ¬∀ (o : Outside) (t : WorkerTerminal), ∃ c, classify o t = .ok c ∧ Bounded c := by
  intro hall
  obtain ⟨c,hc,hbounded,-⟩ := hall plainText weekAsked
  have hweek : (classify plainText weekAsked).toOption.map (·.cooldownSeconds) = some (.num 604800) := by decide +kernel
  rw [hc] at hweek
  have hcooldown : c.cooldownSeconds = .num 604800 := Option.some.inj hweek
  rw [hcooldown] at hbounded
  exact absurd hbounded (by decide)

/-- A hint of four days parks the route for one. -/
example : (classify plainText {ok := false,error := "quota used up, resets in 4 days",statusCode := some 429}).toOption.map
    (·.cooldownSeconds) = some (.num 86400) := by decide +kernel

end Verdict.Recovery

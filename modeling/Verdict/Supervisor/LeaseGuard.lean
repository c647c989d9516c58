import Mathlib.Data.List.MinMax
import Mathlib.Tactic.Linarith
import Verdict.Basics.Json

/-! # The guard of bounded operations

A controller publishes what it is waiting for as an operation with a fixed deadline,
and the supervisor does not count such a wait as a stall. `OperationLeaseGuard`
remembers every operation it has judged, so that republishing cannot extend a wait.
Times are exact numbers here, without the rounding of floats.
-/
namespace Verdict.Supervisor.LeaseGuard

/-- `process_identity` of a live process. -/
structure Identity where
  pid : ℤ
  boot : String
  (start pgid sid : ℤ)

abbrev Fields := List (String × Json)

/-- `operation.get(key)`. -/
def field (op : Fields) (key : String) : Json := (op.lookup key).getD (.scalar .null)

/-- Python's `==` between a parsed value and an integer. -/
def equalsInt (z : ℤ) : Json → Bool
  | .int n => n = z
  | .float q => q = z
  | .bool b => (if b then 1 else 0) = z
  | .scalar .negZero => z = 0
  | _ => false

def sameProcess (actual : Fields) (expected : Identity) : Bool :=
  equalsInt expected.pid (field actual "pid") && field actual "boot" = .str expected.boot &&
    equalsInt expected.start (field actual "start") && equalsInt expected.pgid (field actual "pgid") &&
    equalsInt expected.sid (field actual "sid")

def phaseCaps : List (String × ℚ) := [("planner",600),("plan_repair",600),("worker",900),("review",900)]

variable (c : Char)

def isDigit : Bool := '0' ≤ c ∧ c ≤ '9'

/-- `[1-9][0-9]*` -/
def isNumeral (cs : List Char) : Bool := cs.all isDigit && cs.head?.any fun c => c ≠ '0'

def isNameHead : Bool := isDigit c ∨ ('A' ≤ c ∧ c ≤ 'Z') ∨ ('a' ≤ c ∧ c ≤ 'z')

def isNameChar : Bool := isNameHead c ∨ c = '_' ∨ c = '.' ∨ c = '-'

/-- `[A-Za-z0-9][A-Za-z0-9_.-]{0,127}` -/
def isName (cs : List Char) : Bool := cs.head?.any isNameHead && cs.all isNameChar && cs.length ≤ 128

variable (attempt : String)

/-- `plan-([1-6])(-repair)?`; the answer is whether the second group took part. -/
def planAttempt : Option Bool :=
  if attempt ∈ ["plan-1","plan-2","plan-3","plan-4","plan-5","plan-6"] then some false
  else if attempt ∈ ["plan-1-repair","plan-2-repair","plan-3-repair","plan-4-repair","plan-5-repair","plan-6-repair"]
    then some true
  else none

/-- `[A-Za-z0-9][A-Za-z0-9_.-]{0,127}-a[1-9][0-9]*`: the number is what is behind the last
character that is no digit. -/
def workerAttempt : Bool :=
  let digits := (attempt.toList.reverse.takeWhile isDigit).reverse
  match attempt.toList.reverse.dropWhile isDigit with
  | 'a' :: '-' :: name => isName name.reverse && isNumeral digits
  | _ => false

/-- `review-round-[1-9][0-9]*` -/
def reviewAttempt : Bool :=
  "review-round-".toList.isPrefixOf attempt.toList && isNumeral (attempt.toList.drop 13)

def validAttempt (phase attempt : String) : Bool :=
  (match planAttempt attempt with
    | some repair => (phase = "planner" ∨ phase = "plan_repair") ∧ repair = decide (phase = "plan_repair")
    | none => false) ||
  (workerAttempt attempt && phase = "worker") || (phase = "review" && reviewAttempt attempt)

/-- `math.isfinite` of a number: an integer beyond the floats raises. -/
def finite : Json → Except Unit (Option ℚ)
  | .int n => if 2 ^ 1024 - 2 ^ 970 ≤ n.natAbs then .error () else .ok (some n)
  | .float q => .ok (some q)
  | .scalar .negZero => .ok (some 0)
  | _ => .ok none

/-- `isinstance(value, (int, float)) and not isinstance(value, bool)` -/
def isNumber : Json → Bool
  | .int _ | .float _ | .scalar .negZero | .scalar .nan | .scalar .inf | .scalar .negInf => true
  | _ => false

structure Guard where
  seen : Dict String Fields := .empty
  ended : List String := []
  invalid : List String := []
  logical : Dict (List Json) String := .empty

structure Call where
  state : Fields
  token : String
  owner : Option Identity
  (now overallDeadline : ℚ)

inductive Judgement
  | ended | invalid | expired | waiting | raised
  deriving DecidableEq

def frozen (op : Fields) : Fields := Json.dumps (op.filter fun e => e.1 ≠ "status")

def logicalKey (op : Fields) : List Json :=
  let ownerKey := match field op "owner" with
    | .obj owner => ["pid","boot","start","pgid","sid"].map (field owner)
    | _ => []
  Json.canonList [field op "token",.arr ownerKey,field op "phase",field op "attempt_id"]

/-- The value under the key afterwards. -/
def setDefault {κ α : Type} [DecidableEq κ] (d : Dict κ α) (k : κ) (a : α) : α × Dict κ α :=
  match d.get? k with
  | some known => (known,d)
  | none => (a,d.set k a)

def withinBounds (call : Call) (cap started deadline : ℚ) : Bool :=
  0 ≤ started ∧ started ≤ call.now ∧ started < deadline ∧ deadline ≤ call.overallDeadline ∧
    deadline - started ≤ cap + 1 / 1000000

/-- The part of `valid` that is evaluated before the times. -/
def wellFormed (call : Call) (opId : String) (op : Fields) : Bool :=
  match field op "phase", field op "attempt_id", field op "owner", call.owner with
  | .str phase, .str attempt, .obj owner, some expected =>
    validAttempt phase attempt && field op "id" = .str opId && field op "status" = .str "active" &&
      field op "token" = .str call.token && attempt ≠ "" && sameProcess owner expected &&
      (phaseCaps.lookup phase).isSome && isNumber (field op "started") && isNumber (field op "deadline")
  | _, _, _, _ => false

def cap (op : Fields) : ℚ := match field op "phase" with
  | .str phase => (phaseCaps.lookup phase).getD 0
  | _ => 0

/-- The times of an operation: `none` when the operation is invalid by them. -/
def times (call : Call) (op : Fields) : Except Unit (Option ℚ) :=
  match finite (field op "started") with
  | .error e => .error e
  | .ok none => .ok none
  | .ok (some started) => match finite (field op "deadline") with
    | .error e => .error e
    | .ok none => .ok none
    | .ok (some deadline) => .ok (if withinBounds call (cap op) started deadline then some deadline else none)

/-- One turn of the loop of `inspect`. -/
def judge (g : Guard) (call : Call) (opId : String) (op : Fields) : Guard × Judgement :=
  let (previous,seen) := setDefault g.seen opId (frozen op)
  let (original,logical) := setDefault g.logical (logicalKey op) opId
  let g := {g with seen := seen, logical := logical}
  if field op "status" = .str "ended" then ({g with ended := opId :: g.ended},.ended)
  else if opId ∈ g.ended ∨ opId ∈ g.invalid ∨ original ≠ opId ∨ frozen op ≠ previous ∨ wellFormed call opId op = false then
    ({g with invalid := opId :: g.invalid},.invalid)
  else match times call op with
    | .error _ => (g,.raised)
    | .ok none => ({g with invalid := opId :: g.invalid},.invalid)
    | .ok (some deadline) => if deadline ≤ call.now then (g,.expired) else (g,.waiting)

structure Entry where
  opId : String
  op : Fields
  judgement : Judgement

/-- The loop of `inspect`: it returns at an expired operation, and an exception ends it. -/
def sweep (call : Call) : Guard → List (String × Json) → Guard × List Entry
  | g, [] => (g,[])
  | g, (opId,.obj op) :: rest =>
    match judge g call opId op with
    | (g',.expired) => (g',[⟨opId,op,.expired⟩])
    | (g',.raised) => (g',[⟨opId,op,.raised⟩])
    | (g',j) => ((sweep call g' rest).1,⟨opId,op,j⟩ :: (sweep call g' rest).2)
  | g, (_,.scalar _) :: rest => sweep call g rest
  | g, (_,.arr _) :: rest => sweep call g rest

/-- `inspect`, with the judgements it makes. -/
def inspect (g : Guard) (call : Call) : Guard × List Entry :=
  if field call.state "active" ≠ .bool true ∨ field call.state "token" ≠ .str call.token ∨ call.owner = none then (g,[])
  else match field call.state "operations" with
    | .obj operations => sweep call g (Dict.ofList operations).entries
    | _ => (g,[])

inductive Verdict
  | none
  | waitingBounded (op : Fields)
  | expired (op : Fields)
  | raised

def deadlineOf (op : Fields) : ℚ := match finite (field op "deadline") with
  | .ok (some deadline) => deadline
  | _ => 0

def verdict (entries : List Entry) : Verdict :=
  match entries.getLast? with
  | some ⟨_,op,.expired⟩ => .expired op
  | some ⟨_,_,.raised⟩ => .raised
  | _ => match ((entries.filter fun e => e.judgement = .waiting).map Entry.op).argmin deadlineOf with
    | some op => .waitingBounded op
    | none => .none

structure Judged extends Entry where
  call : Call

def history : Guard → List Call → List Judged
  | _, [] => []
  | g, call :: calls => (inspect g call).2.map (fun e => ⟨e,call⟩) ++ history (inspect g call).1 calls

section
variable {κ α : Type} [DecidableEq κ] (d : Dict κ α) (k : κ) (a : α)

theorem setDefault_self : (setDefault d k a).2.get? k = some (setDefault d k a).1 := by
  unfold setDefault
  cases h : d.get? k with
  | none => simp
  | some known => exact h

theorem setDefault_mono {j : κ} {b : α} (h : d.get? j = some b) : (setDefault d k a).2.get? j = some b := by
  unfold setDefault
  cases hk : d.get? k with
  | some known => exact h
  | none =>
    have hne : j ≠ k := fun hjk => by rw [hjk,hk] at h; cases h
    exact (Dict.get?_set_ne d a hne).trans h

theorem setDefault_fresh (h : d.get? k = none) : (setDefault d k a).1 = a := by
  rw [setDefault,h]

end

structure Bounded (call : Call) (op : Fields) : Prop where
  times : ∃ started deadline, finite (field op "started") = .ok (some started) ∧
    finite (field op "deadline") = .ok (some deadline) ∧ 0 ≤ started ∧ started ≤ call.now ∧ call.now < deadline ∧
    deadline ≤ call.overallDeadline ∧ deadline ≤ started + cap op + 1 / 1000000
  phase : ∃ phase, field op "phase" = .str phase ∧ phaseCaps.lookup phase = some (cap op)

variable {call : Call} {op : Fields} {deadline : ℚ}

theorem times_some (h : times call op = .ok (some deadline)) : finite (field op "deadline") = .ok
    (some deadline) ∧ ∃ started, finite (field op "started") = .ok (some started) ∧ withinBounds call
    (cap op) started deadline = true := by
  unfold times at h
  cases hs : finite (field op "started") with
  | error e => rw [hs] at h; cases h
  | ok r =>
    cases r with
    | none => rw [hs] at h; cases h
    | some started =>
      rw [hs] at h
      cases hd : finite (field op "deadline") with
      | error e => rw [hd] at h; cases h
      | ok r =>
        cases r with
        | none => rw [hd] at h; cases h
        | some d =>
          rw [hd] at h
          simp only [Except.ok.injEq] at h
          split at h
          · cases h
            exact ⟨rfl,started,rfl,‹_›⟩
          · cases h

theorem wellFormed_phase {opId : String} (h : wellFormed call opId op = true) :
    ∃ phase, field op "phase" = .str phase ∧ phaseCaps.lookup phase = some (cap op) := by
  unfold wellFormed at h
  split at h
  · rename_i phase attempt owner expected hphase _ _ _
    simp only [Bool.and_eq_true,decide_eq_true_eq] at h
    obtain ⟨⟨⟨-,hcap⟩,-⟩,-⟩ := h
    refine ⟨phase,hphase,?_⟩
    obtain ⟨c,hc⟩ := Option.isSome_iff_exists.mp hcap
    rw [cap,hphase]
    simp [hc]
  · cases h

structure Judging (g : Guard) (call : Call) (opId : String) (op : Fields) (g' : Guard) (j : Judgement) : Prop where
  seen : ∃ first, g'.seen.get? opId = some first ∧ (frozen op ≠ first → j = .ended ∨ j = .invalid)
  seen_mono : ∀ k f, g.seen.get? k = some f → g'.seen.get? k = some f
  logical_mono : ∀ k i, g.logical.get? k = some i → g'.logical.get? k = some i
  ended_mono : ∀ k ∈ g.ended, k ∈ g'.ended
  invalid_mono : ∀ k ∈ g.invalid, k ∈ g'.invalid
  ended : j = .ended → opId ∈ g'.ended
  invalid : j = .invalid → opId ∈ g'.invalid
  expired : j = .expired → ∃ deadline, finite (field op "deadline") = .ok (some deadline) ∧ deadline ≤ call.now
  waiting : j = .waiting → opId ∉ g.ended ∧ opId ∉ g.invalid ∧ g'.logical.get? (logicalKey op) = some opId ∧
    Bounded call op

theorem judge_spec (g : Guard) (call : Call) (opId : String) (op : Fields) :
    Judging g call opId op (judge g call opId op).1 (judge g call opId op).2 := by
  have hseen := setDefault_self g.seen opId (frozen op)
  have hseenm := fun k f h => setDefault_mono g.seen opId (frozen op) (j := k) (b := f) h
  have hlog := setDefault_self g.logical (logicalKey op) opId
  have hlogm := fun k i h => setDefault_mono g.logical (logicalKey op) opId (j := k) (b := i) h
  unfold judge
  dsimp only
  split
  · exact ⟨⟨_,hseen,fun _ => .inl rfl⟩,hseenm,hlogm,fun _ h => List.mem_cons_of_mem _ h,fun _ h => h,
      fun _ => List.mem_cons_self,by simp,by simp,by simp⟩
  split
  · exact ⟨⟨_,hseen,fun _ => .inr rfl⟩,hseenm,hlogm,fun _ h => h,fun _ h => List.mem_cons_of_mem _ h,by simp,
      fun _ => List.mem_cons_self,by simp,by simp⟩
  rename_i hchecks
  simp only [not_or,not_not,Bool.not_eq_false] at hchecks
  obtain ⟨hend,hinv,horig,hsame,hform⟩ := hchecks
  split
  · exact ⟨⟨_,hseen,fun h => absurd hsame h⟩,hseenm,hlogm,fun _ h => h,fun _ h => h,by simp,by simp,by simp,by simp⟩
  · exact ⟨⟨_,hseen,fun _ => .inr rfl⟩,hseenm,hlogm,fun _ h => h,fun _ h => List.mem_cons_of_mem _ h,by simp,
      fun _ => List.mem_cons_self,by simp,by simp⟩
  · rename_i deadline htimes
    obtain ⟨hd,started,hs,hbounds⟩ := times_some htimes
    split
    · rename_i hle
      exact ⟨⟨_,hseen,fun h => absurd hsame h⟩,hseenm,hlogm,fun _ h => h,fun _ h => h,by simp,by simp,
        fun _ => ⟨deadline,hd,hle⟩,by simp⟩
    · rename_i hlt
      refine ⟨⟨_,hseen,fun h => absurd hsame h⟩,hseenm,hlogm,fun _ h => h,fun _ h => h,by simp,by simp,by simp,?_⟩
      intro _
      simp only [withinBounds,decide_eq_true_eq] at hbounds
      obtain ⟨h0,hnow,-,hoverall,hcap⟩ := hbounds
      refine ⟨hend,hinv,hlog.trans (congrArg some horig),⟨started,deadline,hs,hd,h0,hnow,lt_of_not_ge hlt,hoverall,?_⟩,
        wellFormed_phase hform⟩
      linarith

/-- What the guard remembers of the judgements made up to the time `now`. -/
structure Remembers (g : Guard) (past : List Judged) (now : ℚ) : Prop where
  seen : ∀ e ∈ past, ∃ first, g.seen.get? e.opId = some first ∧
    (frozen e.op ≠ first → e.opId ∈ g.ended ∨ e.opId ∈ g.invalid)
  ended : ∀ e ∈ past, e.judgement = .ended → e.opId ∈ g.ended
  invalid : ∀ e ∈ past, e.judgement = .invalid → e.opId ∈ g.invalid
  expired : ∀ e ∈ past, e.judgement = .expired →
    ∃ deadline, finite (field e.op "deadline") = .ok (some deadline) ∧ deadline ≤ now
  waiting : ∀ e ∈ past, e.judgement = .waiting → g.logical.get? (logicalKey e.op) = some e.opId

theorem remembers_nil (g : Guard) (now : ℚ) : Remembers g [] now where
  seen := fun _ h => by cases h
  ended := fun _ h => by cases h
  invalid := fun _ h => by cases h
  expired := fun _ h => by cases h
  waiting := fun _ h => by cases h

variable {g : Guard} {past : List Judged}

theorem Remembers.later {now now' : ℚ} (h : Remembers g past now) (hle : now ≤ now') :
    Remembers g past now' := by
  refine ⟨h.seen,h.ended,h.invalid,?_,h.waiting⟩
  intro e he hx
  obtain ⟨deadline,hd,hdle⟩ := h.expired e he hx
  exact ⟨deadline,hd,hdle.trans hle⟩

variable {g' : Guard} {e : Judged}

theorem Remembers.judge (h : Remembers g past e.call.now)
    (hj : Judging g e.call e.opId e.op g' e.judgement) : Remembers g' (past ++ [e]) e.call.now := by
  have hsplit : ∀ {x : Judged}, x ∈ past ++ [e] → x ∈ past ∨ x = e := by
    intro x hx
    simpa using hx
  constructor
  · intro x hx
    rcases hsplit hx with hx | rfl
    · obtain ⟨first,hf,hmut⟩ := h.seen x hx
      refine ⟨first,hj.seen_mono _ _ hf,?_⟩
      intro hne
      rcases hmut hne with hm | hm
      · exact .inl (hj.ended_mono _ hm)
      · exact .inr (hj.invalid_mono _ hm)
    · obtain ⟨first,hf,hmut⟩ := hj.seen
      refine ⟨first,hf,?_⟩
      intro hne
      rcases hmut hne with hm | hm
      · exact .inl (hj.ended hm)
      · exact .inr (hj.invalid hm)
  · intro x hx hxj
    rcases hsplit hx with hx | rfl
    · exact hj.ended_mono _ (h.ended x hx hxj)
    · exact hj.ended hxj
  · intro x hx hxj
    rcases hsplit hx with hx | rfl
    · exact hj.invalid_mono _ (h.invalid x hx hxj)
    · exact hj.invalid hxj
  · intro x hx hxj
    rcases hsplit hx with hx | rfl
    · exact h.expired x hx hxj
    · exact hj.expired hxj
  · intro x hx hxj
    rcases hsplit hx with hx | rfl
    · exact hj.logical_mono _ _ (h.waiting x hx hxj)
    · exact (hj.waiting hxj).2.2.1

def GivenUp (j : Judgement) : Prop := j = .invalid ∨ j = .ended ∨ j = .expired

/-- A later judgement of an operation that was given up or changed is never a wait. -/
def Final (earlier later : Judged) : Prop :=
  earlier.opId = later.opId → GivenUp earlier.judgement ∨ frozen earlier.op ≠ frozen later.op →
    later.judgement ≠ .waiting

def SameLease (a b : Judged) : Prop :=
  a.judgement = .waiting → b.judgement = .waiting → logicalKey a.op = logicalKey b.op → a.opId = b.opId

variable {op' : Fields}

theorem field_of_frozen (h : frozen op = frozen op') {s : Scalar}
    (hs : field op "deadline" = .scalar s) (hnull : s ≠ .null) : field op' "deadline" = .scalar s := by
  have hfilter : ∀ fields : Fields, (fields.filter fun e => e.1 ≠ "status").lookup "deadline" = fields.lookup "deadline" := by
    intro fields
    induction fields with
    | nil => rfl
    | cons e rest ih =>
      obtain ⟨k,v⟩ := e
      by_cases hk : k = "status"
      · subst hk
        rw [List.filter_cons_of_neg (by simp),ih,Dict.lookup_cons_ite,if_neg (by decide)]
      · rw [List.filter_cons_of_pos (by simpa using hk),Dict.lookup_cons_ite,Dict.lookup_cons_ite,ih]
  have hop : (op.filter fun e => e.1 ≠ "status").lookup "deadline" = some (.scalar s) := by
    rw [hfilter]
    unfold field at hs
    cases hl : op.lookup "deadline" with
    | none =>
      rw [hl] at hs
      cases hs
      exact absurd rfl hnull
    | some v =>
      rw [hl] at hs
      exact congrArg some hs
  have hop' := Json.lookup_of_dumps h hop
  rw [hfilter] at hop'
  rw [field,hop']
  rfl

theorem finite_of_frozen (h : frozen op = frozen op')
    (hd : finite (field op "deadline") = .ok (some deadline)) : finite (field op' "deadline") = .ok (some deadline) := by
  cases hf : field op "deadline" with
  | scalar s =>
    have hnull : s ≠ .null := by
      intro hs
      rw [hf,hs] at hd
      simp [finite] at hd
    rw [field_of_frozen h hf hnull,← hf]
    exact hd
  | arr xs =>
    rw [hf] at hd
    simp [finite] at hd
  | obj fs =>
    rw [hf] at hd
    simp [finite] at hd

theorem Remembers.final {x : Judged} (h : Remembers g past e.call.now)
    (hj : Judging g e.call e.opId e.op g' e.judgement) (hx : x ∈ past) : Final x e ∧ SameLease x e := by
  constructor
  · intro hid hgone hwait
    obtain ⟨hend,hinv,-,hbounded⟩ := hj.waiting hwait
    rw [← hid] at hend hinv
    -- both judgements saw the operation as it was first seen
    obtain ⟨first,hfirst,hmut⟩ := h.seen x hx
    have hxfirst : frozen x.op = first := by
      by_contra hne
      rcases hmut hne with hm | hm
      · exact hend hm
      · exact hinv hm
    obtain ⟨first',hfirst',hmut'⟩ := hj.seen
    have hefirst : frozen e.op = first' := by
      by_contra hne
      rcases hmut' hne with hm | hm
      · rw [hwait] at hm
        cases hm
      · rw [hwait] at hm
        cases hm
    have hsame : first = first' := by
      have hkeep := hj.seen_mono _ _ hfirst
      rw [hid,hfirst'] at hkeep
      exact (Option.some.inj hkeep).symm
    have hfrozen : frozen x.op = frozen e.op := by rw [hxfirst,hsame,hefirst]
    rcases hgone with (hgone | hgone | hgone) | hgone
    · exact hinv (h.invalid x hx hgone)
    · exact hend (h.ended x hx hgone)
    · obtain ⟨deadline,hd,hle⟩ := h.expired x hx hgone
      obtain ⟨started,deadline',-,hd',-,-,hlt,-⟩ := hbounded.times
      have hd'' := finite_of_frozen hfrozen hd
      rw [hd'] at hd''
      cases hd''
      exact absurd hlt (not_lt.mpr hle)
    · exact hgone hfrozen
  · intro hxw hew hkey
    have hold := hj.logical_mono _ _ (h.waiting x hx hxw)
    rw [hkey,(hj.waiting hew).2.2.1] at hold
    exact (Option.some.inj hold).symm

structure Sound (g : Guard) (past : List Judged) (now : ℚ) : Prop where
  remembers : Remembers g past now
  ordered : past.Pairwise fun x e => Final x e ∧ SameLease x e
  bounded : ∀ e ∈ past, e.judgement = .waiting → Bounded e.call e.op

theorem Sound.judge (h : Sound g past e.call.now)
    (hj : Judging g e.call e.opId e.op g' e.judgement) : Sound g' (past ++ [e]) e.call.now where
  remembers := h.remembers.judge hj
  ordered := by
    apply List.pairwise_append.mpr
    refine ⟨h.ordered,List.pairwise_singleton _ e,?_⟩
    intro x hx y hy
    rw [List.mem_singleton.mp hy]
    exact h.remembers.final hj hx
  bounded := by
    intro x hx hwait
    rcases List.mem_append.mp hx with hx | hx
    · exact h.bounded x hx hwait
    · rw [List.mem_singleton.mp hx] at hwait ⊢
      exact (hj.waiting hwait).2.2.2

theorem sound_sweep (call : Call) (operations : List (String × Json)) (g : Guard) (past : List Judged)
    (h : Sound g past call.now) :
    Sound (sweep call g operations).1 (past ++ (sweep call g operations).2.map fun e => ⟨e,call⟩) call.now := by
  induction operations generalizing g past with
  | nil => simpa [sweep] using h
  | cons entry rest ih =>
    obtain ⟨opId,value⟩ := entry
    cases value with
    | scalar s => exact ih g past h
    | arr xs => exact ih g past h
    | obj op =>
      have hj := judge_spec g call opId op
      unfold sweep
      cases hjudge : judge g call opId op with
      | mk g' j =>
        rw [hjudge] at hj
        have hone := h.judge (e := ⟨⟨opId,op,j⟩,call⟩) hj
        have hmore : Sound (sweep call g' rest).1
            (past ++ (⟨⟨opId,op,j⟩,call⟩ : Judged) :: (sweep call g' rest).2.map fun e => ⟨e,call⟩) call.now := by
          have := ih g' _ hone
          simpa using this
        cases j with
        | expired => exact hone
        | raised => exact hone
        | ended => exact hmore
        | invalid => exact hmore
        | waiting => exact hmore

theorem sound_inspect (call : Call) (g : Guard) (past : List Judged) (h : Sound g past call.now) :
    Sound (inspect g call).1 (past ++ (inspect g call).2.map fun e => ⟨e,call⟩) call.now := by
  unfold inspect
  split
  · simpa using h
  · split
    · exact sound_sweep call _ g past h
    · simpa using h

theorem sound_history (calls : List Call) (g : Guard) (past : List Judged) (now : ℚ) (h : Sound g past now)
    (hnow : ∀ call ∈ calls, now ≤ call.now) (horder : calls.Pairwise fun a b => a.now ≤ b.now) :
    (past ++ history g calls).Pairwise (fun x e => Final x e ∧ SameLease x e) ∧
      ∀ e ∈ past ++ history g calls, e.judgement = .waiting → Bounded e.call e.op := by
  induction calls generalizing g past now with
  | nil =>
    rw [history,List.append_nil]
    exact ⟨h.ordered,h.bounded⟩
  | cons call calls ih =>
    obtain ⟨hhead,htail⟩ := List.pairwise_cons.mp horder
    have hlater : Sound g past call.now :=
      ⟨h.remembers.later (hnow call List.mem_cons_self),h.ordered,h.bounded⟩
    have hnext := ih _ _ call.now (sound_inspect call g past hlater) hhead htail
    rw [history,← List.append_assoc]
    exact hnext

theorem verdict_waiting {entries : List Entry} (h : verdict entries = .waitingBounded op) :
    (∃ e ∈ entries, e.judgement = .waiting ∧ e.op = op) ∧ ∀ e ∈ entries, e.judgement = .waiting → deadlineOf
    op ≤ deadlineOf e.op := by
  unfold verdict at h
  split at h
  · cases h
  · cases h
  · split at h
    · rename_i first hmin
      cases h
      have hmem := List.argmin_mem hmin
      obtain ⟨e,he,hop⟩ := List.mem_map.mp hmem
      obtain ⟨hin,hwait⟩ := List.mem_filter.mp he
      refine ⟨⟨e,hin,by simpa using hwait,hop⟩,?_⟩
      intro e' he' hwait'
      exact List.le_of_mem_argmin (List.mem_map_of_mem (List.mem_filter.mpr ⟨he',by simpa using hwait'⟩)) hmin
    · cases h

/-- For every sequence of inspections with non-decreasing times: an operation that was
judged invalid, ended or expired, or was seen changed, is not waited for again; waits
for one logical operation carry one operation id; and whatever is waited for lies before
its deadline, which is within the overall deadline and, up to the rounding tolerance,
the cap of its phase. -/
theorem waits_bounded (calls : List Call) (horder : calls.Pairwise fun a b => a.now ≤ b.now) :
    (history {} calls).Pairwise (fun x e => Final x e ∧ SameLease x e) ∧
      (∀ e ∈ history {} calls, e.judgement = .waiting → Bounded e.call e.op) ∧
      ∀ g call op, verdict (inspect g call).2 = .waitingBounded op →
        ∃ e ∈ (inspect g call).2, e.judgement = .waiting ∧ e.op = op := by
  obtain ⟨hordered,hbounded⟩ : (history {} calls).Pairwise (fun x e => Final x e ∧ SameLease x e) ∧
      ∀ e ∈ history {} calls, e.judgement = .waiting → Bounded e.call e.op := by
    cases calls with
    | nil => exact ⟨List.Pairwise.nil,fun _ h => by cases h⟩
    | cons call calls =>
      have hstart : Sound {} [] call.now := ⟨remembers_nil _ _,List.Pairwise.nil,fun _ h => by cases h⟩
      have hall := sound_history (call :: calls) {} [] call.now hstart ?_ horder
      · exact hall
      · intro c hc
        rcases List.mem_cons.mp hc with rfl | hc
        · exact le_rfl
        · exact (List.pairwise_cons.mp horder).1 c hc
  exact ⟨hordered,hbounded,fun g call op h => (verdict_waiting h).1⟩

def leaseState (opId : String) (deadline : ℚ) : Fields :=
  let owner : Fields := [("boot",.str "b"),("pgid",.int 7),("pid",.int 7),("sid",.int 7),("start",.int 3)]
  [("active",.bool true),("token",.str "t"),("operations",.obj [(opId,.obj [("attempt_id",.str "node-a1"),
    ("deadline",.float deadline),("id",.str opId),("owner",.obj owner),("phase",.str "worker"),("started",.int 0),
    ("status",.str "active"),("token",.str "t")])])]

def leaseCall (opId : String) (deadline now : ℚ) : Call :=
  ⟨leaseState opId deadline,"t",some ⟨7,"b",3,7,7⟩,now,3600⟩

theorem waits_bounded_republished :
    (history {} [leaseCall "a" 600 1,leaseCall "a" 600 600,leaseCall "a" 900 601,leaseCall "b" 900 602]).map
        (fun e => e.judgement) = [.waiting,.expired,.invalid,.invalid] ∧
      (history {} [leaseCall "a" 600 1,leaseCall "a" 600 600,leaseCall "a" 900 601,leaseCall "b" 900 602]).Pairwise
        (fun x e => Final x e ∧ SameLease x e) := by
  refine ⟨by decide +kernel,(waits_bounded _ ?_).1⟩
  simp only [leaseCall,List.pairwise_cons,List.mem_cons,List.not_mem_nil,or_false]
  norm_num

/-- The rounding tolerance accepts a deadline half a microsecond behind the cap. -/
theorem tolerated_deadline_beyond_cap : ∃ e ∈ history {} [leaseCall "a" (900 + 1 / 2000000) 1], e.judgement
    = .waiting ∧ finite (field e.op "started") = .ok (some 0) ∧ ¬ deadlineOf e.op ≤ 0 + cap e.op := by
  decide +kernel

end Verdict.Supervisor.LeaseGuard

import Verdict.Basics.JsonNumeral
import Verdict.Contracts.WorkGraph
import Verdict.Supervisor.LeaseGuard

/-! # Published operations and the guard that reads them

`operation_scope` publishes what a controller waits for; a node attempt is published
under an id that embeds the node id. The guard parses that id back. The two sides are
compared here, for the leases of every node of every validated graph.
-/
namespace Verdict.Supervisor.LeaseGuard

structure Controller where
  token : String
  identity : Identity
  processState : String
  deadline : ℚ

inductive ScopeError
  | identity | deadlineSpent
  deriving DecidableEq

/-- The `owner` that `process_identity` prints. -/
def Identity.fields (i : Identity) (processState : String) : Fields :=
  [("pid",.int i.pid),("boot",.str i.boot),("start",.int i.start),("pgid",.int i.pgid),("sid",.int i.sid),
    ("state",.str processState)]

def published (c : Controller) (opId phase attemptId : String) (started deadline : ℚ) : Fields :=
  [("id",.str opId),("token",.str c.token),("phase",.str phase),("attempt_id",.str attemptId),
    ("owner",.obj (c.identity.fields c.processState)),("started",.float started),("deadline",.float deadline),
    ("status",.str "active")]

/-- `operation_scope`, up to the wait. -/
def operationScope (c : Controller) (opId phase attemptId : String) (timeout started : ℚ) :
    Except ScopeError Fields :=
  if timeout ≤ 0 ∨ phase = "" ∨ attemptId = "" then .error .identity
  else
    let deadline := min (started + timeout) c.deadline
    if deadline ≤ started then .error .deadlineSpent
    else .ok (published c opId phase attemptId started deadline)

variable (nodeId : String)

/-- `f"{node_id}-a{attempt}"` -/
def attemptId (attempt : ℕ) : String := nodeId ++ "-a" ++ toString attempt

/-- The operation that `DagRuntime._execute` publishes. -/
def executeLease (c : Controller) (opId nodeId : String) (attempt : ℕ) (attemptTimeout started : ℚ) :
    Except ScopeError Fields :=
  operationScope c opId "worker" (attemptId nodeId attempt) (min attemptTimeout 900) started

theorem isDigit_of_toDigits {n : ℕ} {c : Char} (h : c ∈ Nat.toDigits 10 n) : isDigit c = true := by
  have hd := Nat.isDigit_of_mem_toDigits (by decide) (by decide) h
  simp only [Char.isDigit,Bool.and_eq_true,decide_eq_true_eq] at hd
  exact decide_eq_true hd

theorem isNumeral_toDigits {n : ℕ} (hn : 0 < n) : isNumeral (Nat.toDigits 10 n) = true := by
  obtain ⟨c,hc⟩ := Option.isSome_iff_exists.mp (List.isSome_head?.mpr (@Nat.toDigits_ne_nil n 10))
  have hne : c ≠ '0' := fun hzero => hn.ne' (JsonNumeral.head_toDigits n (hzero ▸ hc))
  unfold isNumeral
  rw [hc,Bool.and_eq_true,List.all_eq_true]
  exact ⟨fun d hd => isDigit_of_toDigits hd,by simpa using hne⟩

theorem attemptId_split (attempt : ℕ) :
    ((attemptId nodeId attempt).toList.reverse.takeWhile isDigit).reverse = Nat.toDigits 10 attempt ∧
    (attemptId nodeId attempt).toList.reverse.dropWhile isDigit = 'a' :: '-' :: nodeId.toList.reverse := by
  have hdigits : ∀ c ∈ (Nat.toDigits 10 attempt).reverse, isDigit c = true := by
    intro c hc
    exact isDigit_of_toDigits (List.mem_reverse.mp hc)
  have hrev : (attemptId nodeId attempt).toList.reverse =
      (Nat.toDigits 10 attempt).reverse ++ 'a' :: '-' :: nodeId.toList.reverse := by
    have hnum : (toString attempt).toList = Nat.toDigits 10 attempt := by
      rw [Nat.toString_eq_ofList_toDigits,String.toList_ofList]
    rw [attemptId,String.toList_append,String.toList_append,hnum,List.reverse_append,List.reverse_append]
    rfl
  constructor
  · rw [hrev,List.takeWhile_append_of_pos hdigits,List.takeWhile_cons_of_neg (by decide),List.append_nil,
      List.reverse_reverse]
  · rw [hrev,List.dropWhile_append_of_pos hdigits,List.dropWhile_cons_of_neg (by decide)]

theorem workerAttempt_attemptId {attempt : ℕ} (h : 0 < attempt) :
    workerAttempt (attemptId nodeId attempt) = isName nodeId.toList := by
  obtain ⟨htake,hdrop⟩ := attemptId_split nodeId attempt
  unfold workerAttempt
  rw [htake,hdrop]
  change (isName nodeId.toList.reverse.reverse && isNumeral (Nat.toDigits 10 attempt)) = isName nodeId.toList
  rw [List.reverse_reverse,isNumeral_toDigits h,Bool.and_true]

theorem validAttempt_worker (attempt : String) : validAttempt "worker" attempt = workerAttempt attempt := by
  unfold validAttempt
  cases planAttempt attempt <;> simp

section
variable (c : Controller) (opId phase attempt : String) (started deadline : ℚ)

@[simp] theorem published_id : field (published c opId phase attempt started deadline) "id" = .str opId := rfl
@[simp] theorem published_token : field (published c opId phase attempt started deadline) "token" = .str c.token := rfl
@[simp] theorem published_phase : field (published c opId phase attempt started deadline) "phase" = .str phase := rfl
@[simp] theorem published_attempt :
    field (published c opId phase attempt started deadline) "attempt_id" = .str attempt := rfl
@[simp] theorem published_owner : field (published c opId phase attempt started deadline) "owner" =
    .obj (c.identity.fields c.processState) := rfl
@[simp] theorem published_started :
    field (published c opId phase attempt started deadline) "started" = .float started := rfl
@[simp] theorem published_deadline :
    field (published c opId phase attempt started deadline) "deadline" = .float deadline := rfl
@[simp] theorem published_status :
    field (published c opId phase attempt started deadline) "status" = .str "active" := rfl

end

theorem sameProcess_fields (i : Identity) (processState : String) : sameProcess (i.fields processState) i = true := by
  have hpid : field (i.fields processState) "pid" = .int i.pid := rfl
  have hboot : field (i.fields processState) "boot" = .str i.boot := rfl
  have hstart : field (i.fields processState) "start" = .int i.start := rfl
  have hpgid : field (i.fields processState) "pgid" = .int i.pgid := rfl
  have hsid : field (i.fields processState) "sid" = .int i.sid := rfl
  simp [sameProcess,hpid,hboot,hstart,hpgid,hsid,equalsInt]

/-- The inspection is about the controller that published, between start and deadline. -/
structure Inspects (c : Controller) (started deadline : ℚ) (call : Call) : Prop where
  token : call.token = c.token
  owner : call.owner = some c.identity
  overall : call.overallDeadline = c.deadline
  from_start : started ≤ call.now
  before_deadline : call.now < deadline

/-- The bounds that `operation_scope` publishes an operation with. -/
theorem operationScope_ok {c : Controller} {opId phase attempt : String} {timeout started : ℚ} {op : Fields}
    (h : operationScope c opId phase attempt timeout started = .ok op) : ∃ deadline, op = published c opId
    phase attempt started deadline ∧ started < deadline ∧ deadline ≤ started + timeout ∧ deadline ≤
    c.deadline ∧ attempt ≠ "" := by
  unfold operationScope at h
  split at h
  · cases h
  rename_i hargs
  simp only [not_or] at hargs
  dsimp only at h
  split at h
  · cases h
  rename_i hlate
  cases h
  exact ⟨_,rfl,lt_of_not_ge hlate,min_le_left _ _,min_le_right _ _,hargs.2.2⟩

section Judged
variable {c : Controller} {opId attempt : String} {started deadline : ℚ} {call : Call}

theorem wellFormed_published (hin : Inspects c started deadline call) (hattempt : attempt ≠ "") :
    wellFormed call opId (published c opId "worker" attempt started deadline) = workerAttempt attempt := by
  have hcap : (phaseCaps.lookup "worker").isSome = true := by decide
  unfold wellFormed
  rw [published_phase,published_attempt,published_owner,hin.owner]
  simp [validAttempt_worker,hin.token,hattempt,sameProcess_fields,hcap,isNumber]

theorem times_published (hin : Inspects c started deadline call) (hclock : 0 ≤ started) (hlate : started < deadline)
    (hcap : deadline ≤ started + 900) (hover : deadline ≤ c.deadline) :
    times call (published c opId "worker" attempt started deadline) = .ok (some deadline) := by
  have hcaps : cap (published c opId "worker" attempt started deadline) = 900 := by
    rw [cap,published_phase]
    rfl
  have hbounds : withinBounds call 900 started deadline = true := by
    unfold withinBounds
    rw [hin.overall]
    apply decide_eq_true
    refine ⟨hclock,hin.from_start,hlate,hover,?_⟩
    linarith
  unfold times
  rw [published_started,published_deadline,hcaps]
  simp [finite,hbounds]

structure Ready (g : Guard) (opId : String) (op : Fields) : Prop where
  seen : ∀ f, g.seen.get? opId = some f → f = frozen op
  logical : ∀ i, g.logical.get? (logicalKey op) = some i → i = opId
  not_ended : opId ∉ g.ended
  not_invalid : opId ∉ g.invalid

theorem ready_initial (opId : String) (op : Fields) : Ready {} opId op where
  seen := fun _ h => by cases h
  logical := fun _ h => by cases h
  not_ended := by simp
  not_invalid := by simp

theorem setDefault_eq {κ α : Type} [DecidableEq κ] {d : Dict κ α} {k : κ} {a : α}
    (h : ∀ b, d.get? k = some b → b = a) : (setDefault d k a).1 = a := by
  cases hk : d.get? k with
  | none => exact setDefault_fresh d k a hk
  | some b =>
    have hb := h b hk
    rw [setDefault,hk,hb]

theorem setDefault_other {κ α : Type} [DecidableEq κ] {d : Dict κ α} {k j : κ} {a : α} (hne : j ≠ k) :
    (setDefault d k a).2.get? j = d.get? j := by
  unfold setDefault
  cases d.get? k with
  | none => exact Dict.get?_set_ne d a hne
  | some known => rfl

theorem judge_published {g : Guard} (hin : Inspects c started deadline call) (hclock : 0 ≤ started)
    (hlate : started < deadline) (hcap : deadline ≤ started + 900) (hover : deadline ≤ c.deadline)
    (hattempt : attempt ≠ "") (hr : Ready g opId (published c opId "worker" attempt started deadline)) :
    (judge g call opId (published c opId "worker" attempt started deadline)).2 =
        (if workerAttempt attempt then .waiting else .invalid) ∧
      (workerAttempt attempt = true → Ready (judge g call opId (published c opId "worker" attempt started deadline)).1
        opId (published c opId "worker" attempt started deadline)) := by
  have hseen := setDefault_eq hr.seen
  have hlog := setDefault_eq hr.logical
  have hseen' := setDefault_self g.seen opId (frozen (published c opId "worker" attempt started deadline))
  have hlog' := setDefault_self g.logical (logicalKey (published c opId "worker" attempt started deadline)) opId
  have htimes : times call (published c opId "worker" attempt started deadline) = .ok (some deadline) :=
    times_published hin hclock hlate hcap hover
  have hform : wellFormed call opId (published c opId "worker" attempt started deadline) = workerAttempt attempt :=
    wellFormed_published hin hattempt
  rw [hseen] at hseen'
  rw [hlog] at hlog'
  unfold judge
  dsimp only
  rw [hseen,hlog,hform,if_neg (by simp)]
  cases hw : workerAttempt attempt with
  | false => simp
  | true =>
    rw [if_neg (by simp [hr.not_ended,hr.not_invalid]),htimes]
    dsimp only
    rw [if_neg (not_le.mpr hin.before_deadline)]
    refine ⟨rfl,fun _ => ⟨?_,?_,hr.not_ended,hr.not_invalid⟩⟩
    · intro f hf
      exact Option.some.inj (hf.symm.trans hseen')
    · intro i hi
      exact Option.some.inj (hi.symm.trans hlog')

theorem Ready.judge_other {g : Guard} {opId id : String} {op other : Fields} (hr : Ready g opId op) (call : Call)
    (hid : id ≠ opId) (hkey : logicalKey other ≠ logicalKey op) : Ready (judge g call id other).1 opId op := by
  have hseen : (setDefault g.seen id (frozen other)).2.get? opId = g.seen.get? opId := setDefault_other (Ne.symm hid)
  have hlog : (setDefault g.logical (logicalKey other) id).2.get? (logicalKey op) = g.logical.get? (logicalKey op) :=
    setDefault_other (Ne.symm hkey)
  have hcons : ∀ {l : List String}, opId ∉ l → opId ∉ id :: l := by
    intro l hl hm
    rcases List.mem_cons.mp hm with h | h
    · exact hid h.symm
    · exact hl h
  have hbase : ∀ {ended invalid : List String}, opId ∉ ended → opId ∉ invalid → Ready
      ⟨(setDefault g.seen id (frozen other)).2,ended,invalid,(setDefault g.logical (logicalKey other) id).2⟩ opId op := by
    intro ended invalid hend hinv
    exact ⟨by rw [hseen]; exact hr.seen,by rw [hlog]; exact hr.logical,hend,hinv⟩
  unfold judge
  dsimp only
  split
  · exact hbase (hcons hr.not_ended) hr.not_invalid
  split
  · exact hbase hr.not_ended (hcons hr.not_invalid)
  split
  · exact hbase hr.not_ended hr.not_invalid
  · exact hbase hr.not_ended (hcons hr.not_invalid)
  · split
    · exact hbase hr.not_ended hr.not_invalid
    · exact hbase hr.not_ended hr.not_invalid

end Judged

def operationsOf (state : Fields) : List (String × Json) := match field state "operations" with
  | .obj operations => (Dict.ofList operations).entries
  | _ => []

/-- Inspections while the published operation stands: whatever else is published is
another logical operation under another id. -/
def Honest (c : Controller) (opId : String) (op : Fields) (started deadline : ℚ) (calls : List Call) : Prop :=
  ∀ call ∈ calls, Inspects c started deadline call ∧ ∀ e ∈ operationsOf call.state,
    (e.1 = opId → e.2 = .obj op) ∧ (e.1 ≠ opId → ∀ other, e.2 = .obj other → logicalKey other ≠ logicalKey op)

section
variable {c : Controller} {opId attempt : String} {started deadline : ℚ} (hclock : 0 ≤ started)
  (hlate : started < deadline) (hcap : deadline ≤ started + 900) (hover : deadline ≤ c.deadline)
  (hattempt : attempt ≠ "") (hw : workerAttempt attempt = true)
include hclock hlate hcap hover hattempt hw

theorem sweep_published {call : Call} (hin : Inspects c started deadline call) (operations : List (String × Json))
    (hops : ∀ e ∈ operations, (e.1 = opId → e.2 = .obj (published c opId "worker" attempt started deadline)) ∧
      (e.1 ≠ opId → ∀ other, e.2 = .obj other →
        logicalKey other ≠ logicalKey (published c opId "worker" attempt started deadline)))
    (g : Guard) (hr : Ready g opId (published c opId "worker" attempt started deadline)) :
    Ready (sweep call g operations).1 opId (published c opId "worker" attempt started deadline) ∧
      ∀ e ∈ (sweep call g operations).2, e.opId = opId → e.judgement = .waiting := by
  induction operations generalizing g with
  | nil => exact ⟨hr,fun _ h => by cases h⟩
  | cons entry rest ih =>
    obtain ⟨id,value⟩ := entry
    obtain ⟨hsame,hother⟩ := hops (id,value) List.mem_cons_self
    have hrest := fun g hr => ih (fun e he => hops e (List.mem_cons_of_mem _ he)) g hr
    cases value with
    | scalar s => exact hrest g hr
    | arr xs => exact hrest g hr
    | obj fields =>
      -- the judgement of this entry, and that the guard stays ready behind it
      have hone : Ready (judge g call id fields).1 opId (published c opId "worker" attempt started deadline) ∧
          (id = opId → (judge g call id fields).2 = .waiting) := by
        by_cases hid : id = opId
        · subst hid
          cases hsame rfl
          obtain ⟨hj,hnext⟩ := judge_published hin hclock hlate hcap hover hattempt hr
          rw [if_pos hw] at hj
          exact ⟨hnext hw,fun _ => hj⟩
        · exact ⟨hr.judge_other call hid (hother hid fields rfl),fun h => absurd h hid⟩
      unfold sweep
      cases hjudge : judge g call id fields with
      | mk g' j =>
        rw [hjudge] at hone
        obtain ⟨hready,hwait⟩ := hone
        obtain ⟨hnext,hentries⟩ := hrest g' hready
        have hlast : ∀ e ∈ [(⟨id,fields,j⟩ : Entry)], e.opId = opId → e.judgement = .waiting := by
          intro e he hid
          rw [List.mem_singleton.mp he] at hid ⊢
          exact hwait hid
        have hmore : ∀ e ∈ (⟨id,fields,j⟩ : Entry) :: (sweep call g' rest).2, e.opId = opId → e.judgement = .waiting := by
          intro e he hid
          rcases List.mem_cons.mp he with rfl | he
          · exact hwait hid
          · exact hentries e he hid
        cases j with
        | expired => exact ⟨hready,hlast⟩
        | raised => exact ⟨hready,hlast⟩
        | ended => exact ⟨hnext,hmore⟩
        | invalid => exact ⟨hnext,hmore⟩
        | waiting => exact ⟨hnext,hmore⟩

theorem history_published (calls : List Call)
    (hcalls : Honest c opId (published c opId "worker" attempt started deadline) started deadline calls) (g : Guard)
    (hr : Ready g opId (published c opId "worker" attempt started deadline)) :
    ∀ e ∈ history g calls, e.opId = opId → e.judgement = .waiting := by
  induction calls generalizing g with
  | nil => intro e he; cases he
  | cons call calls ih =>
    obtain ⟨hin,hops⟩ := hcalls call List.mem_cons_self
    have hinspect : Ready (inspect g call).1 opId (published c opId "worker" attempt started deadline) ∧
        ∀ e ∈ (inspect g call).2, e.opId = opId → e.judgement = .waiting := by
      unfold inspect
      split
      · exact ⟨hr,fun _ h => by cases h⟩
      · split
        · rename_i operations hfield
          unfold operationsOf at hops
          rw [hfield] at hops
          exact sweep_published hclock hlate hcap hover hattempt hw hin _ hops g hr
        · exact ⟨hr,fun _ h => by cases h⟩
    intro e he hid
    rw [history] at he
    rcases List.mem_append.mp he with he | he
    · obtain ⟨x,hx,rfl⟩ := List.mem_map.mp he
      exact hinspect.2 x hx hid
    · exact ih (fun call hc => hcalls call (List.mem_cons_of_mem _ hc)) _ hinspect.1 e he hid

end

def soleState (c : Controller) (opId : String) (op : Fields) : Fields :=
  [("active",.bool true),("token",.str c.token),("operations",.obj [(opId,.obj op)])]

def soleCall (c : Controller) (opId : String) (op : Fields) (now : ℚ) : Call :=
  ⟨soleState c opId op,c.token,some c.identity,now,c.deadline⟩

theorem history_sole (c : Controller) (opId : String) (op : Fields) (now : ℚ) : history {}
    [soleCall c opId op now] =
    [⟨⟨opId,op,(judge {} (soleCall c opId op now) opId op).2⟩,soleCall c opId op now⟩] := by
  have hactive : field (soleCall c opId op now).state "active" = .bool true := rfl
  have htoken : field (soleCall c opId op now).state "token" = .str c.token := rfl
  have hops : field (soleCall c opId op now).state "operations" = .obj [(opId,.obj op)] := rfl
  have hentries : (Dict.ofList [(opId,Json.obj op)]).entries = [(opId,.obj op)] := rfl
  have hin : inspect {} (soleCall c opId op now) = sweep (soleCall c opId op now) {} [(opId,.obj op)] := by
    unfold inspect
    rw [hactive,htoken,hops]
    simp [soleCall,hentries]
  have hsweep : (sweep (soleCall c opId op now) {} [(opId,.obj op)]).2 =
      [⟨opId,op,(judge {} (soleCall c opId op now) opId op).2⟩] := by
    unfold sweep
    cases judge {} (soleCall c opId op now) opId op with
    | mk g j => cases j <;> rfl
  simp [history,hin,hsweep]

/-- The lease of an executed attempt is judged valid in every inspection from its start to
its deadline if and only if the node id is a name the guard can read back. -/
theorem executed_lease_accepted_iff (graph : WorkGraph) (node : WorkNode) (_ : node ∈ graph.nodes) (attempt : ℕ)
    (hattempt : 0 < attempt) (c : Controller) (opId : String) (attemptTimeout started : ℚ) (hclock : 0 ≤ started)
    (op : Fields) (h : executeLease c opId node.nodeId attempt attemptTimeout started = .ok op) :
    (∀ calls, Honest c opId op started (deadlineOf op) calls →
        ∀ e ∈ history {} calls, e.opId = opId → e.judgement = .waiting) ↔
      isName node.nodeId.toList = true := by
  obtain ⟨deadline,rfl,hlate,htimeout,hover,hne⟩ := operationScope_ok h
  have hcap : deadline ≤ started + 900 := htimeout.trans (by linarith [min_le_right attemptTimeout (900 : ℚ)])
  have hdeadline : deadlineOf (published c opId "worker" (attemptId node.nodeId attempt) started deadline) = deadline := by
    rw [deadlineOf,published_deadline]
    rfl
  rw [hdeadline,← workerAttempt_attemptId node.nodeId hattempt]
  constructor
  · intro hall
    have hin : Inspects c started deadline
        (soleCall c opId (published c opId "worker" (attemptId node.nodeId attempt) started deadline) started) :=
      ⟨rfl,rfl,rfl,le_rfl,hlate⟩
    obtain ⟨hj,-⟩ := judge_published hin hclock hlate hcap hover hne (ready_initial opId _)
    have hwait := hall [soleCall c opId (published c opId "worker" (attemptId node.nodeId attempt) started deadline)
      started] ?_ _ (by rw [history_sole]; exact List.mem_singleton_self _) rfl
    · dsimp only at hwait
      rw [hj] at hwait
      by_contra hw
      rw [if_neg hw] at hwait
      cases hwait
    · intro call hc
      rw [List.mem_singleton.mp hc]
      refine ⟨hin,?_⟩
      intro e he
      have he : e ∈ [(opId,Json.obj (published c opId "worker" (attemptId node.nodeId attempt) started deadline))] := he
      rw [List.mem_singleton.mp he]
      exact ⟨fun _ => rfl,fun hne => absurd rfl hne⟩
  · intro hw calls hcalls
    exact history_published hclock hlate hcap hover hne hw calls hcalls {} (ready_initial opId _)

def sampleController : Controller := ⟨"t",⟨7,"b",3,7,7⟩,"S",3600⟩

def setupNode : WorkNode where
  nodeId := "setup"
  objective := "write setup.py"
  ownedFiles := ["setup.py"]
  verificationCommand := ["pytest"]
  contextNormal := WorkNode.normal_nil
  implementVerifies := WorkNode.verifies_pytest

def teardownNode : WorkNode where
  nodeId := "_teardown"
  objective := "write teardown.py"
  dependsOn := ["setup"]
  ownedFiles := ["teardown.py"]
  verificationCommand := ["pytest"]
  contextNormal := WorkNode.normal_nil
  implementVerifies := WorkNode.verifies_pytest

def setupGraph : WorkGraph where
  nodes := [setupNode,teardownNode]
  parallel := WorkGraph.parallel_default

def sampleLease : Fields := published sampleController "o" "worker" (attemptId nodeId 1) 5 905

theorem executed_lease_accepted_iff_setup : ∃ op, executeLease sampleController "o" "setup" 1 900 5 = .ok op
    ∧ ∀ calls, Honest sampleController "o" op 5 (deadlineOf op) calls → ∀ e ∈ history {} calls, e.opId = "o"
    → e.judgement = .waiting := by
  have h : executeLease sampleController "o" "setup" 1 900 5 = .ok (sampleLease "setup") := by decide +kernel
  exact ⟨_,h,(executed_lease_accepted_iff setupGraph setupNode (by simp [setupGraph]) 1 (by decide) sampleController
    "o" 900 5 (by norm_num) _ h).mpr (by decide +kernel)⟩

/-- A node id with a leading underscore is published but not accepted. -/
theorem underscore_lease_refused : teardownNode ∈ setupGraph.nodes ∧ ∃ op, executeLease sampleController "o"
    teardownNode.nodeId 1 900 5 = .ok op ∧ (history {} [soleCall sampleController "o" op 6]).map
    (fun e => e.judgement) = [.invalid] := by
  have h : executeLease sampleController "o" teardownNode.nodeId 1 900 5 = .ok (sampleLease teardownNode.nodeId) := by
    decide +kernel
  exact ⟨by simp [setupGraph],_,h,by decide +kernel⟩

end Verdict.Supervisor.LeaseGuard

import Verdict.Basics.PyJson
import Verdict.Basics.Raising
import Verdict.Basics.Run

/-! # The durable checkpoint

One file holds the checkpoint that was accepted last. A checkpoint of the issue that the file is
about may not fall behind it in the order of `STATES`; a checkpoint of another issue takes over
the list of completed issues from the file.
-/
namespace Verdict.Prime
open Json Raising
open Dict (put)

/-- `STATES`, in the order of the lifecycle. -/
def STATES : List String := ["READY","HYDRATED","IMPLEMENTING","LOCAL_VALIDATION","PROOF_COMPLETE","REVIEW_APPROVED","PR_OPEN",
  "CI_GREEN","MERGED","MAIN_VERIFIED","DONE"]

def CHECKPOINT_FIELDS : List String := ["schema_version","issue","project","team","state","worktree","branch","base_sha",
  "head_sha","attempt_id","provider","model","packet_path","receipt_path","proof_path","pr_url","merge_sha","main_sha",
  "last_progress_at","heartbeat_at","next_action","blockers","completed_issues","updated_at"]

inductive CheckpointError
  | missing (key : String)
  | schemaVersion
  | noIssue
  | unknownState (state : Json)
  | noNextAction
  | blockers
  | completedIssues
  | verifiedState
  | noProofDigest
  | regress (issue previous state : Json)

/-- The text of an error; `str` is Python's. -/
def CheckpointError.message (str : Json → String) : CheckpointError → String
  | .missing key => "checkpoint missing " ++ key
  | .schemaVersion => "checkpoint schema_version must be 1"
  | .noIssue => "checkpoint requires an issue"
  | .unknownState state => "unknown checkpoint state: " ++ str state
  | .noNextAction => "checkpoint requires an explicit next_action"
  | .blockers => "blockers must be a list"
  | .completedIssues => "completed_issues must be a list"
  | .verifiedState => "verified_state must be a lifecycle state"
  | .noProofDigest => "verified_state requires a proof_digest"
  | .regress issue previous state => "refusing to regress " ++ str issue ++ " from " ++ str previous ++ " to " ++ str state ++
      "; resume forward from the verified state"

/-- `value in STATES`. -/
def isState : Json → Bool
  | .str s => STATES.contains s
  | _ => false

/-- `STATES.index(value)`. -/
def rank : Json → ℕ
  | .str s => STATES.idxOf s
  | _ => STATES.length

def isList : Json → Bool
  | .arr _ => true
  | _ => false

def checkVerified (c : Fields) : Except CheckpointError Unit :=
  if get c "verified_state" = .null then .ok ()
  else do
    require (isState (get c "verified_state") = true) .verifiedState
    require ((get c "proof_digest").truthy = true) .noProofDigest

def validateCheckpoint (c : Fields) : Except CheckpointError Unit := do
  each (fun _ key => require ((c.lookup key).isSome = true) (.missing key)) 0 CHECKPOINT_FIELDS
  require (pyEq (get c "schema_version") (.int 1) = true) .schemaVersion
  require ((get c "issue").truthy = true) .noIssue
  require (isState (get c "state") = true) (.unknownState (get c "state"))
  require ((get c "next_action").truthy = true) .noNextAction
  require (isList (get c "blockers") = true) .blockers
  require (isList (get c "completed_issues") = true) .completedIssues
  checkVerified c

/-- What `validate_checkpoint` asks of a checkpoint. -/
structure Valid (c : Fields) : Prop where
  named : ∀ key ∈ CHECKPOINT_FIELDS, (c.lookup key).isSome = true
  version : pyEq (get c "schema_version") (.int 1) = true
  issue : (get c "issue").truthy = true
  state : isState (get c "state") = true
  nextAction : (get c "next_action").truthy = true
  blockers : isList (get c "blockers") = true
  completed : isList (get c "completed_issues") = true
  verified : get c "verified_state" = .null ∨ isState (get c "verified_state") = true ∧ (get c "proof_digest").truthy = true

variable {c : Fields}

theorem checkVerified_ok : checkVerified c = .ok () ↔
    get c "verified_state" = .null ∨ isState (get c "verified_state") = true ∧ (get c "proof_digest").truthy = true := by
  rw [checkVerified]
  split
  · next h => exact iff_of_true rfl (.inl h)
  · next h => rw [check_ok,require_ok,require_ok,or_iff_right h]

theorem validateCheckpoint_ok : validateCheckpoint c = .ok () ↔ Valid c := by
  rw [validateCheckpoint,check_ok,check_ok,check_ok,check_ok,check_ok,check_ok,check_ok,checkVerified_ok,each_all]
  simp only [require_ok]
  exact ⟨fun ⟨h1,h2,h3,h4,h5,h6,h7,h8⟩ => ⟨h1,h2,h3,h4,h5,h6,h7,h8⟩,fun ⟨h1,h2,h3,h4,h5,h6,h7,h8⟩ => ⟨h1,h2,h3,h4,h5,h6,h7,h8⟩⟩

/-- A checkpoint that `validate_checkpoint` accepts. -/
structure Checkpoint where
  fields : Fields
  valid : Valid fields

def sameIssue (a b : Fields) : Bool := pyEq (get a "issue") (get b "issue")

/-- `completed_issues` of a checkpoint that follows one of another issue. -/
def carriedOver (previous : Fields) : List Json :=
  let completed := (get previous "completed_issues").items
  if get previous "state" = .str "DONE" ∧ completed.any (fun issue => pyEq issue (get previous "issue")) = false then
    completed ++ [get previous "issue"]
  else completed

/-- What `write_checkpoint` takes over from the file. -/
def resumed (file : Option Checkpoint) (checkpoint : Fields) : Except CheckpointError Fields := match file with
  | none => .ok checkpoint
  | some previous => do
    require (¬(sameIssue previous.fields checkpoint = true ∧ isState (get previous.fields "state") = true ∧
        rank (get checkpoint "state") < rank (get previous.fields "state")))
      (.regress (get checkpoint "issue") (get previous.fields "state") (get checkpoint "state"))
    if sameIssue previous.fields checkpoint then .ok checkpoint
    else .ok (put "completed_issues" (.arr (carriedOver previous.fields)) checkpoint)

/-- What is written to the file, `updatedAt` being the time. -/
def writeCheckpoint (file : Option Checkpoint) (checkpoint : Fields) (updatedAt : String) : Except CheckpointError Fields := do
  validateCheckpoint checkpoint
  let checkpoint ← resumed file checkpoint
  .ok (put "updated_at" (.str updatedAt) checkpoint)

/-! ### What is written -/

def Ahead (file : Option Checkpoint) (c : Fields) : Prop :=
  ∀ previous ∈ file, sameIssue previous.fields c = true → rank (get previous.fields "state") ≤ rank (get c "state")

def followUp (file : Option Checkpoint) (c : Fields) : Fields := match file with
  | none => c
  | some previous =>
    if sameIssue previous.fields c then c else put "completed_issues" (.arr (carriedOver previous.fields)) c

variable {file : Option Checkpoint}

theorem resumed_ok {c' : Fields} : resumed file c = .ok c' ↔ Ahead file c ∧ c' = followUp file c := by
  cases file with
  | none =>
    rw [resumed,Except.ok.injEq]
    refine ⟨fun h => ⟨?_,h.symm⟩,fun h => h.2.symm⟩
    rintro previous hmem
    cases hmem
  | some previous =>
    have hahead : Ahead (some previous) c ↔ ¬(sameIssue previous.fields c = true ∧ isState (get previous.fields "state") = true ∧
        rank (get c "state") < rank (get previous.fields "state")) := by
      simp only [Ahead,Option.mem_def,Option.some.injEq,forall_eq',not_and,not_lt,previous.valid.state,true_implies]
    rw [resumed,check_ok,require_ok,← hahead,followUp]
    refine and_congr_right fun _ => ?_
    split <;> rw [Except.ok.injEq,eq_comm]

variable {new : Fields} {t : String}

theorem writeCheckpoint_ok : writeCheckpoint file c t = .ok new ↔
    Valid c ∧ Ahead file c ∧ new = put "updated_at" (.str t) (followUp file c) := by
  rw [writeCheckpoint,check_ok,validateCheckpoint_ok,bind_ok]
  refine and_congr_right fun _ => ⟨?_,?_⟩
  · rintro ⟨c',hc,hnew⟩
    obtain ⟨hahead,rfl⟩ := resumed_ok.mp hc
    exact ⟨hahead,(Except.ok.inj hnew).symm⟩
  · rintro ⟨hahead,rfl⟩
    exact ⟨_,resumed_ok.mpr ⟨hahead,rfl⟩,rfl⟩

theorem get_written {key : String} (hkey : key ≠ "completed_issues") (hstamp : key ≠ "updated_at") :
    get (put "updated_at" (.str t) (followUp file c)) key = get c key := by
  rw [get_put,if_neg hstamp]
  cases file with
  | none => rfl
  | some previous =>
    rw [followUp]
    split
    · rfl
    · rw [get_put,if_neg hkey]

theorem Valid.written (h : Valid c) : Valid (put "updated_at" (.str t) (followUp file c)) := by
  have hget : ∀ key ∈ ["schema_version","issue","state","next_action","blockers","verified_state","proof_digest"],
      get (put "updated_at" (.str t) (followUp file c)) key = get c key := by
    intro key hkey
    have hother : ∀ key ∈ ["schema_version","issue","state","next_action","blockers","verified_state","proof_digest"],
        key ≠ "completed_issues" ∧ key ≠ "updated_at" := by decide
    exact get_written (hother key hkey).1 (hother key hkey).2
  simp only [List.forall_mem_cons] at hget
  obtain ⟨hversion,hissue,hstate,hnext,hblockers,hverified,hproof,-⟩ := hget
  constructor
  · intro key hkey
    refine isSome_put ?_
    cases file with
    | none => exact h.named key hkey
    | some previous =>
      rw [followUp]
      split
      · exact h.named key hkey
      · exact isSome_put (h.named key hkey)
  · rw [hversion]
    exact h.version
  · rw [hissue]
    exact h.issue
  · rw [hstate]
    exact h.state
  · rw [hnext]
    exact h.nextAction
  · rw [hblockers]
    exact h.blockers
  · rw [get_put,if_neg (by decide)]
    cases file with
    | none => exact h.completed
    | some previous =>
      rw [followUp]
      split
      · exact h.completed
      · rw [get_put,if_pos rfl]
        rfl
  · rw [hverified,hproof]
    exact h.verified

/-! ### What is read back -/

@[simp] theorem isState_canon (j : Json) : isState (canon j) = isState j := by cases j <;> rfl

@[simp] theorem rank_canon (j : Json) : rank (canon j) = rank j := by cases j <;> rfl

@[simp] theorem isList_canon (j : Json) : isList (canon j) = isList j := by cases j <;> rfl

theorem Valid.canon (h : Valid c) : Valid (canonFields c) := by
  constructor
  · intro key hkey
    rw [lookup_canonFields,Option.isSome_map]
    exact h.named key hkey
  · rw [get_canonFields]
    exact pyEq_int_canon h.version
  · rw [get_canonFields,truthy_canon]
    exact h.issue
  · rw [get_canonFields,isState_canon]
    exact h.state
  · rw [get_canonFields,truthy_canon]
    exact h.nextAction
  · rw [get_canonFields,isList_canon]
    exact h.blockers
  · rw [get_canonFields,isList_canon]
    exact h.completed
  · rw [get_canonFields,get_canonFields,isState_canon,truthy_canon]
    refine h.verified.imp_left fun hnull => ?_
    rw [hnull]
    rfl

theorem written_valid (h : writeCheckpoint file c t = .ok new) : Valid (canonFields new) := by
  obtain ⟨hvalid,-,rfl⟩ := writeCheckpoint_ok.mp h
  exact hvalid.written.canon

end Verdict.Prime

import Mathlib.Algebra.GroupWithZero.Nat
import Mathlib.Data.List.Infix
import Mathlib.Data.List.Sort
import Verdict.Basics.PyJson
import Verdict.Contracts.Path

/-! # The continuity state of a session

What a session hands on: its goal, its stories, the facts it decided, and a list of units,
each with a kind, a text and where it comes from. A unit is checked when it is built, so that
the units here carry their checks.
-/
namespace Verdict.Compaction

structure TextOps where
  upper : String → String
  /-- `repr` of a text. -/
  repr : String → String
  canonical : Json → String
  /-- The hexadecimal SHA-256 of the UTF-8 bytes. -/
  digestText : String → String

def strip (text : String) : String := String.ofList (Path.strip text.toList)

def contains (text part : String) : Bool := decide (part.toList <:+: text.toList)

inductive CompactionTrigger
  | verifiedMerge | majorHandoff | researchBoundary | issueSwitch | contextPressure | timer
  deriving DecidableEq

def CompactionTrigger.text : CompactionTrigger → String
  | .verifiedMerge => "verified_merge" | .majorHandoff => "major_handoff" | .researchBoundary => "research_boundary"
  | .issueSwitch => "issue_switch" | .contextPressure => "context_pressure" | .timer => "timer"

def CompactionTrigger.semantic : CompactionTrigger → Bool
  | .timer => false
  | _ => true

inductive SemanticEventKind
  | beforeCompact | beforeYield | sessionEnd | resume | contextPressureCheckpoint

structure SemanticEvent where
  kind : SemanticEventKind
  storyId : String
  trigger : CompactionTrigger
  eventId : String
  harness : Option String := none
  payload : Fields := []

inductive UnitKind
  | programGoal | completedIssue | prMerge | linearStory | proofRequirement | architecturalDecision | blockerFailure
  | worktreeMapping | shellChatter | mcpDuplicate | searchIncorporated | workerTranscript | abandonedApproach | failureLesson
  deriving DecidableEq

namespace UnitKind

def text : UnitKind → String
  | programGoal => "program_goal" | completedIssue => "completed_issue" | prMerge => "pr_merge"
  | linearStory => "linear_story" | proofRequirement => "proof_requirement"
  | architecturalDecision => "architectural_decision" | blockerFailure => "blocker_failure"
  | worktreeMapping => "worktree_mapping" | shellChatter => "shell_chatter" | mcpDuplicate => "mcp_duplicate"
  | searchIncorporated => "search_incorporated" | workerTranscript => "worker_transcript"
  | abandonedApproach => "abandoned_approach" | failureLesson => "failure_lesson"

/-- `_MANDATORY_KINDS`. -/
def mandatory : UnitKind → Bool
  | programGoal | completedIssue | prMerge | linearStory | proofRequirement | architecturalDecision | blockerFailure
  | worktreeMapping | failureLesson => true
  | _ => false

/-- `_DISCARD_KINDS`. -/
def discard : UnitKind → Bool
  | shellChatter | mcpDuplicate | searchIncorporated | workerTranscript | abandonedApproach => true
  | _ => false

theorem discard_eq (k : UnitKind) : k.discard = !k.mandatory := by cases k <;> rfl

end UnitKind

structure CompactionError where
  (code message : String)

/-- `ContinuityUnit`, with what `__post_init__` has checked. -/
structure ContinuityUnit where
  unitId : String
  kind : UnitKind
  (content provenanceUri : String)
  mandatory : Bool
  failureLesson : Option String
  sourceDigest : String
  idGiven : strip unitId ≠ ""
  provenanceGiven : strip provenanceUri ≠ ""
  contentGiven : content = "" → kind.discard = true
  flagged : kind.mandatory = true → mandatory = true
  deriving DecidableEq

structure StoryRecord where
  (storyId status : String)
  mergeSha : Option String := none
  prUrl : Option String := none

structure WorktreeBinding where
  (storyId worktree branch baseSha headSha : String)
  prUrl : Option String := none
  prState : Option String := none

structure SessionContinuityState where
  (programGoal activeStory : String)
  nextStory : Option String
  completedStories : List StoryRecord
  (proofRequirements architecturalDecisions blockers failureConstraints : List String)
  worktree : WorktreeBinding
  units : List ContinuityUnit := []

structure CompactionOmission where
  unitId : String
  kind : UnitKind
  (reason provenanceUri : String)

/-- `_TERMINAL_STORY_STATUSES`. -/
def terminalStatuses : List String := ["MERGED","MAIN_VERIFIED","DONE","COMPLETED"]

section
variable (ops : TextOps)

/-- The constructor of `ContinuityUnit`, with its `__post_init__`. -/
def buildUnit (unitId : String) (kind : UnitKind) (content provenanceUri : String) (mandatory : Bool)
    (failureLesson : Option String) (sourceDigest : String) : Except CompactionError ContinuityUnit :=
  if hid : strip unitId = "" then .error ⟨"invalid_unit","unit_id is required"⟩
  else if hprovenance : strip provenanceUri = "" then .error ⟨"invalid_unit","provenance_uri is required"⟩
  else if hcontent : content = "" ∧ kind.discard = false then
    .error ⟨"invalid_unit","empty content for " ++ ops.repr unitId⟩
  else .ok {
    unitId := unitId
    kind := kind
    content := content
    provenanceUri := provenanceUri
    mandatory := mandatory || kind.mandatory
    failureLesson := failureLesson
    sourceDigest := if sourceDigest = "" then ops.digestText content else sourceDigest
    idGiven := hid
    provenanceGiven := hprovenance
    contentGiven := fun hempty => by simpa [hempty] using hcontent
    flagged := fun hkind => by simp [hkind] }

def StoryRecord.isTerminal (s : StoryRecord) : Bool :=
  decide (ops.upper s.status ∈ terminalStatuses) && decide (s.mergeSha.getD "" ≠ "")

def estimateTokens (text : String) : ℕ := max 1 ((text.toList.length + 3) / 4)

def ContinuityUnit.tokenCount (u : ContinuityUnit) : ℕ := estimateTokens u.content

/-! ### Printed forms -/

def optText : Option String → Json
  | none => .null
  | some s => .str s

def ContinuityUnit.toDict (u : ContinuityUnit) : Json :=
  .obj [("unit_id",.str u.unitId),("kind",.str u.kind.text),("content",.str u.content),("provenance_uri",.str u.provenanceUri),
    ("mandatory",.bool u.mandatory),("failure_lesson",optText u.failureLesson),("source_digest",.str u.sourceDigest)]

def StoryRecord.toDict (s : StoryRecord) : Json :=
  .obj [("story_id",.str s.storyId),("status",.str s.status),("merge_sha",optText s.mergeSha),("pr_url",optText s.prUrl)]

def WorktreeBinding.toDict (w : WorktreeBinding) : Json :=
  .obj [("story_id",.str w.storyId),("worktree",.str w.worktree),("branch",.str w.branch),("base_sha",.str w.baseSha),
    ("head_sha",.str w.headSha),("pr_url",optText w.prUrl),("pr_state",optText w.prState)]

def CompactionOmission.toDict (o : CompactionOmission) : Json :=
  .obj [("unit_id",.str o.unitId),("kind",.str o.kind.text),("reason",.str o.reason),("provenance_uri",.str o.provenanceUri)]

def SessionContinuityState.tokenEstimate (state : SessionContinuityState) : ℕ :=
  (([state.programGoal,state.activeStory,state.nextStory.getD ""] ++ state.proofRequirements ++ state.architecturalDecisions
    ++ state.blockers ++ state.failureConstraints ++ [ops.canonical state.worktree.toDict]
    ++ state.units.map ContinuityUnit.content).filter (· ≠ "")).map estimateTokens |>.sum

end
end Verdict.Compaction

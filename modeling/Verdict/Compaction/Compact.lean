import Verdict.Basics.FreshKeys
import Verdict.Compaction.State

/-! # Compaction of a session state

`compact_session_state` drops the noise among the units, turns abandoned approaches into
lessons, and adds a unit for every fact of the state that no kept unit seems to hold.
Whether one does is asked by kind for the goal, by content for the texts, and for a
completed story by a look for its id inside a content.
-/
namespace Verdict.Compaction
open FreshKeys (addAll)

def omitReason : UnitKind → String
  | .shellChatter => "discard_shell_chatter"
  | .mcpDuplicate => "discard_duplicate_mcp_output"
  | .searchIncorporated => "discard_already_incorporated_search"
  | .workerTranscript => "discard_verbose_worker_transcript"
  | .abandonedApproach => "discard_abandoned_approach_keep_failure_lesson"
  | _ => "discard_optional_noise"

def ContinuityUnit.omission (u : ContinuityUnit) : CompactionOmission :=
  ⟨u.unitId,u.kind,omitReason u.kind,u.provenanceUri⟩

def ContinuityUnit.lessonText (u : ContinuityUnit) : Option String :=
  let lesson := strip (u.failureLesson.getD "")
  if lesson ≠ "" then some lesson
  else
    let first := strip (String.ofList ((strip u.content).toList.takeWhile (· ≠ '.')))
    if first = "" then none
    else
      let cut := first.toList.take 200
      some (String.ofList (if cut.getLast? = some '.' then cut else cut ++ ['.']))

section Compact
variable (ops : TextOps)

def lessonUnit (source : ContinuityUnit) : Except CompactionError (Option ContinuityUnit) :=
  match source.lessonText with
  | none => .ok none
  | some lesson => (buildUnit ops ("lesson:" ++ source.unitId) .failureLesson lesson source.provenanceUri true (some lesson) "").map some

structure Collected where
  retained : List ContinuityUnit
  omissions : List CompactionOmission
  lessons : List String

def collectUnit (acc : Collected) (u : ContinuityUnit) : Except CompactionError Collected :=
  if u.kind.discard || (!u.mandatory && !u.kind.mandatory) then
    let omitted := {acc with omissions := acc.omissions ++ [u.omission]}
    if u.kind = .abandonedApproach then
      match lessonUnit ops u with
      | .error e => .error e
      | .ok none => .ok omitted
      | .ok (some lesson) => .ok { omitted with
          retained := acc.retained ++ [lesson]
          lessons := if lesson.content ∈ acc.lessons then acc.lessons else acc.lessons ++ [lesson.content] }
    else .ok omitted
  else .ok {acc with retained := acc.retained ++ [u]}

def collect (state : SessionContinuityState) : Except CompactionError Collected :=
  state.units.foldlM (collectUnit ops) ⟨[],[],state.failureConstraints⟩

structure ScalarDraft where
  unitId : String
  kind : UnitKind
  (content provenanceUri : String)

def ScalarDraft.build (d : ScalarDraft) : Except CompactionError ContinuityUnit :=
  buildUnit ops d.unitId d.kind d.content d.provenanceUri true none ""

def textDraft (label : String) (kind : UnitKind) (urn text : String) : ScalarDraft :=
  let uid := "scalar:" ++ label ++ ":" ++ String.ofList ((ops.digestText text).toList.take 8)
  ⟨uid,kind,text,urn ++ uid⟩

def completedId (s : StoryRecord) : String := "scalar:completed:" ++ s.storyId

def storyDraft (s : StoryRecord) : ScalarDraft where
  unitId := completedId s
  kind := .completedIssue
  content := strip (s.storyId ++ " " ++ s.status ++ " " ++ s.mergeSha.getD "")
  provenanceUri := "urn:verdict:completed:" ++ s.storyId

section
variable (state : SessionContinuityState) (retained : List ContinuityUnit)

def hasKind (kind : UnitKind) : Bool := retained.any (·.kind = kind)

def hasContent (text : String) : Bool := retained.any (·.content = text)

/-- The test of `_ensure_scalar_units` for a completed story. -/
def mentions (s : StoryRecord) : Bool := retained.any fun u => u.unitId = completedId s || contains u.content s.storyId

/-- The units that `_ensure_scalar_units` builds. -/
def scalarDrafts : List ScalarDraft :=
  (if hasKind retained .programGoal || state.programGoal = "" then []
    else [⟨"scalar:goal",.programGoal,state.programGoal,"urn:verdict:scalar:goal"⟩])
  ++ (if hasKind retained .linearStory then []
    else [⟨"scalar:stories",.linearStory,"active=" ++ state.activeStory ++ " next=" ++ state.nextStory.getD "",
      "urn:verdict:scalar:linear"⟩])
  ++ (if hasKind retained .worktreeMapping then []
    else [⟨"scalar:worktree",.worktreeMapping,state.worktree.storyId ++ "|" ++ state.worktree.worktree ++ "|"
      ++ state.worktree.branch ++ "|" ++ state.worktree.prUrl.getD "","urn:verdict:scalar:worktree"⟩])
  ++ (state.proofRequirements.filter (!hasContent retained ·)).map
    (textDraft ops "proof" .proofRequirement "urn:verdict:scalar:proof:")
  ++ (state.architecturalDecisions.filter (!hasContent retained ·)).map
    (textDraft ops "decision" .architecturalDecision "urn:verdict:scalar:decision:")
  ++ (state.completedStories.filter (!mentions retained ·)).map storyDraft
  ++ (state.blockers.filter (!hasContent retained ·)).map (textDraft ops "blocker" .blockerFailure "urn:verdict:blocker:")

def ensureScalarUnits : Except CompactionError (List ContinuityUnit) :=
  (scalarDrafts ops state retained).mapM (ScalarDraft.build ops)

end

def unitLe (a b : ContinuityUnit) : Prop :=
  a.kind.text < b.kind.text ∨ (a.kind.text = b.kind.text ∧ a.unitId ≤ b.unitId)

instance (a b : ContinuityUnit) : Decidable (unitLe a b) := inferInstanceAs (Decidable (_ ∨ _))

def bullets (items : List String) : List String := items.map ("- " ++ ·)

def renderCompactedText (state : SessionContinuityState) (retained : List ContinuityUnit) (lessons : List String) : String :=
  let lines := ["program_goal: " ++ state.programGoal,"active_story: " ++ state.activeStory,
      "next_story: " ++ state.nextStory.getD "",
      "worktree: " ++ state.worktree.worktree ++ " branch=" ++ state.worktree.branch ++ " base=" ++ state.worktree.baseSha
        ++ " head=" ++ state.worktree.headSha ++ " pr=" ++ state.worktree.prUrl.getD "",
      "completed_stories: " ++ "; ".intercalate
        (state.completedStories.map fun s => s.storyId ++ ":" ++ s.status ++ ":" ++ s.mergeSha.getD ""),
      "proof_requirements:"] ++ bullets state.proofRequirements ++ ["architectural_decisions:"]
    ++ bullets state.architecturalDecisions ++ ["blockers:"] ++ bullets state.blockers ++ ["failure_constraints:"]
    ++ bullets lessons ++ ["retained_units:"] ++ retained.map fun u => "- [" ++ u.kind.text ++ "] " ++ u.content
  "\n".intercalate lines ++ "\n"

structure CompactionResult where
  state : SessionContinuityState
  retained : List ContinuityUnit
  omissions : List CompactionOmission
  (tokensBefore tokensAfter : ℕ)
  (digest compactedText : String)
  trigger : CompactionTrigger
  triggerEvent : Option SemanticEvent

def digestPayload (trigger : CompactionTrigger) (retained : List ContinuityUnit) (omissions : List CompactionOmission)
    (state : SessionContinuityState) : Json :=
  .obj [("schema_version",.str "1"),("trigger",.str trigger.text),("retained",.arr (retained.map ContinuityUnit.toDict)),
    ("omissions",.arr (omissions.map CompactionOmission.toDict)),
    ("state",.obj [("active_story",.str state.activeStory),("next_story",optText state.nextStory),
      ("completed",.arr (state.completedStories.map StoryRecord.toDict)),
      ("failure_constraints",.arr (state.failureConstraints.map .str))])]

def overBudget (maxTokens : Option ℤ) (retained : List ContinuityUnit) (tokensAfter : ℕ) : Option CompactionError :=
  match maxTokens with
  | none => none
  | some budget =>
    let mandatoryCost := ((retained.filter (·.mandatory)).map ContinuityUnit.tokenCount).sum
    if budget < mandatoryCost then
      some ⟨"mandatory_overflow","mandatory continuity state requires " ++ toString mandatoryCost ++ " tokens; budget is "
        ++ toString budget⟩
    else if budget < tokensAfter then
      some ⟨"mandatory_overflow","compacted mandatory text requires " ++ toString tokensAfter ++ " tokens; budget is "
        ++ toString budget⟩
    else none

structure CompactionArgs where
  trigger : CompactionTrigger
  maxTokens : Option ℤ := none
  event : Option SemanticEvent := none

def finish (state : SessionContinuityState) (args : CompactionArgs) (found : Collected) (scalars : List ContinuityUnit) :
    Except CompactionError CompactionResult :=
  let retained := (addAll ContinuityUnit.unitId found.retained scalars).insertionSort unitLe
  let compactedText := renderCompactedText state retained found.lessons
  let tokensAfter := estimateTokens compactedText
  match overBudget args.maxTokens retained tokensAfter with
  | some e => .error e
  | none =>
    let newState := {state with failureConstraints := found.lessons, units := retained}
    .ok {
      state := newState
      retained := retained
      omissions := found.omissions
      tokensBefore := state.tokenEstimate ops
      tokensAfter := tokensAfter
      digest := ops.digestText (ops.canonical (digestPayload args.trigger retained found.omissions newState))
      compactedText := compactedText
      trigger := args.trigger
      triggerEvent := args.event }

def compactSessionState (state : SessionContinuityState) (args : CompactionArgs) :
    Except CompactionError CompactionResult := do
  if args.trigger.semantic = false then
    throw ⟨"timer_alone","semantic compaction requires a non-timer trigger (verified_merge, major_handoff, "
      ++ "research_boundary, issue_switch, or context_pressure)"⟩
  if args.event.any (·.trigger ≠ args.trigger) then
    throw ⟨"event_mismatch","event.trigger must match compaction trigger"⟩
  let found ← collect ops state
  let scalars ← ensureScalarUnits ops state found.retained
  finish ops state args found scalars

def mayEnterReady (storyId : String) (state : SessionContinuityState) : Bool :=
  let sid := ops.upper (strip storyId)
  !(state.completedStories.any fun s => ops.upper s.storyId = sid && s.isTerminal ops)
    && !(state.units.any (fun u => u.kind = .completedIssue && contains (ops.upper u.content) sid
      && terminalStatuses.any (contains (ops.upper u.content))))

end Compact
end Verdict.Compaction

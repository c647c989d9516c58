import Mathlib.Data.List.Sort
import Mathlib.Data.Prod.Lex
import Verdict.Context.Patterns

/-! # The context pack compiler

`ContextPackCompiler.compile_units`: the units are sorted, gated one after another, rendered and
added while they fit. What `urllib`, `hashlib`, `datetime` and `str.casefold` make of a text is
left open; an URL that does not parse and a timestamp that cannot be compared raise.
-/
namespace Verdict.Context
open Path (isSpace strip)

inductive SlotType
  | system | receipt | memory | dynamic | instructions | policy | state | evidence | tools | examples | history
  deriving DecidableEq

/-- `slot_type.upper()`. -/
def SlotType.upper : SlotType → String
  | system => "SYSTEM"
  | receipt => "RECEIPT"
  | memory => "MEMORY"
  | dynamic => "DYNAMIC"
  | instructions => "INSTRUCTIONS"
  | policy => "POLICY"
  | state => "STATE"
  | evidence => "EVIDENCE"
  | tools => "TOOLS"
  | examples => "EXAMPLES"
  | history => "HISTORY"

inductive ContextStatus
  | active | observed | stale | superseded | disputed | missing | unavailable
  deriving DecidableEq

def SlotType.precedence : SlotType → ℕ
  | system | instructions => 0
  | policy => 1
  | receipt => 2
  | tools => 3
  | evidence => 4
  | memory => 5
  | state => 6
  | dynamic => 7
  | examples => 8
  | history => 9

def ContextStatus.precedence : ContextStatus → ℕ
  | active => 0
  | observed => 1
  | stale => 2
  | superseded => 3
  | disputed => 4
  | missing => 5
  | unavailable => 6

/-- A text that `_require_string` accepts. -/
def NonBlank (t : Text) : Prop := strip t ≠ []

instance (t : Text) : Decidable (NonBlank t) := inferInstanceAs (Decidable (_ ≠ _))

structure ContextPlan where
  (planId candidateId tenantScope projectScope : Text)
  (tokenBudget outputTokenReserve toolTokenReserve : ℕ)
  candidateContextWindow : Option ℕ
  createdAt : Text
  named : NonBlank planId ∧ NonBlank candidateId ∧ NonBlank tenantScope ∧ NonBlank projectScope
  windowed : ∀ n ∈ candidateContextWindow, 1 ≤ n
  positive : outputTokenReserve + toolTokenReserve < tokenBudget

theorem ContextPlan.windowed_none : ∀ n ∈ (none : Option ℕ), 1 ≤ n := by simp

def ContextPlan.inputTokenBudget (plan : ContextPlan) : ℕ := plan.tokenBudget - plan.outputTokenReserve - plan.toolTokenReserve

structure ContextUnit where
  unitId : Text
  slotType : SlotType
  (key content sourceUri sourceDigest revision : Text)
  validUntil : Option Text
  (sensitivity tenantScope projectScope : Text)
  status : ContextStatus
  tokenCount : Option ℕ
  (confidence createdAt : ℚ)
  named : ∀ t ∈ [unitId,key,content,sourceUri,revision,sensitivity,tenantScope,projectScope], NonBlank t
  counted : ∀ n ∈ tokenCount, 1 ≤ n
  confident : 0 ≤ confidence ∧ confidence ≤ 1
  deriving DecidableEq

def estimateTokens (text : Text) : ℕ := max 1 ((text.length + 3) / 4)

variable (u : ContextUnit)

def ContextUnit.effectiveTokenCount : ℕ := u.tokenCount.getD (estimateTokens u.content)

/-- A parsed timestamp, with or without a time zone; only timestamps of one kind compare. -/
inductive Stamp
  | naive (t : ℚ)
  | aware (t : ℚ)

inductive CompileError
  | timestamp (text : Text)
  | incomparable
  | url (text : Text)
  deriving DecidableEq

def Stamp.le : Stamp → Stamp → Except CompileError Bool
  | naive s, naive t => .ok (decide (s ≤ t))
  | aware s, aware t => .ok (decide (s ≤ t))
  | _, _ => .error .incomparable

/-- `urlsplit(value)`, as far as it is read. -/
structure SplitUrl where
  (scheme netloc : Text)
  hostname : Option Text
  path : Text

structure Library where
  words : WordClass
  urlsplit : Text → Option SplitUrl
  urlunsplit : Text → Text → Text → Text
  (sha256 casefold : Text → Text)
  /-- `_timestamp` and `datetime.fromisoformat`. -/
  timestamp : Text → Option Stamp
  /-- `_digest` of a text. -/
  digest : Text → Text
  /-- `plan.digest`. -/
  planDigest : ContextPlan → Text

structure ContextPackSlot where
  slotType : SlotType
  (key content source : Text)
  confidence : ℚ
  sensitivity : Text
  createdAt : ℚ
  (sourceUri sourceDigest revision tenantScope projectScope : Text)
  validUntil : Option Text

inductive DecisionAction
  | include | exclude | transform
  deriving DecidableEq

inductive Reason
  | secretDetected
  | source (status : ContextStatus)
  | claim (status : ContextStatus)
  | scopeMismatch
  | sourceExpired
  | duplicateContent
  | inputBudgetExhausted
  | injectionPatternsSanitized
  | included
  deriving DecidableEq

inductive Fidelity
  | verified | notApplicable

structure ContextDecision where
  unitId : Text
  action : DecisionAction
  reason : Reason
  (inputTokens outputTokens : ℕ)
  fidelity : Fidelity
  reversibleRef : Text

structure Conflict where
  (key unitId existingContentHash newContentHash : Text)

structure ContextPack where
  (packId compiledPrompt : Text)
  (usedTokens tokenBudget : ℕ)
  slots : List ContextPackSlot
  conflicts : List Conflict
  truncatedCount : ℕ
  createdAt : ℚ
  (planId planDigest candidateId tenantScope projectScope : Text)
  units : List ContextUnit
  decisions : List ContextDecision
  receiptId : Text
  duplicateTokensSuppressed : ℕ

section Compile
variable (lib : Library)

def safeSourceUri (value : Text) : Except CompileError Text :=
  match lib.urlsplit value with
  | none => .error (.url value)
  | some parsed =>
    if parsed.scheme ≠ [] ∧ parsed.netloc ≠ [] then .ok (lib.urlunsplit parsed.scheme (parsed.hostname.getD []) parsed.path)
    else .ok ((value.takeWhile (· ≠ '?')).takeWhile (· ≠ '#'))

def lineFeed : Char := '\n'

variable (u : ContextUnit)

def rendered : Except CompileError Text := do
  let uri ← safeSourceUri lib u.sourceUri
  let header := '[' :: (u.slotType.upper.toList ++ ':' :: (u.key ++ (" (source: ".toList ++ (uri ++ ")]".toList))))
  return header ++ lineFeed :: (sanitizeInjectionPatterns lib.words u.content ++ [lineFeed])

def unitPromptTokenCost : Except CompileError ℕ := (rendered lib u).map estimateTokens

/-- `text.split()`: the words of a text. -/
def splitWords (text : Text) : List Text := text.splitOnP isSpace |>.filter (· ≠ [])

def contentFingerprint (text : Text) : Text := lib.sha256 (lib.casefold ([' '].intercalate (splitWords text)))

section
variable (plan : ContextPlan) (now : Stamp)
variable (u : ContextUnit)

def inScope : Bool :=
  (u.tenantScope = ['*'] || u.tenantScope = plan.tenantScope) && (u.projectScope = ['*'] || u.projectScope = plan.projectScope)

/-- `valid_until <= now`. -/
def expired : Except CompileError Bool :=
  match u.validUntil with
  | none => .ok false
  | some text => match lib.timestamp text with
    | none => .error (.timestamp text)
    | some limit => limit.le now

def gate : Except CompileError (Option Reason) :=
  if !safeContent lib.words u.content then .ok (some .secretDetected)
  else if u.status = .missing ∨ u.status = .unavailable then .ok (some (.source u.status))
  else if u.status = .superseded ∨ u.status = .disputed ∨ u.status = .stale then .ok (some (.claim u.status))
  else if !inScope plan u then .ok (some .scopeMismatch)
  else (expired lib now u).map fun late => if late then some .sourceExpired else none

end

structure Assembly where
  parts : List Text := []
  units : List ContextUnit := []
  slots : List ContextPackSlot := []
  decisions : List ContextDecision := []
  currentTokens : ℕ := 0
  truncated : ℕ := 0
  /-- `included_fingerprints`. -/
  fingerprints : List (Text × Text) := []
  duplicateTokens : ℕ := 0

def Assembly.exclude (s : Assembly) (u : ContextUnit) (reason : Reason) (reversibleRef : Text) : Assembly :=
  { s with
    decisions := s.decisions ++ [⟨u.unitId,.exclude,reason,u.effectiveTokenCount,0,.notApplicable,reversibleRef⟩]
    truncated := s.truncated + 1 }

def slotOf : ContextPackSlot where
  slotType := u.slotType
  key := u.key
  content := sanitizeInjectionPatterns lib.words u.content
  source := u.sourceUri
  confidence := u.confidence
  sensitivity := u.sensitivity
  createdAt := u.createdAt
  sourceUri := u.sourceUri
  sourceDigest := u.sourceDigest
  revision := u.revision
  tenantScope := u.tenantScope
  projectScope := u.projectScope
  validUntil := u.validUntil

def Assembly.include (s : Assembly) (u : ContextUnit) (part : Text) : Assembly :=
  let sanitized := decide (sanitizeInjectionPatterns lib.words u.content ≠ u.content)
  { s with
    parts := s.parts ++ [part]
    units := s.units ++ [u]
    slots := s.slots ++ [slotOf lib u]
    decisions := s.decisions ++ [⟨u.unitId,if sanitized then .transform else .include,
      if sanitized then .injectionPatternsSanitized else .included,u.effectiveTokenCount,estimateTokens part,.verified,u.sourceUri⟩]
    currentTokens := s.currentTokens + estimateTokens part
    fingerprints := (contentFingerprint lib u.content,u.unitId) :: s.fingerprints }

def addUnit (plan : ContextPlan) (now : Stamp) (s : Assembly) (u : ContextUnit) : Except CompileError Assembly := do
  match ← gate lib plan now u with
  | some reason => return s.exclude u reason u.sourceUri
  | none => match s.fingerprints.lookup (contentFingerprint lib u.content) with
    | some keptId =>
      let s := s.exclude u .duplicateContent keptId
      return {s with duplicateTokens := s.duplicateTokens + u.effectiveTokenCount}
    | none =>
      let part ← rendered lib u
      if plan.inputTokenBudget < s.currentTokens + estimateTokens part then
        return s.exclude u .inputBudgetExhausted u.sourceUri
      else return s.include lib u part

def conflictsFrom : List (Text × Text) → List ContextUnit → List Conflict
  | _, [] => []
  | seen, u :: rest => match seen.lookup u.key with
    | some previous =>
      if previous ≠ u.content then
        ⟨u.key,u.unitId,(lib.digest previous).take 23,(lib.digest u.content).take 23⟩ :: conflictsFrom seen rest
      else conflictsFrom seen rest
    | none => conflictsFrom ((u.key,u.content) :: seen) rest

end Compile

/-! ### Order -/

def sortKey : ℕ ×ₗ ℕ ×ₗ ℚ ×ₗ ℚ ×ₗ Text ×ₗ Text :=
  toLex (u.slotType.precedence,toLex (u.status.precedence,toLex (-u.confidence,toLex (-u.createdAt,toLex (u.key,u.unitId)))))

def ContextUnit.normalized : ContextUnit := {u with createdAt := 0}

section
variable (lib : Library)

/-- `now`, at which units expire. -/
def evaluationTime (plan : ContextPlan) (evaluationAt : Option Text) : Except CompileError Stamp :=
  match lib.timestamp (evaluationAt.getD plan.createdAt) with
  | some now => .ok now
  | none => .error (.timestamp (evaluationAt.getD plan.createdAt))

def compileSorted (plan : ContextPlan) (packId evaluationAt : Option Text) (sorted : List ContextUnit) :
    Except CompileError ContextPack := do
  let now ← evaluationTime lib plan evaluationAt
  let s ← sorted.foldlM (addUnit lib plan now) {}
  let compiled := [lineFeed].intercalate s.parts
  let actualId := packId.getD ((lib.sha256 compiled).take 16)
  return {
    packId := actualId
    compiledPrompt := compiled
    usedTokens := s.currentTokens
    tokenBudget := plan.inputTokenBudget
    slots := s.slots
    conflicts := conflictsFrom lib [] sorted
    truncatedCount := s.truncated
    createdAt := (sorted.map ContextUnit.createdAt).foldr max 0
    planId := plan.planId
    planDigest := lib.planDigest plan
    candidateId := plan.candidateId
    tenantScope := plan.tenantScope
    projectScope := plan.projectScope
    units := s.units
    decisions := s.decisions
    receiptId := "receipt:".toList ++ actualId
    duplicateTokensSuppressed := s.duplicateTokens }

variable (units : List ContextUnit)

def sortedUnits : List ContextUnit :=
  (units.map ContextUnit.normalized).insertionSort fun u v => sortKey u ≤ sortKey v

/-- `compile_units`; `none` stands for an empty or absent argument. -/
def compileUnits (plan : ContextPlan) (packId evaluationAt : Option Text) :
    Except CompileError ContextPack :=
  compileSorted lib plan packId evaluationAt (sortedUnits units)

end

/-! ### Plain texts -/

/-- The library at plain texts: ASCII without URLs, stamped once, with the hashes that are listed. -/
def plainLibrary (hashes : List (Text × Text)) (planDigest : Text) : Library where
  words := asciiWords
  urlsplit := fun text => some ⟨[],[],none,text⟩
  urlunsplit := fun _ _ path => path
  sha256 := fun text => (hashes.lookup text).getD []
  casefold := fun text => text.map Char.toLower
  timestamp := fun text => if text = "2026-01-01T00:00:00Z".toList then some (.aware 1767225600) else none
  digest := fun _ => []
  planDigest := fun _ => planDigest

def plainUnit (unitId key content sourceUri : String) (named : ∀ t ∈ [unitId.toList,key.toList,content.toList,sourceUri.toList], NonBlank t) :
    ContextUnit where
  unitId := unitId.toList
  slotType := .memory
  key := key.toList
  content := content.toList
  sourceUri := sourceUri.toList
  sourceDigest := "sha256:".toList ++ List.replicate 64 '0'
  revision := "unknown".toList
  validUntil := none
  sensitivity := "standard".toList
  tenantScope := "default".toList
  projectScope := "default".toList
  status := .active
  tokenCount := none
  confidence := 1
  createdAt := 0
  named := by
    simp only [List.forall_mem_cons] at named ⊢
    exact ⟨named.1,named.2.1,named.2.2.1,named.2.2.2.1,by decide,by decide,by decide,by decide,fun _ h => absurd h List.not_mem_nil⟩
  counted := fun _ h => nomatch h
  confident := by decide

def plainPlan (tokenBudget : ℕ) (positive : 0 < tokenBudget) : ContextPlan where
  planId := ['p']
  candidateId := ['c']
  tenantScope := "default".toList
  projectScope := "default".toList
  tokenBudget := tokenBudget
  outputTokenReserve := 0
  toolTokenReserve := 0
  candidateContextWindow := none
  createdAt := "2026-01-01T00:00:00Z".toList
  named := by decide
  windowed := fun _ h => nomatch h
  positive := positive

end Verdict.Context

import Verdict.Session.Session

/-! # Resuming a session

A checkpoint that was appended is the one that is read, and the session in it comes back as it
was, except for a missing cursor, which the constructor fills. In every run of a session each
operation that has checkpointed can therefore be resumed exactly, unless it has left the
cursor empty.
-/
namespace Verdict.Session
open JsonCodec ExecutionSession
open Raising
open Json (canon canonFields pyEq)

/-! ### Writing and reading -/

theorem mapM_ok {ε α β : Type} {f : β → Except ε α} {g : α → β} (h : ∀ a, f (g a) = .ok a) (xs : List α) :
    (xs.map g).mapM f = .ok xs := by
  induction xs with
  | nil => rfl
  | cons x xs ih =>
    rw [List.map_cons,List.mapM_cons,h,ih]
    rfl

theorem records_record {α : Type} {es : List (String × Option Json)} (hnodup : (es.map Prod.fst).Nodup) {key : String}
    {read : Json → Except SessionError α} {toDict : α → Fields} {xs : List α} (i : ℕ)
    (h : es[i]? = some (key,some (.arr (xs.map fun x => .obj (toDict x)))))
    (hread : ∀ x, read (canon (.obj (toDict x))) = .ok x) : records read key (canonFields (record es)) = .ok xs := by
  rw [records,Json.lookup_canonFields,lookup_record hnodup (List.mem_of_getElem? h)]
  simp only [Option.map_some,canon,Json.canonList_eq_map,List.map_map]
  exact mapM_ok hread xs

def settled (s : ExecutionSession) : ExecutionSession :=
  {s with
    taskSpec := canonFields s.taskSpec
    artifacts := canonFields s.artifacts
    attempts := sortKeys s.attempts }

theorem fromDict_toDict (s : ExecutionSession) : fromDict (canon (.obj s.toDict)) = (settled s).postInit := by
  have hnodup : (s.entries.map Prod.fst).Nodup := by
    show (required ++ optional).Nodup
    decide
  have hknown : ∀ key ∈ s.entries.map Prod.fst, key ∈ required ∨ key ∈ optional :=
    fun key hkey => List.mem_append.mp (show key ∈ required ++ optional from hkey)
  have hmodel : s.entries[13]? = some (fieldIf "model_id" nullableString (some s.modelId)) := rfl
  have hpassport : s.entries[14]? = some (fieldIf "bound_passport_key" nullableString (some s.boundPassportKey)) := rfl
  have hattempts : (JsonCodec.entries integer).settled s.attempts = sortKeys s.attempts := List.map_id _
  have hcompleted : (JsonCodec.list string).settled s.completedSteps = s.completedSteps := List.map_id _
  rw [fromDict,toDict,strictMapping_record hnodup rfl hknown]
  simp only [bind,Except.bind,need_record hnodup 0 rfl,need_record hnodup 1 rfl,need_record hnodup 2 rfl,
    records_record hnodup 3 rfl StepRecord.fromDict_toDict,need_record hnodup 4 rfl,need_record hnodup 5 rfl,
    records_record hnodup 6 rfl CheckpointRecord.fromDict_toDict,need_record hnodup 7 rfl,need_record hnodup 8 rfl,
    records_record hnodup 9 rfl FailureEntry.fromDict_toDict,need_record hnodup 10 rfl,need_record hnodup 11 rfl,
    need_record hnodup 12 rfl,find_record hnodup 13 hmodel,find_record hnodup 14 hpassport,hattempts,hcompleted]
  rfl

variable {digest : Json → String} {now now' : ℚ} {plane p : MemoryPlane}

theorem put_appended {r : MemoryRecord}
    (h : plane.put digest now r = .ok (p,true)) (hactive : r.status = .active) (hscope : r.scope = "default")
    (hexpires : r.expiresAt = none) : ∃ row, p.get now' r.space r.key = some row ∧ row.content = r.content := by
  rw [MemoryPlane.put] at h
  split at h
  · cases h
  · split at h
    · split at h <;> cases h
    · rename_i hnew
      cases h
      exact ⟨_,get_insert hnew hactive hscope hexpires,rfl⟩

variable {s : ExecutionSession}

theorem resume_put {quoted : String → String}
    {recordId : String} (h : plane.put digest now (checkpointRow s recordId) = .ok (p,true)) :
    resume now' quoted s.sessionId p = (settled s).postInit := by
  obtain ⟨row,hget,hcontent⟩ : ∃ row, p.get now' SESSION_NAMESPACE s.sessionId = some row ∧
      row.content = (checkpointRow s recordId).content := put_appended h rfl rfl rfl
  rw [resume,hget]
  simp only
  rw [hcontent]
  exact fromDict_toDict s

/-! ### Equal sessions -/

/-- Two sessions are equal in every field; dictionaries compare without their order. -/
structure SameSession (s t : ExecutionSession) : Prop where
  fields : t = {s with taskSpec := t.taskSpec, artifacts := t.artifacts, attempts := t.attempts}
  taskSpec : pyEq (.obj s.taskSpec) (.obj t.taskSpec) = true
  artifacts : pyEq (.obj s.artifacts) (.obj t.artifacts) = true
  attempts : ∀ stepId, t.attempts.lookup stepId = s.attempts.lookup stepId

structure Valid (s : ExecutionSession) : Prop where
  sessionId : Admission.strip s.sessionId ≠ ""
  schemaVersion : s.schemaVersion = "1"
  steps : s.steps ≠ []

structure Whole (s : ExecutionSession) : Prop extends Valid s where
  taskSpec : Json.Finite s.taskSpec
  artifacts : Json.Finite s.artifacts

def filledCursor (s : ExecutionSession) : Option String := match s.currentStep with
  | some step => some step
  | none => match s.firstPending with
    | some step => some step
    | none => s.steps.head?.map StepRecord.stepId

theorem postInit_whole (hid : Admission.strip s.sessionId ≠ "") (hversion : s.schemaVersion = "1")
    (hsteps : s.steps ≠ []) : s.postInit = .ok {s with currentStep := filledCursor s} := by
  rw [postInit,if_neg hid,if_neg (not_not.mpr hversion)]
  cases hs : s.steps with
  | nil => exact absurd hs hsteps
  | cons first rest =>
    simp only
    cases hcursor : s.currentStep with
    | none =>
      rw [if_pos rfl,filledCursor,hcursor,firstPending,hs]
      cases hfind : (first :: rest).find? fun step => decide (step.status = .pending) with
      | none => rfl
      | some step => rfl
    | some step =>
      rw [if_neg (Option.some_ne_none step),filledCursor,hcursor]
      simp only
      rw [← hcursor,← hs]

theorem filledCursor_ne_none (h : s.steps ≠ []) : filledCursor s ≠ none := by
  rw [filledCursor]
  split
  · exact Option.some_ne_none _
  · split
    · exact Option.some_ne_none _
    · cases hs : s.steps with
      | nil => exact absurd hs h
      | cons first rest => exact Option.some_ne_none _

theorem Valid.postInit (h : Valid s) :
    (settled s).postInit = .ok {settled s with currentStep := filledCursor s} :=
  postInit_whole (s := settled s) h.sessionId h.schemaVersion h.steps

theorem same_settled (h : Whole s) : SameSession s (settled s) := by
  have hspec : pyEq (.obj s.taskSpec) (canon (.obj s.taskSpec)) = true := by
    rw [Json.pyEq_canon,(Json.hasNan_obj s.taskSpec).mpr h.taskSpec]
    rfl
  have hartifacts : pyEq (.obj s.artifacts) (canon (.obj s.artifacts)) = true := by
    rw [Json.pyEq_canon,(Json.hasNan_obj s.artifacts).mpr h.artifacts]
    rfl
  exact ⟨rfl,hspec,hartifacts,fun stepId => lookup_sortKeys s.attempts stepId⟩

theorem same_filled (h : Whole s) :
    SameSession s {settled s with currentStep := filledCursor s} ↔ s.currentStep ≠ none := by
  constructor
  · intro hsame hnone
    have hcursor := congrArg ExecutionSession.currentStep hsame.fields
    exact filledCursor_ne_none h.steps (hcursor.trans hnone)
  · intro hsome
    obtain ⟨step,hstep⟩ := Option.ne_none_iff_exists'.mp hsome
    have hfilled : filledCursor s = s.currentStep := by
      rw [filledCursor,hstep]
    have hsettled : {settled s with currentStep := filledCursor s} = settled s := by
      rw [hfilled]
      rfl
    rw [hsettled]
    exact same_settled h

end Verdict.Session

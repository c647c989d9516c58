import Verdict.Basics.Run
import Verdict.Review.Interpret

/-! # Review attempts in one directory

All attempts write to one output file, which no attempt removes before it starts. The file
that an attempt finds at its end may be its own, one that an earlier attempt left, or one
that a runner wrote which was given up but went on.
-/
namespace Verdict.Review
open Json (get)
open Finding (blocking)

/-- How the call of the runner ends in `_run_runner_bounded`. -/
inductive RunnerEnd
  | returned (run : OcrRun)
  /-- It was told to stop, after a timeout or a cancellation, and settled with a run or not in time. -/
  | stopped (preserveProviderTimeout : Bool) (run : Option OcrRun)

/-- What happened last to the output file before it is read. -/
inductive Effect
  | untouched
  | wrote (file : RawFile)
  /-- Somebody else wrote it. -/
  | stray (file : RawFile)
  | removed

/-- One call of `_review_once`. -/
structure Attempt where
  routeId : String
  /-- The text of the `KeyError`, where no key is found. -/
  keyError : Option String := none
  ending : RunnerEnd
  effect : Effect
  /-- What the runner answers when it is asked for its version. -/
  probe : OcrRun := {exitCode := 0}

def Effect.apply (dir : Option RawFile) : Effect → Option RawFile
  | .untouched => dir
  | .wrote file => some file
  | .stray file => some file
  | .removed => none

def Effect.own : Effect → Option RawFile
  | .wrote file => some file
  | _ => none

section
variable (ops : TextOps) (settings : Settings)

/-- `_run_runner_bounded`. -/
def boundedRun : RunnerEnd → OcrRun
  | .returned run => run
  | .stopped _ none => {exitCode := 124, stderr := "ocr review cleanup UNKNOWN after cancellation"}
  | .stopped preserve (some run) =>
    if preserve && run.timedOut && !contains (ops.lower run.stderr) "stopped" then run
    else {run with stderr := "ocr review stopped after cancellation", timedOut := false}

/-- Its result, and the output file it leaves. -/
def reviewOnce (dir : Option RawFile) (a : Attempt) : Option ReviewResult × Option RawFile :=
  match a.keyError with
  | some detail => (some {status := .error, reviewer := reviewerPrefix, routeId := a.routeId, detail := detail},dir)
  | none =>
    let raw := a.effect.apply dir
    (interpret ops settings (boundedRun ops a.ending) raw a.routeId a.probe,raw)

def nextDir (dir : Option RawFile) (a : Attempt) : Option (Option RawFile) := some (reviewOnce ops settings dir a).2

/-! ### What a verdict may rest on -/

def OcrRun.Succeeded (run : OcrRun) : Prop := run.exitCode = 0 ∧ run.timedOut = false ∧ run.idleTimedOut = false

def Covers (payload : Fields) : Prop :=
  filled (get (coverage payload) "selected") = true ∨ filled (get (coverage payload) "completed") = true ∨
    positiveCount ops payload = true

def NamesReviewer (routeId : String) (payload : Fields) : Prop :=
  ∃ observed, observedModel ops payload = some observed ∧ sameRoute routeId observed = true

def Blocked (payload : Fields) : Prop := ∃ findings, parseFindings ops payload = .ok findings ∧ findings.any blocking = true

/-- A verdict rests on the attempt's own output: a pass needs a run that succeeded and wrote
an output that reports coverage, the reviewer and no blocking finding; and a run that exits
with zero and writes nothing is an error. -/
structure Attempt.OwnVerdict (dir : Option RawFile) (a : Attempt) : Prop where
  pass : ∀ result, (reviewOnce ops settings dir a).1 = some result → result.status = .pass →
    ∃ run payload, a.ending = .returned run ∧ run.Succeeded ∧ a.effect.own = some (.value (.obj payload)) ∧ Covers ops payload ∧
      NamesReviewer ops a.routeId payload ∧ ¬ Blocked ops payload
  silent : ∀ run, a.keyError = none → a.ending = .returned run → run.exitCode = 0 → a.effect.own = none →
    ∃ result, (reviewOnce ops settings dir a).1 = some result ∧ result.status = .error

def Refused (routeId : String) : RawFile → Prop
  | .unreadable _ => True
  | .undecodable => False
  | .unparseable _ => True
  | .value (.obj payload) => payloadFault ops routeId payload ≠ none
  | .value _ => True

def Attempt.Judged (a : Attempt) : Prop :=
  a.keyError = none ∧ ∃ run, a.ending = .returned run ∧ runFault settings run = none

/-- When the run is judged by the file, the file is the attempt's own and names the model
that reviewed, if nothing else speaks against it; or it is not there, or gets no verdict. -/
structure Attempt.Fresh (dir : Option RawFile) (a : Attempt) : Prop where
  own : ∀ payload, a.Judged settings → a.effect.own = some (.value (.obj payload)) → payloadFault ops a.routeId payload = none →
    ∀ findings, parseFindings ops payload = .ok findings → findings.any blocking = false →
      observedModel ops payload ≠ none
  left : ∀ file, a.Judged settings → a.effect.own = none → a.effect.apply dir = some file → Refused ops a.routeId file

end

section Facts
variable {ops : TextOps} {settings : Settings} {dir : Option RawFile} {a : Attempt}
variable {file : RawFile}

theorem own_apply (dir : Option RawFile) {e : Effect} (h : e.own = some file) :
    e.apply dir = some file := by
  cases e with
  | wrote other => exact h
  | untouched => cases h
  | stray other => cases h
  | removed => cases h

variable {run : OcrRun}

theorem succeeded_of_runFault (h : runFault settings run = none) : run.Succeeded := by
  unfold runFault at h
  split at h
  · cases h
  · split at h
    · cases h
    · split at h
      · cases h
      · split at h
        · cases h
        · rename_i htimed
          split at h
          · cases h
          · rename_i hidle
            exact ⟨by simpa using h,by simpa using htimed,by simpa using hidle⟩

theorem runFault_stopped (preserve : Bool) (run : Option OcrRun) :
    runFault settings (boundedRun ops (.stopped preserve run)) ≠ none := by
  cases run with
  | none =>
    have hunknown : contains "ocr review cleanup UNKNOWN after cancellation" "ocr review cleanup UNKNOWN" = true := by
      decide
    simp [boundedRun,runFault,hunknown]
  | some run =>
    simp only [boundedRun]
    split
    · rename_i hkept
      simp only [Bool.and_eq_true] at hkept
      intro h
      have htimed := (succeeded_of_runFault h).2.1
      rw [hkept.1.2] at htimed
      cases htimed
    · have hstopped : contains "ocr review stopped after cancellation" "ocr review stopped after cancellation" = true := by
        decide
      unfold runFault
      rw [if_pos hstopped]
      split <;> simp

variable {payload : Fields}

theorem covers_of_reason (h : emptyReviewReason ops payload = none) : Covers ops payload := by
  unfold emptyReviewReason at h
  split at h
  · cases h
  · split at h
    · cases h
    · split at h
      · cases h
      · rename_i count hcount
        obtain ⟨j,hj,hvalue⟩ := Option.map_eq_some_iff.mp hcount
        split at h
        · cases h
        · rename_i hpositive
          refine .inr (.inr ?_)
          rw [positiveCount,hj,Option.any_some,hvalue]
          simpa using hpositive
      · split at h
        · rename_i hfilled
          rcases Bool.or_eq_true_iff.mp hfilled with hselected | hcompleted
          · exact .inl hselected
          · exact .inr (.inl hcompleted)
        · cases h

variable {routeId : String}

theorem payloadFault_eq_none (h : payloadFault ops routeId payload = none) :
    Covers ops payload ∧ ∀ observed, observedModel ops payload = some observed → sameRoute routeId observed = true := by
  unfold payloadFault at h
  split at h
  · cases h
  · rename_i hreason
    refine ⟨covers_of_reason hreason,fun observed hobserved => ?_⟩
    rw [hobserved] at h
    split at h
    · cases h
    · simpa using h

variable {probe : OcrRun}

theorem interpret_pass {raw : Option RawFile} {result : ReviewResult}
    (h : interpret ops settings run raw routeId probe = some result) (hpass : result.status = .pass) :
    runFault settings run = none ∧ ∃ payload findings, raw = some (.value (.obj payload)) ∧ payloadFault ops
    routeId payload = none ∧ parseFindings ops payload = .ok findings ∧ findings.any blocking =
    false := by
  unfold interpret at h
  split at h
  · cases h
    cases hpass
  · rename_i hrun
    refine ⟨hrun,?_⟩
    split at h
    · cases h
      cases hpass
    · cases h
    · cases h
      cases hpass
    · cases h
      cases hpass
    · rename_i payload
      split at h
      · cases h
        cases hpass
      · rename_i hfault
        split at h
        · cases h
        · rename_i findings hfindings
          cases h
          refine ⟨payload,findings,rfl,hfault,hfindings,?_⟩
          cases hblocking : findings.any blocking with
          | false => rfl
          | true => simp [judge,hblocking] at hpass
    · cases h
      cases hpass

theorem interpret_pass_of (probe : OcrRun) {findings : List Finding}
    (hrun : runFault settings run = none) (hfault : payloadFault ops routeId payload = none)
    (hfindings : parseFindings ops payload = .ok findings) (hblocking : findings.any blocking = false) :
    ∃ result, interpret ops settings run (some (.value (.obj payload))) routeId probe = some result ∧ result.status = .pass := by
  refine ⟨judge ops settings routeId probe payload findings,?_,?_⟩
  · simp only [interpret,hrun,hfault,hfindings]
  · simp [judge,hblocking]

theorem interpret_error_iff (hrun : runFault settings run = none) :
    (∃ result, interpret ops settings run (some file) routeId probe = some result ∧ result.status = .error)
    ↔ Refused ops routeId file := by
  cases file with
  | unreadable why => simp [interpret,hrun,Refused,errorResult]
  | undecodable => simp [interpret,hrun,Refused]
  | unparseable why => simp [interpret,hrun,Refused,errorResult]
  | value j =>
    cases j with
    | scalar s => simp [interpret,hrun,Refused,errorResult]
    | arr xs => simp [interpret,hrun,Refused,errorResult]
    | obj payload =>
      simp only [interpret,hrun,Refused]
      cases hfault : payloadFault ops routeId payload with
      | some detail => simp [errorResult]
      | none =>
        cases hfindings : parseFindings ops payload with
        | error e => simp
        | ok findings =>
          simp only [judge,Option.some.injEq,ne_eq,not_true_eq_false,iff_false,not_exists,not_and]
          rintro result rfl
          dsimp only
          split <;> simp

theorem ownVerdict_iff : a.OwnVerdict ops settings dir ↔ a.Fresh ops settings dir := by
  cases hkey : a.keyError with
  | some detail =>
    have hresult : (reviewOnce ops settings dir a).1
        = some {status := .error, reviewer := reviewerPrefix, routeId := a.routeId, detail := detail} := by
      simp only [reviewOnce,hkey]
    have hjudged : ¬ a.Judged settings := by
      rintro ⟨hnone,-⟩
      rw [hkey] at hnone
      cases hnone
    refine iff_of_true ⟨fun result h hpass => ?_,fun run hnone => ?_⟩ ⟨fun _ h => absurd h hjudged,fun _ h => absurd h hjudged⟩
    · rw [hresult] at h
      cases h
      cases hpass
    · rw [hkey] at hnone
      cases hnone
  | none =>
    have hresult : (reviewOnce ops settings dir a).1
        = interpret ops settings (boundedRun ops a.ending) (a.effect.apply dir) a.routeId a.probe := by
      simp only [reviewOnce,hkey]
    constructor
    · rintro ⟨hown,hsilent⟩
      refine ⟨?_,?_⟩
      · rintro payload ⟨-,run,hending,hrun⟩ heffect hfault findings hfindings hblocking hunnamed
        obtain ⟨result,hpassed,hstatus⟩ := interpret_pass_of a.probe hrun hfault hfindings hblocking
        rw [hending,own_apply dir heffect] at hresult
        obtain ⟨-,other,-,-,hother,-,⟨observed,hobserved,-⟩,-⟩ := hown result (hresult.trans hpassed) hstatus
        rw [heffect] at hother
        cases hother
        rw [hunnamed] at hobserved
        cases hobserved
      · rintro file ⟨-,run,hending,hrun⟩ hnone happly
        have hsucceeded := succeeded_of_runFault hrun
        have herror := hsilent run hkey hending hsucceeded.1 hnone
        rw [hresult,hending,happly] at herror
        exact (interpret_error_iff hrun).mp herror
    · rintro ⟨hown,hleft⟩
      refine ⟨fun result h hpass => ?_,fun run _ hending hzero hnone => ?_⟩
      · rw [hresult] at h
        obtain ⟨hrun,payload,findings,happly,hfault,hfindings,hblocking⟩ := interpret_pass h hpass
        cases hending : a.ending with
        | stopped preserve run =>
          rw [hending] at hrun
          exact absurd hrun (runFault_stopped preserve run)
        | returned run =>
          rw [hending] at hrun
          have hjudged : a.Judged settings := ⟨hkey,run,hending,hrun⟩
          cases hfile : a.effect.own with
          | none =>
            have hrefused := hleft _ hjudged hfile happly
            exact absurd hfault hrefused
          | some file =>
            rw [own_apply dir hfile] at happly
            cases happly
            obtain ⟨hcovers,hsame⟩ := payloadFault_eq_none hfault
            obtain ⟨observed,hobserved⟩ := Option.ne_none_iff_exists'.mp
              (hown payload hjudged hfile hfault findings hfindings hblocking)
            refine ⟨run,payload,rfl,succeeded_of_runFault hrun,rfl,hcovers,⟨observed,hobserved,hsame observed hobserved⟩,?_⟩
            rintro ⟨other,hother,hblocked⟩
            rw [hfindings] at hother
            cases hother
            rw [hblocking] at hblocked
            cases hblocked
      · rw [hresult,hending]
        cases hrun : runFault settings run with
        | some detail => exact ⟨errorResult settings a.routeId detail,by simp only [boundedRun,interpret,hrun],rfl⟩
        | none =>
          cases happly : a.effect.apply dir with
          | none => exact ⟨errorResult settings a.routeId "ocr output file missing",by simp only [boundedRun,interpret,hrun],rfl⟩
          | some file => exact (interpret_error_iff hrun).mpr (hleft file ⟨hkey,run,hending,hrun⟩ hnone happly)

/-- In every sequence of attempts in one directory, each verdict rests on the attempt's own
output exactly when each attempt that is judged by the file is judged by a fresh one. -/
theorem own_verdicts_iff (ops : TextOps) (settings : Settings) (dir : Option RawFile) (attempts : List Attempt) :
    Run.AllSteps (nextDir ops settings) (fun dir a => a.OwnVerdict ops settings dir) dir attempts ↔
      Run.AllSteps (nextDir ops settings) (fun dir a => a.Fresh ops settings dir) dir attempts := by
  induction attempts generalizing dir with
  | nil => exact Iff.rfl
  | cons a attempts ih =>
    rw [Run.allSteps_cons_some rfl,Run.allSteps_cons_some rfl,ownVerdict_iff,ih]

end Facts

def asciiText : TextOps where
  lower text := String.ofList (text.toList.map Char.toLower)
  isDigit := Char.isDigit
  str _ := ""
  int _ := none

def cleanPayload : Fields :=
  [("manifest",.obj [("coverage",.obj [("selected",.arr [.str "a.py"])]),
    ("execution",.obj [("model",.str "cx/a"),("ocr_version",.str "v1.12.9")])]),("comments",.arr [])]

def cleanAttempt : Attempt where
  routeId := "cx/a"
  ending := .returned {exitCode := 0}
  effect := .wrote (.value (.obj cleanPayload))

/-- The second attempt writes nothing and passes on what the first one left. -/
theorem stale_output_passes : ¬ Run.AllSteps (nextDir asciiText ⟨"ocr-raw.json","300"⟩)
    (fun dir a => a.OwnVerdict asciiText ⟨"ocr-raw.json","300"⟩ dir) none [cleanAttempt,{cleanAttempt with effect := .untouched}] := by
  intro h
  have hsecond := ((Run.allSteps_cons_some rfl).mp ((Run.allSteps_cons_some rfl).mp h).2).1
  obtain ⟨result,hresult,herror⟩ := hsecond.silent _ rfl rfl rfl rfl
  have hpass : (interpret asciiText ⟨"ocr-raw.json","300"⟩ {exitCode := 0} (some (.value (.obj cleanPayload))) "cx/a"
      {exitCode := 0}).map ReviewResult.status = some .pass := by decide
  have hstatus := congrArg (Option.map ReviewResult.status) hresult
  rw [Option.map_some,herror] at hstatus
  exact absurd (hpass.symm.trans hstatus) (by decide)

end Verdict.Review

import Verdict.Runtime.Driver

/-! # Which effects the segments of a driver have

States are recorded by `_set` alone. A node is validated, and its commit set, only behind
the awaits that seal it.
-/
namespace Verdict.Runtime
open Driver
open List (all_append all_eq_true)

/-- Only `_set` records a state. -/
def Eff.plain : Eff → Bool
  | .emit (.nodeState _ _ _) => false
  | _ => true

def Eff.unsealing : Eff → Bool
  | .emit (.nodeState _ _ _) | .set .validated _ | .commit _ => false
  | _ => true

def Eff.discreet : Eff → Bool
  | .emit (.integrate _ _) | .emit (.review _ _ _) | .emit (.runFinished _) => false
  | _ => true

def Eff.ordinary (e : Eff) : Bool := e.unsealing && e.discreet

theorem Eff.plain_of_unsealing {e : Eff} (h : e.unsealing = true) : e.plain = true := by
  cases e with
  | emit body => cases body <;> first | rfl | cases h
  | _ => rfl

def Pc.sealing : Pc → Bool
  | .commit | .seal | .mergeRemove _ _ => true
  | _ => false

section
variable {cfg : Config} {n : WorkNode} {t t' : Task} {run : NodeRun}
variable (failure : FailureClassification)

theorem ordinary_recordFailure (v : Bool) : (recordFailure cfg run failure v).all Eff.ordinary = true := by
  simp only [recordFailure,all_append]
  have hset : (Eff.set (if v = true then .rejected else .terminalFailure) "").ordinary = true := by cases v <;> rfl
  have hhead : [Eff.fail failure,.set (if v = true then .rejected else .terminalFailure) "",
      .emit (.failure failure.category run.routeId (some run.attempt))].all Eff.ordinary = true := by
    simp only [List.all_cons,hset]
    rfl
  rw [hhead]
  split <;> split <;> rfl

theorem ordinary_prepared (restored fits : Bool) (origin : Origin) :
    (prepared cfg n t run restored fits origin).1.all Eff.ordinary = true := by
  have hrestoring : (restoring n run restored).all Eff.ordinary = true := by
    simp only [restoring]
    split <;> rfl
  have hsend : (sending n run restored).all Eff.ordinary = true := by
    simp [sending,hrestoring,Eff.ordinary,Eff.unsealing,Eff.discreet]
  have hdenied : ∀ failure reason, (denied cfg run failure reason).all Eff.ordinary = true := by
    intro failure reason
    simp [denied,all_append,ordinary_recordFailure,Eff.ordinary,Eff.unsealing,Eff.discreet]
  simp only [prepared]
  split
  · rw [all_append,hsend,hdenied,Bool.and_true]
  · split
    · split
      · rw [all_append,hsend,hdenied,Bool.and_true]
      · rw [all_append,hsend,hdenied,Bool.and_true]
      · exact hsend
    · split
      · rw [all_append,hsend,hdenied,Bool.and_true]
      · exact hsend

theorem ordinary_executed (ok usable : Bool) (failure : FailureClassification) :
    (executed cfg t run ok usable failure).1.all Eff.ordinary = true := by
  simp only [executed]
  split
  · simp [ordinary_recordFailure,Eff.ordinary,Eff.unsealing,Eff.discreet]
  · split <;> rfl

theorem ordinary_verifying (changed : Bool) : (verifying n t changed).1.all Eff.ordinary = true := by
  simp only [verifying]
  split <;> rfl

theorem ordinary_validated (files : List String) (failure : FailureClassification) :
    (validated cfg n t run files failure).1.all Eff.ordinary = true := by
  simp only [validated]
  split
  · split
    · simp [ordinary_recordFailure,Eff.ordinary,Eff.unsealing,Eff.discreet]
    · simp only [all_append,ordinary_verifying,Bool.and_true]
      split <;> rfl
  · split
    · simp [ordinary_recordFailure,Eff.ordinary,Eff.unsealing,Eff.discreet]
    · exact ordinary_verifying _

theorem ordinary_adjust : (adjust cfg run failure).all Eff.ordinary = true := by
  simp only [adjust]
  split
  · simp only [repack]
    repeat' split
    all_goals rfl
  · split <;> rfl
  · split <;> rfl
  · rfl

theorem ordinary_settle : (settle cfg t run).1.all Eff.ordinary = true := by
  simp only [settle]
  split
  · rfl
  · split
    · rfl
    · split <;> simp [ordinary_adjust,Eff.ordinary,Eff.unsealing,Eff.discreet]

variable {pc : Pc} {reply : Reply} {seg : Segment}

theorem ordinary_segment (hpc : pc.sealing = false)
    (h : Driver.segment cfg n t run pc reply = some seg) : seg.1.all Eff.ordinary = true := by
  have hrevoked : ∀ routeId, (revoked cfg t routeId).1.all Eff.ordinary = true := by
    intro routeId
    simp only [revoked]
    split <;> rfl
  have hbound : ∀ routeId, (bound t run routeId).1.all Eff.ordinary = true := by
    intro routeId
    simp only [bound]
    split <;> rfl
  unfold Driver.segment at h
  split at h
  all_goals first
    | cases hpc
    | skip
  all_goals
    repeat' split at h
  all_goals
    cases h <;> first
    | rfl
    | exact ordinary_recordFailure _ _
    | exact ordinary_prepared _ _ _
    | exact ordinary_executed _ _ _
    | exact ordinary_validated _ _
    | exact ordinary_settle
    | exact hbound _
    | simp [hrevoked,ordinary_recordFailure,Eff.ordinary,Eff.unsealing,Eff.discreet]

theorem ordinary_loopHead : (loopHead cfg t run).1.all Eff.ordinary = true := by
  simp only [loopHead]
  split <;> rfl

variable {effs : List Eff}

theorem all_unsealing_of_ordinary (h : effs.all Eff.ordinary = true) : effs.all Eff.unsealing = true :=
  all_eq_true.mpr fun e he => (Bool.and_eq_true_iff.mp (all_eq_true.mp h e he)).1

theorem all_discreet_of_ordinary (h : effs.all Eff.ordinary = true) : effs.all Eff.discreet = true :=
  all_eq_true.mpr fun e he => (Bool.and_eq_true_iff.mp (all_eq_true.mp h e he)).2

theorem unsealing_recordFailure (v : Bool) :
    (recordFailure cfg run failure v).all Eff.unsealing = true := all_unsealing_of_ordinary (ordinary_recordFailure _ _)

theorem all_plain_of_unsealing (h : effs.all Eff.unsealing = true) : effs.all Eff.plain = true :=
  all_eq_true.mpr fun e he => Eff.plain_of_unsealing (all_eq_true.mp h e he)

theorem plain_segment (h : Driver.segment cfg n t run pc reply = some seg) :
    seg.1.all Eff.plain = true := by
  cases hpc : pc.sealing with
  | false => exact all_plain_of_unsealing (all_unsealing_of_ordinary (ordinary_segment hpc h))
  | true =>
    have hrecord : ∀ failure v, (recordFailure cfg run failure v).all Eff.plain = true :=
      fun _ _ => all_plain_of_unsealing (unsealing_recordFailure _ _)
    unfold Driver.segment at h
    split at h
    all_goals first
      | cases hpc
      | skip
    · split at h
      · cases h
      · cases h
        rfl
    · cases h
      rfl
    · rename_i base failed gone
      cases h
      cases failed <;> simp [mergeRemoved,hrecord,Eff.plain]
    · cases h

theorem plain_script (h : script cfg n t run reply = some (effs,t')) : effs.all Eff.plain = true := by
  simp only [script,Option.map_eq_some_iff] at h
  obtain ⟨seg,hseg,hres⟩ := h
  have hplain := plain_segment hseg
  split at hres
  · cases hres
    rw [all_append,hplain,all_plain_of_unsealing (all_unsealing_of_ordinary ordinary_loopHead)]
    rfl
  · cases hres
    exact hplain

theorem discreet_segment (h : Driver.segment cfg n t run pc reply = some seg) :
    seg.1.all Eff.discreet = true := by
  cases hpc : pc.sealing with
  | false => exact all_discreet_of_ordinary (ordinary_segment hpc h)
  | true =>
    have hrecord : ∀ failure v, (recordFailure cfg run failure v).all Eff.discreet = true :=
      fun _ _ => all_discreet_of_ordinary (ordinary_recordFailure _ _)
    unfold Driver.segment at h
    split at h
    all_goals first
      | cases hpc
      | skip
    · split at h
      · cases h
      · cases h
        rfl
    · cases h
      rfl
    · rename_i base failed gone
      cases h
      cases failed <;> simp [mergeRemoved,hrecord,Eff.discreet]
    · cases h

theorem discreet_script (h : script cfg n t run reply = some (effs,t')) : effs.all Eff.discreet = true := by
  simp only [script,Option.map_eq_some_iff] at h
  obtain ⟨seg,hseg,hres⟩ := h
  have hdiscreet := discreet_segment hseg
  split at hres
  · cases hres
    rw [all_append,hdiscreet,all_discreet_of_ordinary ordinary_loopHead]
    rfl
  · cases hres
    exact hdiscreet

end
end Verdict.Runtime

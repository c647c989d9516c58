import Mathlib.Algebra.Order.Field.Basic
import Mathlib.Data.Finset.Insert
import Mathlib.Tactic.Linarith
import Verdict.Basics.Raising

/-! # Task history

`score_task_history` weighs the verified attempts of a route on a task family by their age, each
id once. How the weight falls with the age is left open, and sums of weights are exact. The score
moves with an attempt that is added, but an attempt also counts towards the number that a demotion
needs, so that one success can demote.
-/
namespace Verdict.Strength
open Raising
open Option (elim_none elim_some)

/-- A `datetime`, by its instant in microseconds. -/
inductive Datetime
  | aware (t : ℤ)
  | naive

structure StrengthProfileError where
  message : String
  deriving DecidableEq

structure OutcomeObservation where
  (routeId taskFamily : String)
  observedAt : Option Datetime := none
  qualityCredit : Option ℚ := none
  observationId : Option String := none

structure TaskHistoryScore where
  score : ℚ
  observedN : ℕ
  weightedN : ℚ
  demoted : Bool
  deriving DecidableEq

def HISTORY_WINDOW : ℤ := 30 * 86400 * 1000000

def DEMOTION_SCORE_THRESHOLD : ℚ := 2 / 5

def DEMOTION_MIN_OBSERVED_N : ℕ := 3

def HISTORY_PRIOR : ℚ := 1 / 2

structure Decay where
  weight : ℤ → ℚ
  pos : ∀ age, 0 < weight age
  le_one : ∀ age, weight age ≤ 1

def utc (fieldName : String) : Datetime → Except StrengthProfileError ℤ
  | .aware t => .ok t
  | .naive => .error ⟨fieldName ++ " must be timezone-aware"⟩

structure Tally where
  weightedAccepted : ℚ := 0
  weightedPartial : ℚ := 0
  weightedEligible : ℚ := 0
  observedN : ℕ := 0
  seenIds : Finset String := ∅

namespace Tally

def see (s : Tally) (id : Option String) : Tally := {s with seenIds := id.elim s.seenIds (insert · s.seenIds)}

def add (s : Tally) (weight credit : ℚ) : Tally :=
  { s with
    observedN := s.observedN + 1
    weightedEligible := s.weightedEligible + weight
    weightedAccepted := if credit = 1 then s.weightedAccepted + weight else s.weightedAccepted
    weightedPartial := if credit ≠ 1 ∧ credit = 1 / 2 then s.weightedPartial + weight else s.weightedPartial }

def score (s : Tally) : ℚ := (s.weightedAccepted + 1 / 2 * s.weightedPartial + 1) / (s.weightedEligible + 2)

def finish (s : Tally) : TaskHistoryScore :=
  if s.observedN = 0 then ⟨HISTORY_PRIOR,0,0,false⟩
  else ⟨s.score,s.observedN,s.weightedEligible,
    decide (s.score < DEMOTION_SCORE_THRESHOLD) && decide (DEMOTION_MIN_OBSERVED_N ≤ s.observedN)⟩

end Tally

section
variable (d : Decay) (routeId taskFamily : String)

def step (asOf : ℤ) (s : Tally) (obs : OutcomeObservation) : Except StrengthProfileError Tally :=
  if obs.routeId ≠ routeId ∨ obs.taskFamily ≠ taskFamily then .ok s
  else match obs.qualityCredit, obs.observedAt with
    | some credit, some stamp =>
      if obs.observationId.any (fun id => decide (id ∈ s.seenIds)) then .ok s
      else do
        let observedAt ← utc "observed_at" stamp
        let age := asOf - observedAt
        if ¬ (0 ≤ age ∧ age < HISTORY_WINDOW) then return s.see obs.observationId
        return (s.see obs.observationId).add (d.weight age) credit
    | _, _ => .ok s

def scoreTaskHistory (observations : List OutcomeObservation) (asOf : Datetime) : Except StrengthProfileError TaskHistoryScore := do
  let asOf ← utc "as_of" asOf
  let s ← observations.foldlM (step d routeId taskFamily asOf) {}
  return s.finish

end

/-! ### What an attempt adds -/

def Tally.take (s : Tally) (id : Option String) (gain : Option (ℚ × ℚ)) : Tally :=
  gain.elim (s.see id) fun g => (s.see id).add g.1 g.2

def Tally.Seen (s : Tally) (id : Option String) : Prop := id.any (fun i => decide (i ∈ s.seenIds)) = true

instance (s : Tally) (id : Option String) : Decidable (s.Seen id) := inferInstanceAs (Decidable (_ = _))

def Apart (i j : Option String) : Prop := ∀ k ∈ i, k ∉ j

theorem Apart.symm {i j : Option String} (h : Apart i j) : Apart j i := fun k hk hki => h k hki hk

variable {s : Tally} {i j : Option String} {g h : Option (ℚ × ℚ)}

theorem Tally.seenIds_take : (s.take i g).seenIds = i.elim s.seenIds (insert · s.seenIds) := by
  cases g <;> rfl

theorem Tally.seen_take (hij : Apart i j) : (s.take i g).Seen j ↔ s.Seen j := by
  rw [Seen,Seen,Tally.seenIds_take]
  cases j with
  | none => exact Iff.rfl
  | some k =>
    cases i with
    | none => exact Iff.rfl
    | some l =>
      have hne : k ≠ l := fun heq => hij l rfl (heq ▸ rfl)
      simp [hne]

theorem Tally.take_comm : (s.take i g).take j h = (s.take j h).take i g := by
  have hids : j.elim (i.elim s.seenIds (insert · s.seenIds)) (insert · (i.elim s.seenIds (insert · s.seenIds))) =
      i.elim (j.elim s.seenIds (insert · s.seenIds)) (insert · (j.elim s.seenIds (insert · s.seenIds))) := by
    cases i with
    | none => rfl
    | some k =>
      cases j with
      | none => rfl
      | some l => exact Finset.insert_comm l k s.seenIds
  cases g with
  | none => cases h <;> simp only [take,see,add,elim_none,elim_some,hids]
  | some g =>
    cases h with
    | none => simp only [take,see,add,elim_none,elim_some,hids]
    | some h =>
      simp only [take,see,add,elim_some,hids,mk.injEq,and_true]
      refine ⟨?_,?_,add_right_comm _ _ _⟩
      · split <;> split <;> first | rfl | exact add_right_comm _ _ _
      · split <;> split <;> first | rfl | exact add_right_comm _ _ _

section Runs
variable {d : Decay} {routeId taskFamily : String} {asOf : ℤ} {l l' : List OutcomeObservation} {obs : OutcomeObservation}

def naiveError : StrengthProfileError := ⟨"observed_at must be timezone-aware"⟩

theorem step_cases (d : Decay) (routeId taskFamily : String) (asOf : ℤ) (obs : OutcomeObservation) :
    (∀ s, step d routeId taskFamily asOf s obs = .ok s) ∨
    ∃ gain : Option (Option (ℚ × ℚ)), ∀ s, step d routeId taskFamily asOf s obs =
      if s.Seen obs.observationId then .ok s else gain.elim (.error naiveError) fun g => .ok (s.take obs.observationId g) := by
  by_cases hother : obs.routeId ≠ routeId ∨ obs.taskFamily ≠ taskFamily
  · exact .inl fun s => if_pos hother
  · cases hcredit : obs.qualityCredit with
    | none => exact .inl fun s => by rw [step,if_neg hother,hcredit]
    | some credit =>
      cases hstamp : obs.observedAt with
      | none => exact .inl fun s => by rw [step,if_neg hother,hcredit,hstamp]
      | some stamp =>
        right
        cases stamp with
        | naive => exact ⟨none,fun s => by rw [step,if_neg hother,hcredit,hstamp]; rfl⟩
        | aware t =>
          by_cases hage : 0 ≤ asOf - t ∧ asOf - t < HISTORY_WINDOW
          · refine ⟨some (some (d.weight (asOf - t),credit)),fun s => ?_⟩
            rw [step,if_neg hother,hcredit,hstamp]
            simp only [utc,bind,Except.bind,if_neg (not_not.mpr hage)]
            rfl
          · refine ⟨some none,fun s => ?_⟩
            rw [step,if_neg hother,hcredit,hstamp]
            simp only [utc,bind,Except.bind,if_pos hage]
            rfl

theorem step_comm {a b : OutcomeObservation} (hab : Apart a.observationId b.observationId) (s : Tally) :
    (step d routeId taskFamily asOf s a >>= fun s => step d routeId taskFamily asOf s b) = step d routeId
    taskFamily asOf s b >>= fun s => step d routeId taskFamily asOf s a := by
  rcases step_cases d routeId taskFamily asOf a with ha | ⟨ga,ha⟩
  · rw [ha]
    show step d routeId taskFamily asOf s b = _
    cases step d routeId taskFamily asOf s b with
    | error e => rfl
    | ok s' => exact (ha s').symm
  rcases step_cases d routeId taskFamily asOf b with hb | ⟨gb,hb⟩
  · rw [hb]
    show _ = step d routeId taskFamily asOf s a
    cases step d routeId taskFamily asOf s a with
    | error e => rfl
    | ok s' => exact hb s'
  by_cases hsa : s.Seen a.observationId
  · rw [ha,if_pos hsa,hb]
    by_cases hsb : s.Seen b.observationId
    · rw [if_pos hsb]
      exact (hb s).trans ((if_pos hsb).trans ((if_pos hsa).symm.trans (ha s).symm))
    · rw [if_neg hsb]
      cases gb with
      | none => exact (hb s).trans (if_neg hsb)
      | some g =>
        refine ((hb s).trans (if_neg hsb)).trans ?_
        exact ((ha _).trans (if_pos ((Tally.seen_take hab.symm).mpr hsa))).symm
  · by_cases hsb : s.Seen b.observationId
    · rw [ha,if_neg hsa,hb s,if_pos hsb]
      cases ga with
      | none => exact ((ha s).trans (if_neg hsa)).symm
      | some g =>
        refine ((hb _).trans (if_pos ((Tally.seen_take hab).mpr hsb))).trans ?_
        exact ((ha s).trans (if_neg hsa)).symm
    · rw [ha,if_neg hsa,hb s,if_neg hsb]
      cases ga with
      | none =>
        cases gb with
        | none => rfl
        | some g => exact ((ha _).trans (if_neg (mt (Tally.seen_take hab.symm).mp hsa))).symm
      | some g =>
        have hg : ∀ g, step d routeId taskFamily asOf (s.take a.observationId g) b =
            gb.elim (.error naiveError) fun h => .ok ((s.take a.observationId g).take b.observationId h) := fun g =>
          (hb _).trans (if_neg (mt (Tally.seen_take hab).mp hsb))
        cases gb with
        | none => exact hg g
        | some h =>
          refine (hg g).trans (Eq.trans ?_ ((ha _).trans (if_neg (mt (Tally.seen_take hab.symm).mp hsa))).symm)
          exact congrArg Except.ok Tally.take_comm

def OneEach (l : List OutcomeObservation) : Prop :=
  ∀ a ∈ l, ∀ b ∈ l, ∀ id ∈ a.observationId, id ∈ b.observationId → a = b

theorem foldlM_step_perm (h : l.Perm l') (hone : OneEach l) (s : Tally) :
    l.foldlM (step d routeId taskFamily asOf) s = l'.foldlM (step d routeId taskFamily asOf) s := by
  rw [List.foldlM_eq_foldl,List.foldlM_eq_foldl]
  refine h.foldl_eq' (fun a ha b hb r => ?_) _
  cases r with
  | error e => rfl
  | ok s =>
    by_cases hab : Apart a.observationId b.observationId
    · exact step_comm hab s
    · obtain ⟨id,hia,hib⟩ : ∃ id, id ∈ a.observationId ∧ id ∈ b.observationId := by
        simpa only [Apart,not_forall,not_not,exists_prop] using hab
      rw [hone a ha b hb id hia hib]

theorem foldlM_step_take (hfresh : ∀ o ∈ l, Apart i o.observationId) (s : Tally) : l.foldlM
    (step d routeId taskFamily asOf) (s.take i g) = (l.foldlM (step d routeId taskFamily asOf) s).map fun s
    => s.take i g := by
  induction l generalizing s with
  | nil => rfl
  | cons o l ih =>
    obtain ⟨ho,hl⟩ := List.forall_mem_cons.mp hfresh
    rw [List.foldlM_cons,List.foldlM_cons]
    rcases step_cases d routeId taskFamily asOf o with hstep | ⟨go,hstep⟩
    · rw [hstep,hstep]
      exact ih hl s
    · rw [hstep,hstep]
      by_cases hs : s.Seen o.observationId
      · rw [if_pos ((Tally.seen_take ho).mpr hs),if_pos hs]
        exact ih hl s
      · rw [if_neg (mt (Tally.seen_take ho).mp hs),if_neg hs]
        cases go with
        | none => rfl
        | some h =>
          rw [elim_some,elim_some,Tally.take_comm]
          exact ih hl _

/-! ### Bounds -/

structure Tally.Sound (s : Tally) : Prop where
  accepted : 0 ≤ s.weightedAccepted
  partly : 0 ≤ s.weightedPartial
  eligible : s.weightedAccepted + s.weightedPartial ≤ s.weightedEligible
  unobserved : s.observedN = 0 → s.weightedAccepted = 0 ∧ s.weightedPartial = 0 ∧ s.weightedEligible = 0

variable {w : ℚ}

theorem Tally.Sound.add (hs : s.Sound) (hw : 0 < w) (credit : ℚ) : (s.add w credit).Sound := by
  obtain ⟨haccepted,hpartly,heligible,-⟩ := hs
  refine ⟨?_,?_,?_,fun h => absurd h (Nat.succ_ne_zero _)⟩
  · simp only [Tally.add]
    split <;> linarith
  · simp only [Tally.add]
    split <;> linarith
  · simp only [Tally.add]
    by_cases hone : credit = 1
    · rw [if_pos hone,if_neg fun h => h.1 hone]
      linarith
    · rw [if_neg hone]
      split <;> linarith

variable {s' : Tally}

theorem Tally.Sound.step (hs : s.Sound) (h : step d routeId taskFamily asOf s obs = .ok s') : s'.Sound := by
  have hsee : (s.see obs.observationId).Sound := ⟨hs.accepted,hs.partly,hs.eligible,hs.unobserved⟩
  unfold Strength.step at h
  split at h
  · exact Except.ok.inj h ▸ hs
  · split at h
    · split at h
      · exact Except.ok.inj h ▸ hs
      · obtain ⟨t,-,h⟩ := bind_ok.mp h
        dsimp only at h
        split at h
        · exact Except.ok.inj h ▸ hsee
        · exact Except.ok.inj h ▸ hsee.add (d.pos _) _
    · exact Except.ok.inj h ▸ hs

theorem Tally.Sound.score_bounds (hs : s.Sound) : 0 < s.score ∧ s.score < 1 := by
  obtain ⟨haccepted,hpartly,heligible,-⟩ := hs
  have hden : 0 < s.weightedEligible + 2 := by linarith
  refine ⟨div_pos (by linarith) hden,(div_lt_one hden).mpr (by linarith)⟩

theorem Tally.Sound.finish_score (hs : s.Sound) : s.finish.score = s.score := by
  unfold Tally.finish
  split
  · rename_i h
    obtain ⟨ha,hp,he⟩ := hs.unobserved h
    norm_num [Tally.score,HISTORY_PRIOR,ha,hp,he]
  · rfl

theorem Tally.finish_observedN (s : Tally) : s.finish.observedN = s.observedN := by
  unfold Tally.finish
  split
  · rename_i h
    exact h.symm
  · rfl

theorem Tally.finish_demoted (s : Tally) :
    s.finish.demoted = true ↔ s.score < DEMOTION_SCORE_THRESHOLD ∧ DEMOTION_MIN_OBSERVED_N ≤ s.observedN := by
  unfold Tally.finish
  split
  · rename_i h
    rw [h]
    exact iff_of_false Bool.noConfusion fun hn => absurd hn.2 (by decide)
  · rw [Bool.and_eq_true,decide_eq_true_eq,decide_eq_true_eq]

theorem Tally.Sound.score_success (hs : s.Sound) (hw : 0 < w) : s.score ≤ (s.add w 1).score := by
  obtain ⟨haccepted,hpartly,heligible,-⟩ := hs
  simp only [Tally.score,Tally.add,if_true,ne_eq,not_true_eq_false,false_and,if_false]
  rw [div_le_div_iff₀ (by linarith) (by linarith)]
  nlinarith

theorem Tally.Sound.score_failure (hs : s.Sound) (hw : 0 < w) : (s.add w 0).score ≤ s.score := by
  obtain ⟨haccepted,hpartly,heligible,-⟩ := hs
  norm_num [Tally.score,Tally.add]
  rw [div_le_div_iff₀ (by linarith) (by linarith)]
  nlinarith

/-! ### One attempt more -/

/-- An attempt of the route on the family with this credit, at a time inside the window. -/
def Qualifies (routeId taskFamily : String) (asOf : Datetime) (credit : ℚ) (obs : OutcomeObservation) : Prop :=
  obs.routeId = routeId ∧ obs.taskFamily = taskFamily ∧ obs.qualityCredit = some credit ∧
    ∃ now t, asOf = .aware now ∧ obs.observedAt = some (.aware t) ∧ 0 ≤ now - t ∧ now - t < HISTORY_WINDOW

variable {credit : ℚ}

theorem step_of_qualifies (h : Qualifies routeId taskFamily (.aware asOf) credit obs) (hs : ¬ s.Seen obs.observationId) :
    ∃ w, 0 < w ∧ step d routeId taskFamily asOf s obs = .ok (s.take obs.observationId (some (w,credit))) := by
  obtain ⟨rfl,rfl,hcredit,now,t,hnow,hstamp,hage⟩ := h
  cases hnow
  refine ⟨d.weight (asOf - t),d.pos _,?_⟩
  rw [step,if_neg fun h => h.elim (· rfl) (· rfl),hcredit,hstamp]
  refine (if_neg hs).trans ?_
  simp only [utc,bind,Except.bind,if_neg (not_not.mpr hage)]
  rfl

theorem not_seen_foldlM (hfresh : ∀ o ∈ l, Apart i o.observationId) (hs : ¬ s.Seen i)
    (h : l.foldlM (step d routeId taskFamily asOf) s = .ok s') : ¬ s'.Seen i := by
  refine foldlM_preserves (P := fun r => ¬ r.Seen i) (fun r o r' ho hr hstep => ?_) hs h
  rcases step_cases d routeId taskFamily asOf o with hskip | ⟨go,hgo⟩
  · exact Except.ok.inj ((hskip r).symm.trans hstep) ▸ hr
  · rw [hgo] at hstep
    split at hstep
    · exact Except.ok.inj hstep ▸ hr
    · cases go with
      | none => cases hstep
      | some g => exact Except.ok.inj hstep ▸ mt (Tally.seen_take (hfresh o ho).symm).mp hr

theorem foldlM_insert {front back : List OutcomeObservation}
    (hfresh : ∀ o ∈ front ++ back, Apart obs.observationId o.observationId)
    (hobs : Qualifies routeId taskFamily (.aware asOf) credit obs)
    (h : (front ++ back).foldlM (step d routeId taskFamily asOf) {} = .ok s) : ∃ w, 0 < w ∧
    (front ++ obs :: back).foldlM (step d routeId taskFamily asOf) {} = .ok
    (s.take obs.observationId (some (w,credit))) := by
  obtain ⟨r,hfront,hback⟩ := foldlM_append_ok.mp h
  have hempty : ¬ ({} : Tally).Seen obs.observationId := by cases obs.observationId <;> simp [Tally.Seen]
  have hunseen := not_seen_foldlM (fun o ho => hfresh o (List.mem_append_left _ ho)) hempty hfront
  obtain ⟨w,hw,hstep⟩ := step_of_qualifies (d := d) hobs hunseen
  refine ⟨w,hw,foldlM_append_ok.mpr ⟨r,hfront,?_⟩⟩
  rw [List.foldlM_cons,hstep]
  refine (foldlM_step_take (fun o ho => hfresh o (List.mem_append_right _ ho)) r).trans ?_
  rw [hback]
  rfl

theorem scoreTaskHistory_ok {stamp : Datetime} {r : TaskHistoryScore} : scoreTaskHistory d routeId
    taskFamily l stamp = .ok r ↔ ∃ now s, stamp = .aware now ∧ l.foldlM (step d routeId taskFamily now) {} =
    .ok s ∧ s.finish = r := by
  cases stamp with
  | naive => exact iff_of_false (fun h => nomatch h) fun ⟨_,_,h,_⟩ => nomatch h
  | aware now =>
    refine bind_ok.trans ⟨?_,?_⟩
    · rintro ⟨_,hnow,h⟩
      cases hnow
      obtain ⟨s,hs,hr⟩ := bind_ok.mp h
      exact ⟨now,s,rfl,hs,Except.ok.inj hr⟩
    · rintro ⟨_,s,hnow,hs,rfl⟩
      cases hnow
      exact ⟨now,rfl,bind_ok.mpr ⟨s,hs,rfl⟩⟩

theorem sound_foldlM (h : l.foldlM (step d routeId taskFamily asOf) {} = .ok s) : s.Sound :=
  foldlM_preserves (fun _ _ _ _ hr hstep => hr.step hstep) ⟨le_rfl,le_rfl,add_zero _ |>.le,fun _ => ⟨rfl,rfl,rfl⟩⟩ h

end Runs

theorem history_follows_credit (d : Decay) (routeId taskFamily : String) (asOf : Datetime) :
    (∀ l r, scoreTaskHistory d routeId taskFamily l asOf = .ok r → 0 < r.score ∧ r.score < 1) ∧
    (∀ front back obs r credit, (∀ o ∈ front ++ back, Apart obs.observationId o.observationId) →
      scoreTaskHistory d routeId taskFamily (front ++ back) asOf = .ok r → Qualifies routeId taskFamily asOf credit obs →
      ∃ r', scoreTaskHistory d routeId taskFamily (front ++ obs :: back) asOf = .ok r' ∧
        (credit = 1 → r.score ≤ r'.score ∧ (r.demoted = false → r'.demoted = true → r.observedN = 2)) ∧
        (credit = 0 → r'.score ≤ r.score ∧ (r.demoted = true → r'.demoted = true))) ∧
    ∀ l l', l.Perm l' → OneEach l →
      scoreTaskHistory d routeId taskFamily l asOf = scoreTaskHistory d routeId taskFamily l' asOf := by
  refine ⟨fun l r h => ?_,fun front back obs r credit hfresh h hobs => ?_,fun l l' hperm hone => ?_⟩
  · obtain ⟨now,s,-,hs,rfl⟩ := scoreTaskHistory_ok.mp h
    rw [(sound_foldlM hs).finish_score]
    exact (sound_foldlM hs).score_bounds
  · obtain ⟨now,s,rfl,hs,rfl⟩ := scoreTaskHistory_ok.mp h
    obtain ⟨w,hw,hs'⟩ := foldlM_insert hfresh hobs hs
    have hsound := sound_foldlM hs
    have hsound' := sound_foldlM hs'
    refine ⟨_,scoreTaskHistory_ok.mpr ⟨now,_,rfl,hs',rfl⟩,?_,?_⟩
    · rintro rfl
      have hscore : s.score ≤ (s.take obs.observationId (some (w,1))).score := hsound.score_success hw
      refine ⟨by rwa [hsound.finish_score,hsound'.finish_score],fun hbefore hafter => ?_⟩
      obtain ⟨hlow,hmany⟩ := (Tally.finish_demoted _).mp hafter
      have hfew : ¬ DEMOTION_MIN_OBSERVED_N ≤ s.observedN := fun hn =>
        Bool.eq_false_iff.mp hbefore ((Tally.finish_demoted s).mpr ⟨lt_of_le_of_lt hscore hlow,hn⟩)
      have hcount : (s.take obs.observationId (some (w,1))).observedN = s.observedN + 1 := rfl
      rw [hcount] at hmany
      rw [Tally.finish_observedN]
      unfold DEMOTION_MIN_OBSERVED_N at hmany hfew
      omega
    · rintro rfl
      have hscore : (s.take obs.observationId (some (w,0))).score ≤ s.score := hsound.score_failure hw
      refine ⟨by rwa [hsound.finish_score,hsound'.finish_score],fun hbefore => ?_⟩
      obtain ⟨hlow,hmany⟩ := (Tally.finish_demoted _).mp hbefore
      exact (Tally.finish_demoted _).mpr ⟨lt_of_le_of_lt hscore hlow,Nat.le_succ_of_le hmany⟩
  · cases asOf with
    | naive => rfl
    | aware now => exact congrArg (fun r => r >>= fun s => pure s.finish) (foldlM_step_perm hperm hone {})

def weekly : Decay where
  weight age := if age < 7 * 86400 * 1000000 then 1 else 1 / 2
  pos age := by split <;> norm_num
  le_one age := by split <;> norm_num

def attempt (credit : ℚ) (t : ℤ) : OutcomeObservation :=
  {routeId := "a/m", taskFamily := "code", observedAt := some (.aware t), qualityCredit := some credit}

def week : ℤ := 7 * 86400 * 1000000

theorem success_demotes : ∃ r r', scoreTaskHistory weekly "a/m" "code" [attempt 0 week,attempt 0 week] (.aware week) = .ok r ∧
    scoreTaskHistory weekly "a/m" "code" [attempt 0 week,attempt 0 week,attempt 1 0] (.aware week) = .ok r' ∧
    r.demoted = false ∧ r'.demoted = true :=
  ⟨⟨1 / 4,2,2,false⟩,⟨1 / 3,3,5 / 2,true⟩,by decide +kernel,by decide +kernel,rfl,rfl⟩

def attemptOf (id : String) (credit : ℚ) (t : ℤ) : OutcomeObservation := {attempt credit t with observationId := some id}

/-- One failure is there twice, and counts once. -/
theorem recorded_success_raises_score : ∃ r', scoreTaskHistory weekly "a/m" "code"
    ([attemptOf "o1" 0 week,attemptOf "o1" 0 week] ++ attemptOf "o3" 1 0 :: [attemptOf "o2" 0 week])
    (.aware week) = .ok r' ∧ (1 / 4 : ℚ) ≤ r'.score := by
  obtain ⟨r',hr',hsuccess,-⟩ := (history_follows_credit weekly "a/m" "code" (.aware week)).2.1
    [attemptOf "o1" 0 week,attemptOf "o1" 0 week] [attemptOf "o2" 0 week] (attemptOf "o3" 1 0) ⟨1 / 4,2,2,false⟩ 1
    (by simp [Apart,attemptOf]) (by decide +kernel) ⟨rfl,rfl,rfl,week,0,rfl,rfl,by decide,by decide⟩
  exact ⟨r',hr',(hsuccess rfl).1⟩

end Verdict.Strength

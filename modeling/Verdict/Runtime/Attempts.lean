import Verdict.Runtime.Reachable

/-! # Bounded, never-repeating attempts

The attempt numbers dispatched for a node increase along the log of the run, across any
number of controller lives, and stay within the budget. Permit attempt ids are built from
run directory, node and attempt, so no two sends of a run share one.
-/
namespace Verdict.Runtime
open Driver Run

structure RunDir where
  (name digest : String)

def permitAttemptId (dir : RunDir) (nodeId : String) (attempt : ℕ) : String :=
  dir.name ++ ":" ++ dir.digest ++ ":" ++ nodeId ++ "-a" ++ toString attempt

def sends (log : List Event) : List (String × ℕ) :=
  log.filterMap (fun e => match e.body with
    | .dispatch _ attempt => some (e.nodeId,attempt)
    | _ => none)

theorem dispatchedAttempts_append (l l' : List Body) :
    dispatchedAttempts (l ++ l') = dispatchedAttempts l ++ dispatchedAttempts l' := List.filterMap_append

variable {n : WorkNode} {maxAttempts : ℕ}

theorem le_priorAttempts {log : List Body} {a : ℕ} (h : a ∈ dispatchedAttempts log) : a ≤ priorAttempts log := by
  induction log with
  | nil => cases h
  | cons b log ih =>
    cases b with
    | dispatch routeId attempt =>
      rcases List.mem_cons.mp h with rfl | h
      · exact le_max_left _ _
      · exact (ih h).trans (le_max_right _ _)
    | _ => exact ih h

theorem Conform.attempts {log : List Body} (h : Conform n maxAttempts log) :
    (dispatchedAttempts log).Pairwise (· < ·) ∧ ∀ a ∈ dispatchedAttempts log, a ≤ maxAttempts := by
  refine Conform.induction (P := fun l => (dispatchedAttempts l).Pairwise (· < ·) ∧
    ∀ a ∈ dispatchedAttempts l, a ≤ maxAttempts) ⟨.nil,by simp [dispatchedAttempts]⟩ (fun l b _ hb hl => ?_) h
  rw [dispatchedAttempts_append]
  cases b with
  | dispatch routeId attempt =>
    obtain ⟨_,_,htop,hmax,_⟩ := hb
    rw [track_top] at htop
    refine ⟨List.pairwise_append.mpr ⟨hl.1,List.pairwise_singleton _ _,fun a ha a' ha' => ?_⟩,fun a ha => ?_⟩
    · rw [List.mem_singleton.mp ha']
      exact (le_priorAttempts ha).trans_lt htop
    · rcases List.mem_append.mp ha with ha | ha
      · exact hl.2 a ha
      · rw [List.mem_singleton.mp ha]
        exact hmax
  | _ =>
    rw [show dispatchedAttempts l ++ dispatchedAttempts [_] = dispatchedAttempts l from List.append_nil _]
    exact hl

theorem count_sends (i : String) (a : ℕ) (log : List Event) :
    (sends log).count (i,a) = (dispatchedAttempts (nodeLog i log)).count a := by
  induction log with
  | nil => rfl
  | cons e log ih =>
    obtain ⟨j,b⟩ := e
    have hlog : nodeLog i (⟨j,b⟩ :: log) = nodeLog i [⟨j,b⟩] ++ nodeLog i log := nodeLog_append i [⟨j,b⟩] log
    have hsends : sends (⟨j,b⟩ :: log) = sends [⟨j,b⟩] ++ sends log := List.filterMap_append (l := [_])
    rw [hlog,hsends,dispatchedAttempts_append,List.count_append,List.count_append,ih]
    congr 1
    by_cases hj : j = i
    · subst hj
      have hown : nodeLog j [⟨j,b⟩] = [b] := by simp [nodeLog]
      rw [hown]
      cases b with
      | dispatch routeId attempt => simp [sends,dispatchedAttempts,List.count_cons]
      | _ => rfl
    · have hother : nodeLog i [⟨j,b⟩] = [] := by simp [nodeLog,hj]
      rw [hother]
      cases b with
      | dispatch routeId attempt => simp [sends,dispatchedAttempts,hj]
      | _ => rfl

/-- The digits behind the last `-a` are the attempt. -/
theorem permitAttemptId_injective (dir : RunDir) :
    Function.Injective fun p : String × ℕ => permitAttemptId dir p.1 p.2 := by
  rintro ⟨i,a⟩ ⟨j,b⟩ h
  have hlist := congrArg String.toList h
  simp only [permitAttemptId,String.toList_append,List.append_assoc,List.append_cancel_left_eq,
    Nat.toString_eq_repr,Nat.toList_repr] at hlist
  have hdigits : ∀ k, ∀ c ∈ (Nat.toDigits 10 k).reverse, c.isDigit = true := fun k c hc =>
    Nat.isDigit_of_mem_toDigits (by decide) (by decide) (List.mem_reverse.mp hc)
  have hrev := congrArg List.reverse hlist
  simp only [List.reverse_append] at hrev
  have htake := congrArg (List.takeWhile Char.isDigit) hrev
  rw [List.append_assoc,List.append_assoc,List.takeWhile_append_of_pos (hdigits a),
    List.takeWhile_append_of_pos (hdigits b)] at htake
  have hmark : ∀ l : List Char, List.takeWhile Char.isDigit ("-a".toList.reverse ++ l) = [] := fun _ => rfl
  rw [hmark,hmark,List.append_nil,List.append_nil] at htake
  have hab : a = b := by
    rw [← Nat.ofDigitChars_ten_toDigits (n := a),List.reverse_injective htake,Nat.ofDigitChars_ten_toDigits]
  subst hab
  have hij : i = j := String.toList_inj.mp (List.append_cancel_right hlist)
  rw [hij]

variable {g : WorkGraph} {cfg : Config} {s : Sys}

theorem reachable_sends_nodup {as : List Act} (h : exec (Sys.step g cfg) (Sys.init g) as = some s) :
    (sends s.log).Nodup := by
  rw [List.nodup_iff_count_le_one]
  rintro ⟨i,a⟩
  rw [count_sends]
  by_cases hi : i ∈ g.ids
  · obtain ⟨n,hn,rfl⟩ := List.mem_map.mp hi
    have hpair := (reachable_conform h hn).attempts.1
    exact List.nodup_iff_count_le_one.mp (hpair.imp fun hlt => hlt.ne) a
  · -- nothing is dispatched for an id outside the graph
    refine le_of_eq_of_le (List.count_eq_zero.mpr fun ha => ?_) (Nat.zero_le 1)
    obtain ⟨b,hb,hba⟩ := List.mem_filterMap.mp ha
    rcases reachable_sourced h _ (mem_nodeLog.mp hb) with hid | ⟨_,hrun⟩
    · exact hi hid
    · cases b with
      | dispatch => cases hrun
      | _ => cases hba

/-- In every state that any number of controller lives can reach, the dispatched attempts
of each worker node increase in log order within the budget, and all permit ids differ. -/
theorem attempts_increase_within_budget {as : List Act} (h : exec (Sys.step g cfg) (Sys.init g) as = some s) :
    (∀ n ∈ g.nodes, Worker n → (dispatchedAttempts (nodeLog n.nodeId s.log)).Pairwise (· < ·) ∧
      ∀ a ∈ dispatchedAttempts (nodeLog n.nodeId s.log), a ≤ cfg.policy.maxAttemptsPerNode) ∧
    ∀ dir, ((sends s.log).map fun p => permitAttemptId dir p.1 p.2).Nodup :=
  ⟨fun _ hn _ => (reachable_conform h hn).attempts,
    fun dir => (reachable_sends_nodup h).map (permitAttemptId_injective dir)⟩

def alpha : WorkNode where
  nodeId := "alpha"
  objective := "write a.py"
  ownedFiles := ["a.py"]
  verificationCommand := ["pytest"]
  ownedNormal := WorkNode.normal_a
  contextNormal := WorkNode.normal_nil
  implementOwns := WorkNode.implement_one "a.py"
  implementVerifies := WorkNode.verifies_pytest
  notSelf := List.not_mem_nil

def soloGraph : WorkGraph where
  nodes := [alpha]
  parallel := WorkGraph.parallel_default

/-- The driver of `alpha` sends its next attempt to the route. -/
def sendAlpha (routeId : String) : List Act :=
  [.live .launch,.live (.drive "alpha" .started),.live (.drive "alpha" (.route routeId false)),
    .live (.drive "alpha" (.slot false)),.live (.drive "alpha" (.prepared false true .matched))]

/-- Two lives: the first one dies while its first attempt is running. -/
theorem attempts_increase_within_budget_twoLives : ∃ s, exec (Sys.step soloGraph {}) (Sys.init soloGraph)
    (sendAlpha "glm" ++ [.restart none] ++ sendAlpha "kimi") = some s ∧ sends s.log =
    [("alpha",1),("alpha",2)] ∧ ∀ dir, ((sends s.log).map fun p => permitAttemptId dir p.1 p.2).Nodup :=
    by
  obtain ⟨s,hs,hsends⟩ : ∃ s ∈ exec (Sys.step soloGraph {}) (Sys.init soloGraph)
      (sendAlpha "glm" ++ [.restart none] ++ sendAlpha "kimi"), sends s.log = [("alpha",1),("alpha",2)] := by
    decide +kernel
  exact ⟨s,hs,hsends,(attempts_increase_within_budget hs).2⟩

end Verdict.Runtime

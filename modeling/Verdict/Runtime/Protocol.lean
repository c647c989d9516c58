import Verdict.Runtime.Driver

/-! # The event protocol of a node

What the log of one node may look like, independently of any controller: a summary of
the events so far (`Track`) and which event may follow it (`Admits`). A log conforms when
each of its events is admitted by the summary of those before it; this is closed under
cutting the log anywhere, which is what a crash does to it.
-/
namespace Verdict.Runtime
open Driver

/-- `claimed`: the last state event. `success`, `fresh`: a success marker, and a passing
verification behind the last one. `top`, `routes`: what was dispatched. `gate`: the last
result of the node's own barrier. `done`: validated with a commit. -/
structure Track where
  claimed : Option NodeState := none
  success : Bool := false
  fresh : Bool := false
  top : ℕ := 0
  routes : List String := []
  gate : Option Bool := none
  done : Bool := false

def gateName (n : WorkNode) : String := if Worker n then "ownership" else barrierName n

def verifies (n : WorkNode) : Bool := decide (Worker n ∨ n.verificationCommand ≠ [])

namespace Track
variable (n : WorkNode)
variable (tr : Track)

def next : Body → Track
  | .nodeState state _ commit => {tr with
    claimed := some state
    success := tr.success || decide (state = .terminalSuccess)
    fresh := tr.fresh && decide (state ≠ .terminalSuccess)
    done := tr.done || decide (state = .validated ∧ commit ≠ "")}
  | .terminal true _ _ => {tr with success := true, fresh := false}
  | .verify true => {tr with fresh := tr.success}
  | .dispatch routeId attempt => {tr with top := max tr.top attempt, routes := routeId :: tr.routes}
  | .barrier name ok => if name = gateName n then {tr with gate := some ok} else tr
  | _ => tr

def after (bodies : List Body) : Track := bodies.foldl (next n) tr

@[simp]
theorem after_nil : tr.after n [] = tr := rfl

@[simp]
theorem after_cons (b : Body) (bs : List Body) : tr.after n (b :: bs) = (tr.next n b).after n bs := rfl

theorem after_append (bs bs' : List Body) :
    tr.after n (bs ++ bs') = (tr.after n bs).after n bs' := List.foldl_append

end Track

def track (n : WorkNode) (log : List Body) : Track := Track.after n {} log

theorem track_append (n : WorkNode) (log bs : List Body) : track n (log ++ bs) = (track n log).after n bs :=
  Track.after_append n {} log bs

theorem track_snoc (n : WorkNode) (log : List Body) (b : Body) : track n (log ++ [b]) = (track n log).next n b :=
  track_append n log [b]

/-- The event may follow a log with this summary. A node that is done is silent, except
for a crash report of its driver and informational events. -/
def Admits (n : WorkNode) (maxAttempts : ℕ) (tr : Track) : Body → Prop
  | .nodeState .validated _ commit => commit ≠ "" ∧ tr.done = false ∧ tr.claimed = some .terminalSuccess
      ∧ tr.fresh = verifies n ∧ (n.kind ≠ .research → tr.gate = some true)
  | .nodeState .blocked _ _ => True
  | .nodeState _ _ _ => tr.done = false
  | .dispatch routeId attempt => tr.done = false ∧ Worker n ∧ tr.top < attempt ∧ attempt ≤ maxAttempts ∧ routeId ≠ ""
  | .terminal _ _ _ => tr.done = false
  | .verify _ => tr.done = false ∧ tr.claimed = some .terminalSuccess ∧ tr.success = true
  | .barrier name ok => tr.done = false
      ∧ ((name = gateName n ∧ (n.kind = .research → ok = false)) ∨ (n.kind = .implement ∧ name = "no_change" ∧ ok = true))
  | .integrate _ _ | .review _ _ _ | .runFinished _ => False
  | _ => True

def AdmitsAll (n : WorkNode) (maxAttempts : ℕ) : Track → List Body → Prop
  | _, [] => True
  | tr, b :: bs => Admits n maxAttempts tr b ∧ AdmitsAll n maxAttempts (tr.next n b) bs

def Conform (n : WorkNode) (maxAttempts : ℕ) (log : List Body) : Prop := AdmitsAll n maxAttempts {} log

variable {n : WorkNode} {maxAttempts : ℕ}
variable {bs : List Body}

theorem admitsAll_append {tr : Track} {bs' : List Body} : AdmitsAll n maxAttempts tr (bs ++ bs') ↔
    AdmitsAll n maxAttempts tr bs ∧ AdmitsAll n maxAttempts (tr.after n bs) bs' := by
  induction bs generalizing tr with
  | nil => simp [AdmitsAll]
  | cons b bs ih => simp only [List.cons_append,AdmitsAll,ih,Track.after_cons,and_assoc]

variable {log : List Body}

theorem conform_append :
    Conform n maxAttempts (log ++ bs) ↔ Conform n maxAttempts log ∧ AdmitsAll n maxAttempts (track n log) bs :=
  admitsAll_append

theorem Conform.cut {log cut : List Body} (h : Conform n maxAttempts log) (hp : cut <+: log) :
    Conform n maxAttempts cut := by
  obtain ⟨rest,rfl⟩ := hp
  exact (conform_append.mp h).1

theorem Conform.admits {b : Body} (h : Conform n maxAttempts (log ++ b :: bs)) :
    Admits n maxAttempts (track n log) b := ((conform_append.mp h).2).1

theorem Conform.induction {P : List Body → Prop} (hnil : P [])
    (hsnoc : ∀ log b, Conform n maxAttempts log → Admits n maxAttempts (track n log) b → P log → P (log ++ [b]))
    {log : List Body} (h : Conform n maxAttempts log) : P log := by
  induction log using List.reverseRecOn with
  | nil => exact hnil
  | append_singleton log b ih =>
    obtain ⟨hlog,hb⟩ := conform_append.mp h
    exact hsnoc log b hlog hb.1 (ih hlog)

theorem Conform.done {log : List Body} (h : Conform n maxAttempts log) (hd : (track n log).done = true) :
    (track n log).fresh = verifies n ∧
    ((track n log).claimed = some .validated ∨ (track n log).claimed = some .blocked) ∧
    (n.kind ≠ .research → (track n log).gate = some true) := by
  refine Conform.induction (P := fun l => (track n l).done = true → (track n l).fresh = verifies n ∧
    ((track n l).claimed = some .validated ∨ (track n l).claimed = some .blocked) ∧
    (n.kind ≠ .research → (track n l).gate = some true)) (by simp [track]) (fun l b _ hb ih => ?_) h hd
  rw [track_snoc]
  -- a node that is done is silent, so an event that changes the summary is its verdict
  have hopen : (track n l).done = false → ¬ (track n l).done = true := by simp
  cases b with
  | nodeState state routeId commit =>
    cases state with
    | validated =>
      obtain ⟨hcommit,_,_,hfresh,hgate⟩ := hb
      exact fun _ => ⟨by simp [Track.next,hfresh],.inl rfl,hgate⟩
    | blocked =>
      intro hd
      obtain ⟨hfresh,_,hgate⟩ := ih (by simpa [Track.next] using hd)
      exact ⟨by simp [Track.next,hfresh],.inr rfl,hgate⟩
    | _ => exact fun hd => absurd (by simpa [Track.next] using hd) (hopen hb)
  | terminal ok => cases ok <;> exact fun hd => absurd hd (hopen hb)
  | verify ok => cases ok <;> exact fun hd => absurd hd (hopen hb.1)
  | barrier =>
    simp only [Track.next]
    split
    · exact fun hd => absurd hd (hopen hb.1)
    · exact ih
  | _ => exact ih

theorem Conform.validated (h : Conform n maxAttempts log)
    (hv : (track n log).claimed = some .validated) : (track n log).done = true := by
  refine Conform.induction (P := fun l => (track n l).claimed = some .validated → (track n l).done = true)
    (by simp [track]) (fun l b _ hb ih => ?_) h hv
  rw [track_snoc]
  cases b with
  | nodeState state routeId commit =>
    intro hc
    cases hc
    simp [Track.next,hb.1]
  | terminal ok => cases ok <;> exact ih
  | verify ok => cases ok <;> exact ih
  | barrier => simp only [Track.next]; split <;> exact ih
  | _ => exact ih

theorem Conform.barrier {name : String} {ok : Bool} (h : Conform n maxAttempts log)
    (hb : .barrier name ok ∈ log) : (name = gateName n ∧ (n.kind = .research → ok = false)) ∨
    (n.kind = .implement ∧ name = "no_change" ∧ ok = true) := by
  obtain ⟨pre,post,rfl⟩ := List.append_of_mem hb
  exact h.admits.2

theorem Conform.dispatched {r : String} (h : Conform n maxAttempts log)
    (hr : r ∈ dispatchedRoutes log) : r ≠ "" := by
  obtain ⟨b,hb,hbr⟩ := List.mem_filterMap.mp hr
  cases b with
  | dispatch routeId attempt =>
    cases hbr
    obtain ⟨pre,post,rfl⟩ := List.append_of_mem hb
    exact h.admits.2.2.2.2
  | _ => cases hbr

theorem track_routes (log : List Body) : (track n log).routes = (dispatchedRoutes log).reverse := by
  induction log using List.reverseRecOn with
  | nil => rfl
  | append_singleton log b ih =>
    have happ : dispatchedRoutes (log ++ [b]) = dispatchedRoutes log ++ dispatchedRoutes [b] :=
      List.filterMap_append
    rw [track_snoc,happ,List.reverse_append,← ih]
    cases b with
    | dispatch => rfl
    | terminal ok => cases ok <;> rfl
    | verify ok => cases ok <;> rfl
    | barrier => simp only [Track.next]; split <;> rfl
    | _ => rfl

theorem priorAttempts_append (log bs : List Body) :
    priorAttempts (log ++ bs) = max (priorAttempts log) (priorAttempts bs) := by
  induction log with
  | nil => simp [priorAttempts]
  | cons b log ih => cases b <;> simp [priorAttempts,ih,max_assoc]

theorem priorValidated_append (log bs : List Body) :
    priorValidated (log ++ bs) = (priorValidated bs).or (priorValidated log) := by
  induction log with
  | nil => simp [priorValidated]
  | cons b log ih =>
    simp only [List.cons_append,priorValidated,ih]
    cases priorValidated bs <;> rfl

theorem track_top (log : List Body) : (track n log).top = priorAttempts log := by
  induction log using List.reverseRecOn with
  | nil => rfl
  | append_singleton log b ih =>
    rw [track_snoc,priorAttempts_append,← ih]
    cases b with
    | dispatch => simp [Track.next,priorAttempts]
    | terminal ok => cases ok <;> simp [Track.next,priorAttempts]
    | verify ok => cases ok <;> simp [Track.next,priorAttempts]
    | barrier => simp only [Track.next]; split <;> simp [priorAttempts]
    | _ => simp [Track.next,priorAttempts]

theorem track_done (log : List Body) : (track n log).done = (priorValidated log).isSome := by
  induction log using List.reverseRecOn with
  | nil => rfl
  | append_singleton log b ih =>
    rw [track_snoc,priorValidated_append]
    cases b with
    | nodeState state routeId commit =>
      by_cases hv : state = .validated ∧ commit ≠ ""
      · obtain ⟨rfl,hc⟩ := hv
        simp [Track.next,priorValidated,hc]
      · have hnone : priorValidated [.nodeState state routeId commit] = none := by
          cases state <;> simp_all [priorValidated]
        simp [Track.next,hnone,hv,ih]
    | terminal ok => cases ok <;> simp [Track.next,priorValidated,ih]
    | verify ok => cases ok <;> simp [Track.next,priorValidated,ih]
    | barrier => simp only [Track.next]; split <;> simp [priorValidated,ih]
    | _ => simp [Track.next,priorValidated,ih]

end Verdict.Runtime

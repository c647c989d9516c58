import Verdict.Basics.Dict
import Verdict.Runtime.Attempts
import Verdict.Runtime.Projection

/-! # The routes in flight

`inflight` names the route each node is on, and the selector reads the load of a route from
it. `_drive` enters a node when it binds a route, `_attempt` enters it again in front of its
`try`, and the `finally` of that block takes it out. What ends a driver in front of the block
leaves its entry behind.
-/
namespace Verdict.Runtime
open Driver Run
open Option (ext map_eq_some_iff)

/-- The awaits between the binding of a route and the end of the attempt; the last two are also
reached behind it. -/
def Pc.bound : Pc → Bool
  | .slot _ | .prepare | .commitPermit | .execute | .settling | .leaving => true
  | _ => false

def Pc.reserved : Pc → Bool
  | .slot _ | .prepare | .commitPermit | .execute => true
  | _ => false

/-- The awaits inside the `try` of `_attempt`; the last two are also reached behind it. -/
def Pc.tried : Pc → Bool
  | .commitPermit | .execute | .settling | .leaving => true
  | _ => false

def Task.Reserving (t : Task) : Prop := t.status = .running ∧ t.pc.reserved = true

/-- What happens to the entry of a node. -/
inductive Booking
  | keep
  | reserve (routeId : String)
  | release

def Booking.apply (held : Option String) : Booking → Option String
  | keep => held
  | reserve routeId => some routeId
  | release => none

section
variable (cfg : Config) (n : WorkNode) (t : Task) (run : NodeRun)

/-- What has happened to the entry of the node behind the first `k` effects of a segment. -/
def booking (k : ℕ) (reply : Reply) : Booking := match t.pc, reply with
  -- behind the event of the selection
  | .select, .route routeId false => if cfg.authority = false ∧ 3 ≤ k then .reserve routeId else .keep
  | .bindProof routeId, .proof true => if 3 ≤ k then .reserve routeId else .keep
  -- behind the binding that is undone
  | .slot _, .slot true => if 2 ≤ k then .release else .keep
  -- in front of the `try`
  | .prepare, .prepared restored _ _ => if (restoring n run restored).length ≤ k then .reserve run.routeId else .keep
  -- the `finally`, also where it has run before
  | .execute, _ | .settling, _ | .leaving, _ => .release
  | _, _ => .keep

/-- The task is inside the `try` when it is ended in the awaited call, or behind `k` effects. -/
def inTry : Option (Reply × ℕ) → Bool
  | none => t.pc.tried
  | some (reply,k) => t.pc.tried || match t.pc, reply with
    | .prepare, .prepared restored _ _ => decide ((restoring n run restored).length ≤ k)
    | _, _ => false

def heldAtEnd (during : Option (Reply × ℕ)) (held : Option String) : Option String :=
  if inTry n t run during then none
  else match during with
  | none => held
  | some (reply,k) => (booking cfg n t run k reply).apply held

/-- The task is ended between the binding of a route and the `try`. -/
def exposed : Option (Reply × ℕ) → Bool
  | none => match t.pc with
    | .slot _ | .prepare => true
    | _ => false
  | some (reply,k) => match t.pc, reply with
    | .select, .route _ false => !cfg.authority && decide (3 ≤ k)
    | .bindProof _, .proof true => decide (3 ≤ k)
    | .slot _, .slot blocker => !blocker || decide (k < 2)
    | .prepare, .prepared restored _ _ => decide (k < (restoring n run restored).length)
    | _, _ => false

def performed (run : NodeRun) : List Eff → ℕ
  | [] => 0
  | e :: es => match e.apply run with
    | none => 0
    | some (run',_) => performed run' es + 1

end

namespace Cell
variable (cfg : Config) (n : WorkNode) (c : Cell)

def heldDriven (reply : Reply) (held : Option String) : Option String := match c.task with
  | none => held
  | some t => match script cfg n t c.run reply with
    | none => held
    | some (effs,_) =>
      if (perform c.run effs).ok then (booking cfg n t c.run effs.length reply).apply held
      else heldAtEnd cfg n t c.run (some (reply,performed c.run effs)) held

def heldEnded (during : Option (Reply × ℕ)) (held : Option String) : Option String := match c.task with
  | none => held
  | some t => heldAtEnd cfg n t c.run during held

/-- The step ends the driver between the binding of a route and the `try`: by an exception, by a
cancellation, or because its node may not be admitted any more when it gets its slot. -/
def Exposed : Live → Prop
  | .raised _ during _ => ∃ t, c.task = some t ∧ exposed cfg n t c.run during = true
  | .cancelled _ => ∃ t, c.task = some t ∧ exposed cfg n t c.run none = true
  | .drive _ reply => ∃ t previous, c.task = some t ∧ t.pc = .slot previous ∧ reply = .slot false
      ∧ .admitted ∉ transitions c.run.state
  | _ => False

end Cell

def Live.driver : Live → Option String
  | .drive i _ | .raised i _ _ | .cancelled i => some i
  | _ => none

structure Loaded where
  sys : Sys
  inflight : Dict String String := .empty

def enter (d : Dict String String) (i : String) : Option String → Dict String String
  | some routeId => d.set i routeId
  | none => d.pop i

namespace Loaded
variable (g : WorkGraph) (cfg : Config)

def entered (x : Loaded) (i : String) (f : WorkNode → Cell → Option String → Option String) : Dict String String :=
  match WorkGraph.node? g.nodes i with
  | none => x.inflight
  | some n => enter x.inflight i (f n (x.sys.cells i) (x.inflight.get? i))

def inflightAfter (x : Loaded) : Live → Dict String String
  | .drive i reply => x.entered g i fun n c held => c.heldDriven cfg n reply held
  | .raised i during _ => x.entered g i fun n c held => c.heldEnded cfg n during held
  | .cancelled i => x.entered g i fun n c held => c.heldEnded cfg n none held
  | _ => x.inflight

def step (x : Loaded) : Act → Option Loaded
  | .live a => (x.sys.liveStep g cfg a).map fun s => ⟨s,x.inflightAfter g cfg a⟩
  | .restart during reports => (x.sys.step g cfg (.restart during reports)).map fun s => ⟨s,.empty⟩

def init : Loaded := ⟨Sys.init g,.empty⟩

def routeLoad (x : Loaded) (routeId : String) : ℕ := (x.inflight.values.filter fun r => decide (r = routeId)).length

def onRoute (x : Loaded) (routeId : String) (n : WorkNode) : Bool :=
  ((x.sys.cells n.nodeId).task.any fun t => decide (t.status = .running) && t.pc.bound)
    && decide ((x.sys.cells n.nodeId).run.routeId = routeId)

/-- Only nodes whose live driver is in an attempt are in flight, on the route of the attempt, and no
route carries more than the live drivers on it. -/
structure Exact (x : Loaded) : Prop where
  live : ∀ i routeId, x.inflight.get? i = some routeId → ∃ n ∈ g.nodes, n.nodeId = i ∧ x.onRoute routeId n = true
  load : ∀ routeId, x.routeLoad routeId ≤ (g.nodes.filter (x.onRoute routeId)).length

/-- If the step takes place, it ends no driver between the binding of its route and the `try`. -/
def Covered (x : Loaded) (a : Act) : Prop := (x.step g cfg a).isSome = true → match a with
  | .live a => ∀ n ∈ g.nodes, a.driver = some n.nodeId → ¬ (x.sys.cells n.nodeId).Exposed cfg n a
  | .restart _ _ => True

end Loaded

/-! ### What a segment does to the entry of its node -/

def Eff.anchored : Eff → Bool
  | .bind _ | .unbind _ => false
  | _ => true

section Segments
variable {cfg : Config} {n : WorkNode} {t t' : Task} {run : NodeRun} {reply : Reply} {effs : List Eff}

theorem perform_routeId (h : effs.all Eff.anchored = true) : (perform run effs).run.routeId = run.routeId := by
  induction effs generalizing run with
  | nil => rfl
  | cons e es ih =>
    obtain ⟨he,hes⟩ := Bool.and_eq_true_iff.mp (List.all_cons ▸ h)
    cases ha : e.apply run with
    | none => simp only [perform,ha]
    | some res =>
      obtain ⟨run',bodies⟩ := res
      have hroute : run'.routeId = run.routeId := by
        cases e with
        | set state sha =>
          obtain ⟨-,rfl,-⟩ := apply_set ha
          rfl
        | bind => cases he
        | unbind => cases he
        | _ => cases ha; rfl
      simp only [perform,ha]
      rw [ih hes,hroute]

variable {failure : FailureClassification}

theorem anchored_recordFailure {validated : Bool} :
    (recordFailure cfg run failure validated).all Eff.anchored = true := by
  simp only [recordFailure]
  repeat' split
  all_goals rfl

theorem anchored_denied {reason : String} : (denied cfg run failure reason).all Eff.anchored = true := by
  rw [denied,List.all_append,anchored_recordFailure]
  rfl

/-- The segments of a driver, by what they do to the entry of the node. -/
inductive Course (cfg : Config) (n : WorkNode) (t : Task) (run : NodeRun) : Reply → List Eff → Task → Prop
  | outside {reply : Reply} {effs : List Eff} {t' : Task} (hpc : t.pc.bound = false)
      (hkeep : ∀ k, booking cfg n t run k reply = .keep) (hsafe : ∀ k, exposed cfg n t run (some (reply,k)) = false)
      (hfree : ¬ t'.Reserving) : Course cfg n t run reply effs t'
  | binds {reply : Reply} (routeId : String) (hpc : t.pc.bound = false)
      (hbook : ∀ k, booking cfg n t run k reply = if 3 ≤ k then .reserve routeId else .keep)
      (hexposed : ∀ k, exposed cfg n t run (some (reply,k)) = decide (3 ≤ k)) :
      Course cfg n t run reply (bound t run routeId).1 (goto t (.slot run.routeId))
  | revoked {previous : String} {rest : List Eff} {t' : Task} (hpc : t.pc = .slot previous) (hfree : ¬ t'.Reserving) :
      Course cfg n t run (.slot true) (.emit (.note .eligibility) :: .unbind previous :: rest) t'
  | admitted {previous : String} (hpc : t.pc = .slot previous) :
      Course cfg n t run (.slot false) [.set .admitted ""] (goto t .prepare)
  | prepared {restored fits : Bool} {origin : Origin} {rest : List Eff} {pc : Pc} (hpc : t.pc = .prepare)
      (hrest : rest.all Eff.anchored = true) (hin : pc.bound = true) :
      Course cfg n t run (.prepared restored fits origin) (restoring n run restored ++ rest) (goto t pc)
  | permitted {granted : Bool} {effs : List Eff} {pc : Pc} (hpc : t.pc = .commitPermit) (hrest : effs.all Eff.anchored = true)
      (hin : pc.bound = true) : Course cfg n t run (.permit granted) effs (goto t pc)
  | ends {reply : Reply} {effs : List Eff} {t' : Task} (hpc : t.pc.tried = true)
      (hbook : ∀ k, booking cfg n t run k reply = .release) (hfree : ¬ t'.Reserving) : Course cfg n t run reply effs t'

theorem free_of_pc (h : t.pc.reserved = false) : ¬ t.Reserving := fun hs => Bool.false_ne_true (h.symm.trans hs.2)

theorem ret_free : ¬ (ret t).Reserving := fun hs => by cases hs.1

variable {routeId : String}

theorem revoked_free : ¬ (revoked cfg t routeId).2.Reserving := by
  simp only [revoked]
  split
  · exact ret_free
  · exact free_of_pc rfl

theorem executed_free {ok usable : Bool} : ¬ (executed cfg t run ok usable failure).2.Reserving := by
  simp only [executed]
  split
  · exact free_of_pc rfl
  · split <;> exact free_of_pc rfl

theorem validated_free {files : List String} : ¬ (validated cfg n t run files failure).2.Reserving := by
  have hverifying : ∀ changed, ¬ (verifying n t changed).2.Reserving := by
    intro changed
    simp only [verifying]
    split <;> exact free_of_pc rfl
  simp only [validated]
  split
  · split
    · exact free_of_pc rfl
    · exact hverifying _
  · split
    · exact free_of_pc rfl
    · exact hverifying _

theorem settle_free : ¬ (settle cfg t run).2.Reserving := by
  simp only [settle]
  repeat' split
  all_goals first | exact free_of_pc rfl | exact ret_free

theorem mergeRemoved_free {base : String} {failed : Option String} : ¬ (mergeRemoved cfg t run base failed).2.Reserving := by
  cases failed <;> exact ret_free

theorem prepared_course {restored fits : Bool} {origin : Origin} (hpc : t.pc = .prepare) : Course cfg n t
    run (.prepared restored fits origin) (prepared cfg n t run restored fits origin).1
    (prepared cfg n t run restored fits origin).2 := by
  have hsend : sending n run restored = restoring n run restored ++ [.set .dispatched "",.emit (.dispatch run.routeId run.attempt),
      .set .running "",.emit (.note .hydrate)] := rfl
  have hdenied : ∀ failure reason, Course cfg n t run (.prepared restored fits origin)
      (sending n run restored ++ denied cfg run failure reason) (goto t .leaving) := by
    intro failure reason
    rw [hsend,List.append_assoc]
    exact .prepared hpc (by rw [List.all_append,anchored_denied]; rfl) rfl
  simp only [prepared]
  split
  · exact hdenied _ _
  · split
    · split
      · exact hdenied _ _
      · exact hdenied _ _
      · exact .prepared hpc rfl rfl
    · split
      · exact hdenied _ _
      · exact .prepared hpc rfl rfl

def Pc.entering : Pc → Bool
  | .select | .bindProof _ | .slot _ | .prepare | .commitPermit => true
  | _ => false

variable {seg : Segment}

theorem segment_free (hplain : t.pc.entering = false) (h : Driver.segment cfg n t run t.pc reply = some seg) :
    ¬ seg.2.Reserving := by
  generalize hpc : t.pc = pc at h hplain
  unfold Driver.segment at h
  split at h
  all_goals
    repeat' split at h
  all_goals
    cases h
  all_goals first
    | exact free_of_pc rfl
    | exact ret_free
    | exact executed_free
    | exact validated_free
    | exact settle_free
    | exact mergeRemoved_free
    | exact free_of_pc (congrArg Pc.reserved hpc)
    | cases hplain

theorem select_course (hpc : t.pc = .select) (h : Driver.segment cfg n t run t.pc reply = some seg) :
    Course cfg n t run reply seg.1 seg.2 := by
  have hout : t.pc.bound = false := congrArg Pc.bound hpc
  rw [hpc] at h
  cases reply with
  | noRoute soon explanation =>
    have hfree : ¬ seg.2.Reserving := by
      simp only [Driver.segment] at h
      split at h
      · cases h; exact free_of_pc rfl
      · cases h; exact ret_free
    exact .outside hout (fun k => by simp only [booking,hpc]) (fun k => by simp only [exposed,hpc]) hfree
  | route routeId blocker =>
    simp only [Driver.segment] at h
    split at h
    · cases h
    · cases blocker with
      | true =>
        cases h
        exact .outside hout (fun k => by simp only [booking,hpc]) (fun k => by simp only [exposed,hpc]) revoked_free
      | false =>
        simp only [Bool.false_eq_true,if_false] at h
        split at h
        · rename_i hauthority
          cases h
          exact .outside hout (fun k => by simp [booking,hpc,hauthority]) (fun k => by simp [exposed,hpc,hauthority]) (free_of_pc rfl)
        · rename_i hauthority
          cases h
          have hnone : cfg.authority = false := Bool.eq_false_iff.mpr hauthority
          exact .binds routeId hout (fun k => by simp [booking,hpc,hnone]) fun k => by simp [exposed,hpc,hnone]
  | _ => cases h

theorem bindProof_course (hpc : t.pc = .bindProof routeId)
    (h : Driver.segment cfg n t run t.pc reply = some seg) : Course cfg n t run reply seg.1 seg.2 := by
  have hout : t.pc.bound = false := congrArg Pc.bound hpc
  rw [hpc] at h
  cases reply with
  | proof found =>
    cases found with
    | true =>
      cases h
      exact .binds routeId hout (fun k => by simp only [booking,hpc]) fun k => by simp only [exposed,hpc]
    | false =>
      cases h
      exact .outside hout (fun k => by simp only [booking,hpc]) (fun k => by simp only [exposed,hpc]) revoked_free
  | _ => cases h

theorem slot_course {previous : String} (hpc : t.pc = .slot previous)
    (h : Driver.segment cfg n t run t.pc reply = some seg) : Course cfg n t run reply seg.1 seg.2 := by
  rw [hpc] at h
  cases reply with
  | slot blocker =>
    cases blocker with
    | true =>
      cases h
      exact .revoked hpc revoked_free
    | false =>
      cases h
      exact .admitted hpc
  | _ => cases h

theorem permit_course (hpc : t.pc = .commitPermit) (h : Driver.segment cfg n t run t.pc reply = some seg) :
    Course cfg n t run reply seg.1 seg.2 := by
  rw [hpc] at h
  cases reply with
  | permit granted =>
    cases granted with
    | true =>
      cases h
      exact .permitted hpc rfl rfl
    | false =>
      cases h
      exact .permitted hpc anchored_recordFailure rfl
  | _ => cases h

theorem segment_course (h : Driver.segment cfg n t run t.pc reply = some seg) :
    Course cfg n t run reply seg.1 seg.2 := by
  cases hpc : t.pc with
  | select => exact select_course hpc h
  | bindProof => exact bindProof_course hpc h
  | slot => exact slot_course hpc h
  | commitPermit => exact permit_course hpc h
  | prepare =>
    rw [hpc] at h
    cases reply with
    | prepared =>
      cases h
      exact prepared_course hpc
    | _ => cases h
  | execute | settling | leaving =>
    exact .ends (congrArg Pc.tried hpc) (fun k => by simp only [booking,hpc]) (segment_free (congrArg Pc.entering hpc) h)
  | _ =>
    exact .outside (congrArg Pc.bound hpc) (fun k => by simp only [booking,hpc]) (fun k => by simp only [exposed,hpc])
      (segment_free (congrArg Pc.entering hpc) h)

theorem script_course (h : script cfg n t run reply = some (effs,t')) : Course cfg n t run reply effs t' := by
  simp only [script,map_eq_some_iff] at h
  obtain ⟨seg,hseg,hres⟩ := h
  have hcourse := segment_course hseg
  split at hres
  · rename_i htop
    have hfree : ∀ u run', ¬ (loopHead cfg u run').2.Reserving := by
      intro u run'
      simp only [loopHead]
      split
      · exact ret_free
      · exact free_of_pc rfl
    obtain ⟨effs',u⟩ := seg
    cases hres
    cases hcourse with
    | outside hpc hkeep hsafe => exact .outside hpc hkeep hsafe (hfree _ _)
    | revoked hpc => exact .revoked hpc (hfree _ _)
    | ends hpc hbook => exact .ends hpc hbook (hfree _ _)
    | binds => cases htop.1
    | admitted => cases htop.1
    | @prepared _ _ _ _ pc _ _ hin =>
      have hpc : pc = .top := htop.1
      rw [hpc] at hin
      cases hin
    | @permitted _ _ pc _ _ hin =>
      have hpc : pc = .top := htop.1
      rw [hpc] at hin
      cases hin
  · cases hres
    exact hcourse

end Segments

/-- What the table holds about a node: an entry names the route of a live driver in an attempt, and
a driver in flight has its entry. -/
structure Booked (c : Cell) (held : Option String) : Prop where
  live : ∀ routeId, held = some routeId → ∃ t, c.task = some t ∧ t.status = .running ∧ t.pc.bound = true
    ∧ c.run.routeId = routeId
  held : ∀ t, c.task = some t → t.Reserving → held = some c.run.routeId

section Entries
variable {cfg : Config} {n : WorkNode} {c c' : Cell} {t : Task} {run : NodeRun} {held : Option String} {bodies : List Body}
  {reply : Reply} {effs : List Eff} {t' : Task} {during : Option (Reply × ℕ)}

theorem Booked.none_of_pc (h : Booked c held) (ht : c.task = some t) (hpc : t.pc.bound = false) : held = none := by
  cases held with
  | none => rfl
  | some routeId =>
    obtain ⟨u,hu,-,hbound,-⟩ := h.live routeId rfl
    cases ht.symm.trans hu
    exact absurd hbound (Bool.eq_false_iff.mp hpc)

theorem inTry_of_tried (htried : t.pc.tried = true) : inTry n t run during = true := by
  cases during with
  | none => exact htried
  | some d => simp only [inTry,htried,Bool.true_or]

theorem heldAtEnd_tried (htried : t.pc.tried = true) : heldAtEnd cfg n t run during held = none := if_pos (inTry_of_tried htried)

theorem tried_of_bound (hpc : t.pc.bound = true) (h : exposed cfg n t run none = false) : t.pc.tried = true := by
  cases hp : t.pc with
  | slot | prepare => rw [exposed,hp] at h; cases h
  | commitPermit | execute | settling | leaving => rfl
  | _ => rw [hp] at hpc; cases hpc

theorem exposed_tried (htried : t.pc.tried = true) (k : ℕ) : exposed cfg n t run (some (reply,k)) = false := by
  cases hp : t.pc with
  | commitPermit | execute | settling | leaving => simp only [exposed,hp]
  | _ => rw [hp] at htried; cases htried

theorem inTry_outside (hpc : t.pc.bound = false) (k : ℕ) : inTry n t run (some (reply,k)) = false := by
  cases hp : t.pc with
  | slot | prepare | commitPermit | execute | settling | leaving => rw [hp] at hpc; cases hpc
  | _ => simp only [inTry,hp]; rfl

theorem heldAtEnd_behind (h : Booked c held) (ht : c.task = some t) (hrun : t.status = .running)
    (hcourse : Course cfg n t c.run reply effs t') (k : ℕ) :
    heldAtEnd cfg n t c.run (some (reply,k)) held = none ↔ exposed cfg n t c.run (some (reply,k)) = false := by
  have hheld : t.pc.reserved = true → held = some c.run.routeId := fun hpc => h.held t ht ⟨hrun,hpc⟩
  cases hcourse with
  | outside hpc hkeep hsafe =>
    refine iff_of_true ?_ (hsafe k)
    simp only [heldAtEnd,inTry_outside hpc,hkeep,h.none_of_pc ht hpc]
    rfl
  | binds routeId hpc hbook hexposed =>
    simp only [heldAtEnd,inTry_outside hpc,hbook,hexposed,h.none_of_pc ht hpc]
    by_cases hk : 3 ≤ k
    · simp [hk,Booking.apply]
    · simp [hk,Booking.apply]
  | revoked hpc =>
    rw [hheld (by rw [hpc]; rfl)]
    simp only [heldAtEnd,inTry,exposed,booking,hpc,Pc.tried]
    by_cases hk : 2 ≤ k
    · rw [if_pos hk,decide_eq_false (Nat.not_lt.mpr hk)]
      exact iff_of_true rfl rfl
    · rw [if_neg hk,decide_eq_true (Nat.not_le.mp hk)]
      exact iff_of_false (fun hnone => nomatch hnone) fun hfalse => nomatch hfalse
  | admitted hpc =>
    rw [hheld (by rw [hpc]; rfl)]
    simp [heldAtEnd,inTry,exposed,booking,hpc,Booking.apply,Pc.tried]
  | @prepared restored _ _ _ _ hpc =>
    rw [hheld (by rw [hpc]; rfl)]
    by_cases hk : (restoring n c.run restored).length ≤ k
    · simp [heldAtEnd,inTry,exposed,hpc,hk,Pc.tried]
    · simp [heldAtEnd,inTry,exposed,booking,hpc,hk,Booking.apply,Pc.tried]
  | permitted hpc =>
    have htried : t.pc.tried = true := by rw [hpc]; rfl
    exact iff_of_true (heldAtEnd_tried htried) (exposed_tried htried k)
  | ends htried => exact iff_of_true (heldAtEnd_tried htried) (exposed_tried htried k)

theorem heldAtEnd_awaiting (h : Booked c held) (ht : c.task = some t) (hrun : t.status = .running) :
    heldAtEnd cfg n t c.run none held = none ↔ exposed cfg n t c.run none = false := by
  cases hexposed : exposed cfg n t c.run none with
  | false =>
    refine iff_of_true ?_ rfl
    cases hpc : t.pc.bound with
    | true => exact heldAtEnd_tried (tried_of_bound hpc hexposed)
    | false => rw [h.none_of_pc ht hpc,heldAtEnd,ite_self]
  | true =>
    refine iff_of_false ?_ nofun
    have hpc : t.pc.reserved = true ∧ t.pc.tried = false := by
      cases hp : t.pc with
      | slot | prepare => exact ⟨rfl,rfl⟩
      | _ => rw [exposed,hp] at hexposed; cases hexposed
    rw [heldAtEnd,if_neg (by rw [inTry,hpc.2]; exact Bool.false_ne_true),h.held t ht ⟨hrun,hpc.1⟩]
    nofun

theorem booked_none (h : ∀ t, c.task = some t → ¬ t.Reserving) : Booked c none :=
  ⟨fun _ h => absurd h (by simp),fun t ht hres => absurd hres (h t ht)⟩

theorem not_reserving_of_ended (h : t.status ≠ .running) : ¬ t.Reserving := fun hres => h hres.1

theorem Booked.ended_none (h : Booked c held) (hended : ∀ t, c.task = some t → t.status ≠ .running) : held = none := by
  cases held with
  | none => rfl
  | some routeId =>
    obtain ⟨t,ht,hrun,-⟩ := h.live routeId rfl
    exact absurd hrun (hended t ht)

def Leaked (c : Cell) (held : Option String) : Prop := held ≠ none ∧ ∀ t, c.task = some t → t.status ≠ .running

/-- The books are kept unless the node is exposed; then an entry is left behind. -/
def Settles (exposed : Prop) (c : Cell) (held : Option String) : Prop := ¬ exposed ∧ Booked c held ∨ exposed ∧ Leaked c held

theorem settles_ended {x : Prop} (hended : ∀ t, c.task = some t → t.status ≠ .running) (h : held = none ↔ ¬ x) :
    Settles x c held := by
  by_cases hx : x
  · exact .inr ⟨hx,fun hnone => h.mp hnone hx,hended⟩
  · refine .inl ⟨hx,?_⟩
    rw [h.mpr hx]
    exact booked_none fun t ht => not_reserving_of_ended (hended t ht)

variable {i : String}

theorem settles_raised {text : String} (h : Booked c held) (hr : c.raised cfg n during text = some (c',bodies)) :
    Settles (c.Exposed cfg n (.raised i during text)) c' (c.heldEnded cfg n during held) := by
  simp only [Cell.raised] at hr
  split at hr
  · cases hr
  rename_i t ht
  split at hr
  · cases hr
  rename_i hrun
  have hrunning : t.status = .running := not_not.mp hrun
  have hend : heldAtEnd cfg n t c.run during held = none ↔ exposed cfg n t c.run during = false := by
    cases during with
    | none => exact heldAtEnd_awaiting h ht hrunning
    | some d =>
      obtain ⟨seg,hscript,-⟩ := map_eq_some_iff.mp hr
      exact heldAtEnd_behind h ht hrunning (script_course hscript) d.2
  have hended : ∀ u, c'.task = some u → u.status ≠ .running := by
    intro u hu
    split at hr
    · cases hr
      cases hu
      simp
    · obtain ⟨seg,-,hres⟩ := map_eq_some_iff.mp hr
      cases hres
      cases hu
      simp
  rw [Cell.heldEnded,ht]
  refine settles_ended hended (hend.trans ⟨fun hsafe hx => ?_,fun hx => Bool.eq_false_iff.mpr fun hexposed => hx ⟨t,ht,hexposed⟩⟩)
  obtain ⟨u,hu,hexposed⟩ := hx
  cases ht.symm.trans hu
  exact Bool.false_ne_true (hsafe.symm.trans hexposed)

theorem settles_cancelled (h : Booked c held) (hc : c.cancelled = some (c',bodies)) :
    Settles (c.Exposed cfg n (.cancelled i)) c' (c.heldEnded cfg n none held) := by
  simp only [Cell.cancelled] at hc
  split at hc
  · cases hc
  rename_i t ht
  split at hc
  · rename_i hrun
    cases hc
    have hended : ∀ u, some {t with status := Status.cancelled} = some u → u.status ≠ .running := by
      intro u hu
      cases hu
      simp
    rw [Cell.heldEnded,ht]
    refine settles_ended hended ((heldAtEnd_awaiting h ht hrun.1).trans ⟨fun hsafe hx => ?_,fun hx => ?_⟩)
    · obtain ⟨u,hu,hexposed⟩ := hx
      cases ht.symm.trans hu
      exact Bool.false_ne_true (hsafe.symm.trans hexposed)
    · exact Bool.eq_false_iff.mpr fun hexposed => hx ⟨t,ht,hexposed⟩
  · cases hc

theorem perform_bound (t : Task) (run : NodeRun) (routeId : String) : (perform run (bound t run routeId).1).ok = true
    ∧ (perform run (bound t run routeId).1).run.routeId = routeId ∧ 3 ≤ (bound t run routeId).1.length := by
  simp only [bound]
  split <;> exact ⟨rfl,rfl,by simp⟩

theorem perform_admitted (run : NodeRun) : (perform run [.set .admitted ""]).ok = true ↔ .admitted ∈ transitions run.state := by
  rw [← checkTransition_ok,perform,Eff.apply]
  cases hcheck : checkTransition run.state .admitted with
  | ok u => exact iff_of_true rfl rfl
  | error e => exact iff_of_false (by simp) (by simp)

theorem performed_restoring (n : WorkNode) (run : NodeRun) (restored : Bool) (rest : List Eff) :
    (restoring n run restored).length ≤ performed run (restoring n run restored ++ rest) := by
  rw [restoring]
  split
  · simp only [List.cons_append,List.nil_append,performed,Eff.apply,List.length_cons,List.length_nil]
    omega
  · exact Nat.zero_le _

theorem booked_driven_ok (h : Booked c held) (ht : c.task = some t) (hrun : t.status = .running)
    (hcourse : Course cfg n t c.run reply effs t') (hok : (perform c.run effs).ok = true) :
    Booked ⟨(perform c.run effs).run,some t'⟩ ((booking cfg n t c.run effs.length reply).apply held) := by
  have hheld : t.pc.reserved = true → held = some c.run.routeId := fun hpc => h.held t ht ⟨hrun,hpc⟩
  have hfresh : ∀ {u : Task}, ¬ u.Reserving → Booked ⟨(perform c.run effs).run,some u⟩ none :=
    fun hfree => booked_none fun v hv => by cases hv; exact hfree
  -- the driver stays in the attempt, bound to this route
  have hstays : ∀ {pc : Pc} {routeId : String}, pc.bound = true → (perform c.run effs).run.routeId = routeId →
      Booked ⟨(perform c.run effs).run,some (goto t pc)⟩ (some routeId) := by
    intro pc routeId hin hroute
    refine ⟨fun r hr => ⟨_,rfl,hrun,hin,hroute.trans (Option.some.inj hr)⟩,fun v _ _ => ?_⟩
    rw [← hroute]
  cases hcourse with
  | outside hpc hkeep _ hfree =>
    rw [hkeep,h.none_of_pc ht hpc]
    exact hfresh hfree
  | binds routeId hpc hbook =>
    obtain ⟨-,hroute,hlength⟩ := perform_bound t c.run routeId
    rw [hbook,if_pos hlength]
    exact hstays rfl hroute
  | @revoked previous rest _ hpc hfree =>
    have hbook : booking cfg n t c.run (rest.length + 1 + 1) (.slot true) = .release := by
      simp only [booking,hpc]
      exact if_pos (by omega)
    rw [List.length_cons,List.length_cons,hbook]
    exact hfresh hfree
  | admitted hpc =>
    rw [hheld (by rw [hpc]; rfl)]
    have hbook : booking cfg n t c.run 1 (.slot false) = .keep := by simp only [booking,hpc]
    rw [List.length_singleton,hbook]
    exact hstays rfl (perform_routeId rfl)
  | @prepared restored fits origin rest pc hpc hrest hin =>
    have hanchored : (restoring n c.run restored ++ rest).all Eff.anchored = true := by
      rw [List.all_append,hrest,restoring]
      split <;> rfl
    have hbook : booking cfg n t c.run (restoring n c.run restored ++ rest).length (.prepared restored fits origin)
        = .reserve c.run.routeId := by
      simp only [booking,hpc]
      exact if_pos (by rw [List.length_append]; exact Nat.le_add_right _ _)
    rw [hbook]
    exact hstays hin (perform_routeId hanchored)
  | @permitted granted _ _ hpc hrest hin =>
    rw [hheld (by rw [hpc]; rfl)]
    have hbook : booking cfg n t c.run effs.length (.permit granted) = .keep := by simp only [booking,hpc]
    rw [hbook]
    exact hstays hin (perform_routeId hrest)
  | ends _ hbook hfree =>
    rw [hbook]
    exact hfresh hfree

theorem refused_exposed_iff (ht : c.task = some t) (hcourse : Course cfg n t c.run reply effs t')
    (hno : (perform c.run effs).ok ≠ true) (i : String) :
    exposed cfg n t c.run (some (reply,performed c.run effs)) = false ↔ ¬ c.Exposed cfg n (.drive i reply) := by
  have hother : (∀ previous, t.pc ≠ .slot previous) ∨ reply ≠ .slot false → ¬ c.Exposed cfg n (.drive i reply) := by
    rintro hne ⟨u,previous,hu,hpc,hreply,-⟩
    cases ht.symm.trans hu
    exact hne.elim (fun h => h previous hpc) fun h => h hreply
  cases hcourse with
  | outside hpc _ hsafe =>
    exact iff_of_true (hsafe _) (hother (.inl fun previous hp => by rw [hp] at hpc; cases hpc))
  | binds routeId => exact absurd (perform_bound t c.run routeId).1 hno
  | revoked hpc =>
    refine iff_of_true ?_ (hother (.inr (by simp)))
    simp only [exposed,hpc,performed,Eff.apply,Bool.not_true,Bool.false_or]
    exact decide_eq_false (by omega)
  | @admitted previous hpc =>
    refine iff_of_false (by simp [exposed,hpc]) (not_not.mpr ⟨t,previous,ht,hpc,rfl,?_⟩)
    exact fun hlegal => hno ((perform_admitted c.run).mpr hlegal)
  | @prepared restored _ _ rest _ hpc =>
    refine iff_of_true ?_ (hother (.inr (by simp)))
    simp only [exposed,hpc]
    exact decide_eq_false (not_lt.mpr (performed_restoring n c.run restored rest))
  | permitted hpc => exact iff_of_true (by simp only [exposed,hpc]) (hother (.inr (by simp)))
  | ends htried =>
    exact iff_of_true (exposed_tried htried _) (hother (.inl fun previous hp => by rw [hp] at htried; cases htried))

theorem settles_driven (h : Booked c held) (hd : c.drive cfg n reply = some (c',bodies)) :
    Settles (c.Exposed cfg n (.drive i reply)) c' (c.heldDriven cfg n reply held) := by
  simp only [Cell.drive] at hd
  split at hd
  · cases hd
  rename_i t ht
  split at hd
  · cases hd
  rename_i hrun
  have hrunning : t.status = .running := not_not.mp hrun
  obtain ⟨⟨effs,t'⟩,hscript,hres⟩ := map_eq_some_iff.mp hd
  have hcourse := script_course hscript
  have hheld : c.heldDriven cfg n reply held = if (perform c.run effs).ok then (booking cfg n t c.run effs.length reply).apply held
      else heldAtEnd cfg n t c.run (some (reply,performed c.run effs)) held := by
    simp only [Cell.heldDriven,ht,hscript]
  rw [hheld]
  cases hok : (perform c.run effs).ok with
  | true =>
    cases hres
    rw [hok,if_pos rfl,if_pos rfl]
    refine .inl ⟨?_,booked_driven_ok h ht hrunning hcourse hok⟩
    rintro ⟨u,previous,hu,hpc,rfl,hillegal⟩
    cases ht.symm.trans hu
    cases hcourse with
    | outside hout => rw [hpc] at hout; cases hout
    | binds routeId hout => rw [hpc] at hout; cases hout
    | admitted => exact hillegal ((perform_admitted c.run).mp hok)
    | ends htried => rw [hpc] at htried; cases htried
  | false =>
    have hno : (perform c.run effs).ok ≠ true := Bool.eq_false_iff.mp hok
    cases hres
    rw [hok,if_neg Bool.false_ne_true,if_neg Bool.false_ne_true]
    have hended : ∀ u, some {t with status := Status.raised "illegal transition"} = some u → u.status ≠ .running := by
      intro u hu
      cases hu
      simp
    exact settles_ended hended ((heldAtEnd_behind h ht hrunning hcourse _).trans (refused_exposed_iff ht hcourse hno i))

theorem Booked.congr (h : Booked c held)
    (htask : c'.task = c.task ∨ c'.task = c.task.map fun t => {t with cancelRequested := true})
    (hroute : c'.run.routeId = c.run.routeId) : Booked c' held := by
  have hcancel : ∀ t, c.task = some t → c.task.map (fun t => {t with cancelRequested := true})
      = some {t with cancelRequested := true} := fun t ht => by rw [ht]; rfl
  refine ⟨fun routeId hr => ?_,fun u hu hres => ?_⟩
  · obtain ⟨t,ht,hrun,hpc,hbound⟩ := h.live routeId hr
    rcases htask with hsame | hasked
    · exact ⟨t,hsame.trans ht,hrun,hpc,hroute.trans hbound⟩
    · exact ⟨_,hasked.trans (hcancel t ht),hrun,hpc,hroute.trans hbound⟩
  · rw [hroute]
    rcases htask with hsame | hasked
    · exact h.held u (hsame.symm.trans hu) hres
    · obtain ⟨t,ht,rfl⟩ := map_eq_some_iff.mp (hasked.symm.trans hu)
      exact h.held t ht hres

theorem Booked.cancelTask (h : Booked c held) : Booked c.cancelTask held := h.congr (.inr rfl) rfl

theorem Booked.reap (h : Booked c held) : Booked c.reap.1 held := by
  simp only [Cell.reap]
  split
  · exact h
  · rename_i t ht
    have hgone : ∀ {run : NodeRun}, t.status ≠ .running → Booked ⟨run,none⟩ held := by
      intro run hended
      have hnone : held = none := h.ended_none fun u hu => by cases ht.symm.trans hu; exact hended
      rw [hnone]
      exact booked_none (by simp)
    split
    · exact h
    · rename_i hreturned
      exact hgone (by simp [hreturned])
    · rename_i hcancelled
      exact hgone (by simp [hcancelled])
    · rename_i text hraised
      exact hgone (by simp [hraised])

theorem Booked.block {reason : String} (h : Booked c held) : Booked (c.block reason).1 held := h.congr (.inl rfl) rfl

theorem Touch.booked {a : Live} (htouch : Touch cfg n c a c' bodies) (hloop : a.driver = none) (h : Booked c held) :
    Booked c' held := by
  cases htouch with
  | kept => exact h
  | reaped => exact h.reap
  | abandoned => exact h.reap.cancelTask
  | cancelRun =>
    simp only [Cell.cancelRun]
    split <;> exact h.congr (.inr rfl) rfl
  | cancelNode =>
    simp only [Cell.cancelNode]
    split
    · exact h.cancelTask.block
    · exact h.cancelTask.block
    · exact h.cancelTask.block
    · exact h.cancelTask.block
    · exact h
  | retryNode =>
    simp only [Cell.retryNode]
    split
    · exact h.congr (.inl rfl) rfl
    · exact h
  | blocked => exact h.block
  | spawned _ hnone =>
    have hheld : held = none := h.ended_none fun t ht => absurd (hnone.symm.trans ht) (by simp)
    rw [hheld]
    exact booked_none fun t ht => by cases ht; exact free_of_pc rfl
  | drive => cases hloop
  | raised => cases hloop
  | cancelled => cases hloop

end Entries

section Table
variable {g : WorkGraph} {cfg : Config} {x y : Loaded}

theorem get?_enter (d : Dict String String) (i j : String) (e : Option String) :
    (enter d i e).get? j = if j = i then e else d.get? j := by
  cases e with
  | some routeId => exact Dict.get?_set d i j routeId
  | none =>
    refine ext fun routeId => ?_
    rw [enter,Dict.get?_pop]
    by_cases hj : j = i
    · simp [hj]
    · simp [hj]

structure Kept (g : WorkGraph) (x : Loaded) : Prop where
  booked : ∀ n ∈ g.nodes, Booked (x.sys.cells n.nodeId) (x.inflight.get? n.nodeId)
  known : ∀ i routeId, x.inflight.get? i = some routeId → i ∈ g.ids

theorem routeLoad_le {routeId : String} (h : ∀ i, x.inflight.get? i = some routeId → ∃ n ∈ g.nodes, n.nodeId = i
    ∧ x.onRoute routeId n = true) : x.routeLoad routeId ≤ (g.nodes.filter (x.onRoute routeId)).length := by
  have hcount : x.routeLoad routeId = ((x.inflight.entries.filter fun e => decide (e.2 = routeId)).map Prod.fst).length := by
    rw [Loaded.routeLoad,Dict.values,List.filter_map,List.length_map,List.length_map]
    rfl
  have hnodup : ((x.inflight.entries.filter fun e => decide (e.2 = routeId)).map Prod.fst).Nodup :=
    x.inflight.nodup.sublist (List.filter_sublist.map _)
  have hsub : (x.inflight.entries.filter fun e => decide (e.2 = routeId)).map Prod.fst
      ⊆ (g.nodes.filter (x.onRoute routeId)).map WorkNode.nodeId := by
    intro i hi
    obtain ⟨e,he,rfl⟩ := List.mem_map.mp hi
    obtain ⟨hmem,hroute⟩ := List.mem_filter.mp he
    have hget : x.inflight.get? e.1 = some routeId := (Dict.mem_entries_iff _ _ _).mp (of_decide_eq_true hroute ▸ hmem)
    obtain ⟨n,hn,hid,hon⟩ := h e.1 hget
    exact List.mem_map.mpr ⟨n,List.mem_filter.mpr ⟨hn,hon⟩,hid⟩
  rw [hcount]
  exact (List.subperm_of_subset hnodup hsub).length_le.trans_eq (List.length_map _)

theorem Kept.exact (h : Kept g x) : x.Exact g := by
  have hlive : ∀ i routeId, x.inflight.get? i = some routeId → ∃ n ∈ g.nodes, n.nodeId = i ∧ x.onRoute routeId n = true := by
    intro i routeId hget
    obtain ⟨n,hn,rfl⟩ := List.mem_map.mp (h.known i routeId hget)
    obtain ⟨t,ht,hrun,hpc,hroute⟩ := (h.booked n hn).live routeId hget
    exact ⟨n,hn,rfl,by simp [Loaded.onRoute,ht,hrun,hpc,hroute]⟩
  exact ⟨hlive,fun routeId => routeLoad_le fun i => hlive i routeId⟩

theorem driven_settles {i : String} {s : Sys} {f : WorkNode → Cell → Option (Cell × List Body)}
    {F : WorkNode → Cell → Option String → Option String} {X : WorkNode → Prop} (hk : Kept g x)
    (h : x.sys.driven g i f = some s)
    (hsettles : ∀ n ∈ g.nodes, n.nodeId = i → ∀ c bodies, f n (x.sys.cells n.nodeId) = some (c,bodies) →
      Settles (X n) c (F n (x.sys.cells n.nodeId) (x.inflight.get? n.nodeId))) :
    ((∀ n ∈ g.nodes, n.nodeId = i → ¬ X n) ∧ Kept g ⟨s,x.entered g i F⟩)
      ∨ (∃ n ∈ g.nodes, n.nodeId = i ∧ X n) ∧ ¬ Loaded.Exact g ⟨s,x.entered g i F⟩ := by
  simp only [Sys.driven] at h
  split at h
  · cases h
  obtain ⟨n,hnode,h⟩ := Option.bind_eq_some_iff.mp h
  obtain ⟨⟨c,bodies⟩,hc,rfl⟩ := map_eq_some_iff.mp h
  obtain ⟨hn,rfl⟩ := WorkGraph.node?_some hnode
  have hentered : x.entered g n.nodeId F
      = enter x.inflight n.nodeId (F n (x.sys.cells n.nodeId) (x.inflight.get? n.nodeId)) := by
    simp only [Loaded.entered,hnode]
  have hsole : ∀ m ∈ g.nodes, m.nodeId = n.nodeId → m = n := fun m hm hid => List.inj_on_of_nodup_map g.nodup hm hn hid
  rw [hentered]
  rcases hsettles n hn rfl c bodies hc with ⟨hsafe,hbooked⟩ | ⟨hexposed,hleft,hgone⟩
  · refine .inl ⟨fun m hm hid hx => hsafe (hsole m hm hid ▸ hx),fun m hm => ?_,fun j routeId hget => ?_⟩
    · by_cases hid : m.nodeId = n.nodeId
      · rw [get?_enter,if_pos hid,hid,put_cells_self]
        exact hbooked
      · rw [get?_enter,if_neg hid,put_cells_ne hid]
        exact hk.booked m hm
    · rw [get?_enter] at hget
      split at hget
      · rename_i hj
        exact hj ▸ List.mem_map_of_mem hn
      · exact hk.known j routeId hget
  · refine .inr ⟨⟨n,hn,rfl,hexposed⟩,fun hexact => ?_⟩
    obtain ⟨routeId,hroute⟩ := Option.ne_none_iff_exists'.mp hleft
    obtain ⟨m,hm,hid,hon⟩ := hexact.live n.nodeId routeId (by rw [get?_enter,if_pos rfl,hroute])
    rw [Loaded.onRoute,hid,put_cells_self,Bool.and_eq_true_iff] at hon
    obtain ⟨t,ht,hlive⟩ := (Option.any_eq_true _ _).mp hon.1
    exact hgone t ht (of_decide_eq_true (Bool.and_eq_true_iff.mp hlive).1)

variable {a : Live}

theorem step_live (h : x.step g cfg (.live a) = some y) :
    ∃ s, x.sys.liveStep g cfg a = some s ∧ y = ⟨s,x.inflightAfter g cfg a⟩ := by
  obtain ⟨s,hs,rfl⟩ := map_eq_some_iff.mp h
  exact ⟨s,hs,rfl⟩

theorem kept_live (hk : Kept g x) (h : x.step g cfg (.live a) = some y) :
    ((∀ n ∈ g.nodes, a.driver = some n.nodeId → ¬ (x.sys.cells n.nodeId).Exposed cfg n a) ∧ Kept g y) ∨
    (∃ n ∈ g.nodes, a.driver = some n.nodeId ∧ (x.sys.cells n.nodeId).Exposed cfg n a) ∧ ¬ y.Exact g := by
  obtain ⟨s,hs,rfl⟩ := step_live h
  -- a step of the loop itself
  have hloop : a.driver = none → x.inflightAfter g cfg a = x.inflight →
      ((∀ n ∈ g.nodes, a.driver = some n.nodeId → ¬ (x.sys.cells n.nodeId).Exposed cfg n a)
        ∧ Kept g ⟨s,x.inflightAfter g cfg a⟩) := by
    intro hnone hsame
    rw [hsame]
    refine ⟨fun n _ hdriver => (nomatch hnone.symm.trans hdriver),fun n hn => ?_,hk.known⟩
    obtain ⟨bodies,-,htouch⟩ := liveStep_touch hs hn
    exact htouch.booked hnone (hk.booked n hn)
  -- a step of the driver of one node
  have hdriven : ∀ i, a.driver = some i → ∀ f F, x.sys.driven g i f = some s → x.inflightAfter g cfg a = x.entered g i F →
      (∀ n ∈ g.nodes, n.nodeId = i → ∀ c bodies, f n (x.sys.cells n.nodeId) = some (c,bodies) →
        Settles ((x.sys.cells n.nodeId).Exposed cfg n a) c (F n (x.sys.cells n.nodeId) (x.inflight.get? n.nodeId))) →
      ((∀ n ∈ g.nodes, a.driver = some n.nodeId → ¬ (x.sys.cells n.nodeId).Exposed cfg n a)
        ∧ Kept g ⟨s,x.inflightAfter g cfg a⟩)
      ∨ (∃ n ∈ g.nodes, a.driver = some n.nodeId ∧ (x.sys.cells n.nodeId).Exposed cfg n a)
        ∧ ¬ Loaded.Exact g ⟨s,x.inflightAfter g cfg a⟩ := by
    intro i hi f F hstep hafter hsettles
    rw [hafter]
    rcases driven_settles hk hstep hsettles with ⟨hsafe,hkept⟩ | ⟨⟨n,hn,hid,hexposed⟩,hleak⟩
    · exact .inl ⟨fun n hn hdriver => hsafe n hn (Option.some.inj (hdriver.symm.trans hi)),hkept⟩
    · exact .inr ⟨⟨n,hn,hid ▸ hi,hexposed⟩,hleak⟩
  cases a with
  | drive i reply =>
    simp only [Sys.liveStep] at hs
    split at hs
    · cases hs
    · exact hdriven i rfl (fun n c => c.drive cfg n reply) (fun n c held => c.heldDriven cfg n reply held) hs rfl
        (fun n hn _ c bodies hc => settles_driven (hk.booked n hn) hc)
  | raised i during text =>
    exact hdriven i rfl (fun n c => c.raised cfg n during text) (fun n c held => c.heldEnded cfg n during held) hs rfl
      (fun n hn _ c bodies hc => settles_raised (hk.booked n hn) hc)
  | cancelled i =>
    exact hdriven i rfl (fun _ c => c.cancelled) (fun n c held => c.heldEnded cfg n none held) hs rfl
      (fun n hn _ c bodies hc => settles_cancelled (hk.booked n hn) hc)
  | wake => exact .inl (hloop rfl rfl)
  | control => exact .inl (hloop rfl rfl)
  | launch => exact .inl (hloop rfl rfl)
  | drained => exact .inl (hloop rfl rfl)
  | merged => exact .inl (hloop rfl rfl)
  | reviewed => exact .inl (hloop rfl rfl)

theorem kept_boot (log : List Event) : Kept g ⟨Sys.boot g log,.empty⟩ := by
  refine ⟨fun n _ => booked_none fun t ht => ?_,fun i routeId hget => (nomatch hget)⟩
  simp only [Sys.boot,Cell.boot] at ht
  split at ht <;> cases ht

theorem kept_step {a : Act} (hk : Kept g x) (hcovered : x.Covered g cfg a) (h : x.step g cfg a = some y) : Kept g y := by
  have hsafe := hcovered (by rw [h]; rfl)
  cases a with
  | live a =>
    rcases kept_live hk h with ⟨-,hkept⟩ | ⟨⟨n,hn,hdriver,hexposed⟩,-⟩
    · exact hkept
    · exact absurd hexposed (hsafe n hn hdriver)
  | restart during reports =>
    obtain ⟨s,hs,rfl⟩ := map_eq_some_iff.mp h
    obtain ⟨cut,-,rfl⟩ := map_eq_some_iff.mp hs
    exact kept_boot _

theorem not_exact_of_uncovered {a : Act} (hk : Kept g x) (hbad : ¬ x.Covered g cfg a) : ∃ y, x.step g cfg a = some y ∧ ¬ y.Exact g := by
  obtain ⟨hsome,hbad⟩ := Classical.not_imp.mp hbad
  obtain ⟨y,hy⟩ := Option.isSome_iff_exists.mp hsome
  cases a with
  | live a =>
    rcases kept_live hk hy with ⟨hsafe,-⟩ | ⟨-,hleak⟩
    · exact absurd hsafe hbad
    · exact ⟨y,hy,hleak⟩
  | restart => exact absurd trivial hbad

/-- The table is exact in every state of a run exactly when no step of the run ends a driver between
the binding of its route and the `try`. -/
theorem inflight_exact_iff (g : WorkGraph) (cfg : Config) (as : List Act) :
    (∀ pre post x, as = pre ++ post → exec (Loaded.step g cfg) (Loaded.init g) pre = some x → x.Exact g) ↔
    AllSteps (Loaded.step g cfg) (Loaded.Covered g cfg) (Loaded.init g) as := by
  have hkept : ∀ pre x, AllSteps (Loaded.step g cfg) (Loaded.Covered g cfg) (Loaded.init g) pre →
      exec (Loaded.step g cfg) (Loaded.init g) pre = some x → Kept g x :=
    fun pre x hok hrun => exec_invariant_of (fun x a y hk hc hstep => kept_step hk hc hstep) hok hrun (kept_boot [])
  constructor
  · intro hexact
    by_contra hbad
    obtain ⟨pre,a,post,x,rfl,hpre,hrun,hviolated⟩ := first_violation hbad
    obtain ⟨y,hstep,hleak⟩ := not_exact_of_uncovered (hkept pre x hpre hrun) hviolated
    refine hleak (hexact (pre ++ [a]) post y (by simp) ?_)
    rw [exec_append,hrun]
    simp [exec,hstep]
  · rintro hok pre post x rfl hrun
    exact (hkept pre x hok.take hrun).exact

end Table

/-- The run binds `glm`, gets its slot, and its worktree cannot be added. -/
def crashedWorktree : List Act :=
  [.live .launch,.live (.drive "alpha" .started),.live (.drive "alpha" (.route "glm" false)),
    .live (.drive "alpha" (.slot false)),.live (.raised "alpha" none "worktree add failed"),.live (.wake false)]

/-- The driver is gone, its node is blocked, and the route is still loaded. -/
theorem crashed_worktree_stays_in_flight : ∃ x, exec (Loaded.step soloGraph {}) (Loaded.init soloGraph) crashedWorktree = some x
    ∧ (x.sys.cells "alpha").task = none ∧ x.inflight.get? "alpha" = some "glm" ∧ x.routeLoad "glm" = 1
    ∧ ¬ x.Exact soloGraph := by
  obtain ⟨x,hx,htask,hget,hload⟩ : ∃ x ∈ exec (Loaded.step soloGraph {}) (Loaded.init soloGraph) crashedWorktree,
      (x.sys.cells "alpha").task = none ∧ x.inflight.get? "alpha" = some "glm" ∧ x.routeLoad "glm" = 1 := by
    decide +kernel
  refine ⟨x,hx,htask,hget,hload,fun hexact => ?_⟩
  obtain ⟨n,-,hid,hon⟩ := hexact.live "alpha" "glm" hget
  rw [Loaded.onRoute,hid,htask] at hon
  cases hon

/-- A cancellation while the driver waits for its slot leaves the entry behind, too. -/
example : ∃ x ∈ exec (Loaded.step soloGraph {}) (Loaded.init soloGraph)
    [.live .launch,.live (.drive "alpha" .started),.live (.drive "alpha" (.route "glm" false)),.live (.wake false),
      .live (.control ⟨"r",.cancelNode,some "alpha","t","op"⟩),.live .launch,.live (.cancelled "alpha")],
    x.inflight.get? "alpha" = some "glm" := by
  decide +kernel

end Verdict.Runtime

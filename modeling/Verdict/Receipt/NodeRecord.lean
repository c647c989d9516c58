import Verdict.Basics.Dict
import Verdict.Runtime.Settlement

/-! # The receipt's record of a node

`_node_record` reads the events of a node, with their sequence numbers, and derives the
final state of the node again: from verification events that stand behind the last
success event, and not from what the runtime says it validated. The two are compared
over every log a run can leave, cut anywhere.
-/
namespace Verdict.Receipt
open Verdict.Runtime Verdict.Run
open List (map_append mem_append mem_append_left mem_map mem_singleton reverseRecOn)
open Prod (fst snd)

inductive RowOutcome
  | running | success | failure | abandoned
  deriving DecidableEq

/-- One attempt of a node. `terminalOk`: the attempt has a terminal, with this flag. -/
structure AttemptRow where
  attempt : ℕ
  routeId : String := ""
  outcome : RowOutcome := .running
  failureCategory : Option Category := none
  terminalOk : Option Bool := none

def AttemptRow.routed (row : AttemptRow) (routeId : String) : AttemptRow :=
  if routeId = "" then row else {row with routeId := routeId}

structure Scan where
  attempts : Dict ℕ AttemptRow := .empty
  current : ℕ := 0
  lastSuccess : Option ℕ := none
  claimed : Option (NodeState × ℕ) := none
  commit : String := ""

def attemptOf (raw : Option ℕ) (fallback : ℕ) : ℕ := match raw with
  | some attempt => if 0 < attempt then attempt else fallback
  | none => fallback

namespace Scan

def currentOr1 (sc : Scan) : ℕ := if sc.current = 0 then 1 else sc.current

def touch (sc : Scan) (number : ℕ) (f : AttemptRow → AttemptRow) : Scan :=
  {sc with
    current := number
    attempts := sc.attempts.set number (f ((sc.attempts.get? number).getD {attempt := number}))}

def next (sc : Scan) : ℕ × Body → Scan
  | (_,.dispatch routeId attempt) =>
    sc.touch (attemptOf (some attempt) (sc.current + 1)) fun row => row.routed routeId
  | (seq,.terminal ok routeId attempt) =>
    let sc := sc.touch (attemptOf (some attempt) sc.currentOr1) (fun row =>
      {row.routed routeId with outcome := if ok then .success else .failure, terminalOk := some ok})
    if ok then {sc with lastSuccess := some seq} else sc
  | (_,.failure category routeId attempt) =>
    -- behind a terminal the event may carry the route of a revoked candidate
    sc.touch (attemptOf attempt sc.currentOr1) (fun row =>
      {(if row.terminalOk = none then row.routed routeId else row) with
        outcome := .failure, failureCategory := some category})
  | (seq,.nodeState state _ _) => {sc with
    claimed := some (state,seq)
    lastSuccess := if state = .terminalSuccess then some seq else sc.lastSuccess}
  | (_,.integrate _ ref) => if ref = "" then sc else {sc with commit := ref}
  | _ => sc

def numbers (sc : Scan) : List ℕ := sc.attempts.entries.map fst

def latest (sc : Scan) : Option AttemptRow := sc.numbers.max?.bind sc.attempts.get?

def unverified (sc : Scan) : NodeState :=
  match sc.claimed with
  | some (state,_) => if state ≠ .validated then state else success
  | none => success
where
  success : NodeState :=
    if sc.lastSuccess.isSome then .terminalSuccess
    else match sc.latest with
    | none => .planned
    | some row => match row.outcome with
      | .success => .terminalSuccess
      | .failure => .terminalFailure
      | _ => .running

def revoked (sc : Scan) (seq : ℕ) : Bool := match sc.claimed with
  | some (state,k) => decide ((state = .rejected ∨ state = .blocked) ∧ seq < k)
  | none => false

def finalState (sc : Scan) (validatedBy : List ℕ) : NodeState :=
  match validatedBy.getLast? with
  | some seq => if sc.revoked seq then sc.unverified else .validated
  | none => sc.unverified

def abandon (sc : Scan) (state : NodeState) (row : AttemptRow) : AttemptRow :=
  if row.outcome = .running ∧ (some row.attempt ≠ sc.numbers.max? ∨ state ≠ .running) then
    {row with outcome := .abandoned}
  else row

end Scan

def validatedBy (events : List (ℕ × Body)) : Option ℕ → List ℕ
  | none => []
  | some last => (events.filter fun e => decide (e.2 = .verify true ∧ last < e.1)).map fst

structure NodeRecord where
  nodeId : String
  kind : NodeKind
  finalState : NodeState
  attempts : List AttemptRow
  validatedBy : List ℕ
  commit : String

def nodeRecord (n : WorkNode) (events : List (ℕ × Body)) : NodeRecord :=
  let sc := events.foldl Scan.next {}
  let passed := validatedBy events sc.lastSuccess
  let state := sc.finalState passed
  ⟨n.nodeId,n.kind,state,
    (sc.attempts.entries.insertionSort fun a b => a.1 ≤ b.1).map fun e => sc.abandon state e.2,
    passed,sc.commit⟩

variable (i : String)

def nodeEvents (log : List Event) : List (ℕ × Body) :=
  (log.zipIdx.filter fun e => decide (e.1.nodeId = i)).map fun e => (e.2,e.1.body)

theorem nodeEvents_snoc (log : List Event) (e : Event) :
    nodeEvents i (log ++ [e]) = nodeEvents i log ++ (if e.nodeId = i then [(log.length,e.body)] else []) := by
  simp only [nodeEvents,List.zipIdx_append,List.filter_append,map_append]
  congr 1
  by_cases h : e.nodeId = i <;> simp [h]

theorem nodeEvents_bodies (log : List Event) : (nodeEvents i log).map snd = nodeLog i log := by
  induction log using reverseRecOn with
  | nil => rfl
  | append_singleton log e ih =>
    rw [nodeEvents_snoc,map_append,ih,nodeLog_append]
    by_cases h : e.nodeId = i <;> simp [nodeLog,h]

theorem nodeEvents_lt {i : String} {log : List Event} {e : ℕ × Body} (he : e ∈ nodeEvents i log) :
    e.1 < log.length := by
  obtain ⟨x,hx,rfl⟩ := mem_map.mp he
  have hlt := List.snd_lt_of_mem_zipIdx (List.mem_of_mem_filter hx)
  simpa using hlt

def Ordered (events : List (ℕ × Body)) : Prop := events.Pairwise fun a b => a.1 < b.1

theorem nodeEvents_ordered (log : List Event) : Ordered (nodeEvents i log) := by
  induction log using reverseRecOn with
  | nil => exact .nil
  | append_singleton log e ih =>
    rw [nodeEvents_snoc]
    split
    · refine List.pairwise_append.mpr ⟨ih,List.pairwise_singleton _ _,fun a ha b hb => ?_⟩
      rw [mem_singleton.mp hb]
      exact nodeEvents_lt ha
    · rwa [List.append_nil]

theorem validatedBy_snoc (events : List (ℕ × Body)) (e : ℕ × Body) (last : Option ℕ) :
    validatedBy (events ++ [e]) last = validatedBy events last ++ validatedBy [e] last := by
  cases last <;> simp [validatedBy]

theorem mem_of_validatedBy {events : List (ℕ × Body)} {last : Option ℕ} {k : ℕ}
    (h : k ∈ validatedBy events last) : (k,Body.verify true) ∈ events := by
  cases last with
  | none => cases h
  | some l =>
    obtain ⟨e,he,rfl⟩ := mem_map.mp h
    obtain ⟨hmem,hdec⟩ := List.mem_filter.mp he
    rw [← (of_decide_eq_true hdec).1]
    exact hmem

theorem validatedBy_newest {events : List (ℕ × Body)} {m : ℕ} (h : ∀ e ∈ events, e.1 < m) :
    validatedBy events (some m) = [] := by
  simp only [validatedBy,List.map_eq_nil_iff,List.filter_eq_nil_iff,decide_eq_true_eq,not_and,not_lt]
  exact fun e he _ => (h e he).le

structure Agrees (sc : Scan) (events : List (ℕ × Body)) (tr : Track) : Prop where
  claimed : sc.claimed.map fst = tr.claimed
  success : sc.lastSuccess.isSome = tr.success
  fresh : tr.fresh = true ↔ validatedBy events sc.lastSuccess ≠ []
  marker : ∀ l, sc.lastSuccess = some l → ∃ e ∈ events, e.1 = l
  revoked : ∀ state k, sc.claimed = some (state,k) → state = .rejected ∨ state = .blocked →
    ∀ v ∈ validatedBy events sc.lastSuccess, v < k

namespace Agrees
variable {n : WorkNode} {sc : Scan} {events : List (ℕ × Body)} {tr : Track}

theorem other (h : Agrees sc events tr) (m : ℕ) {b : Body} (hv : b ≠ .verify true)
    (hsc : (sc.next (m,b)).claimed = sc.claimed ∧ (sc.next (m,b)).lastSuccess = sc.lastSuccess)
    (htr : (tr.next n b).claimed = tr.claimed ∧ (tr.next n b).success = tr.success ∧ (tr.next n b).fresh = tr.fresh) :
    Agrees (sc.next (m,b)) (events ++ [(m,b)]) (tr.next n b) := by
  obtain ⟨hclaimed,hlast⟩ := hsc
  obtain ⟨hc,hs,hf⟩ := htr
  have hby : validatedBy (events ++ [(m,b)]) sc.lastSuccess = validatedBy events sc.lastSuccess := by
    rw [validatedBy_snoc]
    cases sc.lastSuccess <;> simp [validatedBy,hv]
  refine ⟨by rw [hclaimed,hc]; exact h.claimed,by rw [hlast,hs]; exact h.success,?_,fun l hl => ?_,?_⟩
  · rw [hlast,hby,hf]
    exact h.fresh
  · obtain ⟨e,he,hl⟩ := h.marker l (hlast ▸ hl)
    exact ⟨e,mem_append_left _ he,hl⟩
  · rw [hclaimed,hlast,hby]
    exact h.revoked

theorem succeed {m : ℕ} {b : Body} (hlt : ∀ e ∈ events, e.1 < m) (hv : b ≠ .verify true)
    (hsc : (sc.next (m,b)).claimed.map fst = (tr.next n b).claimed ∧ (sc.next (m,b)).lastSuccess = some m)
    (htr : (tr.next n b).success = true ∧ (tr.next n b).fresh = false) :
    Agrees (sc.next (m,b)) (events ++ [(m,b)]) (tr.next n b) := by
  obtain ⟨hclaimed,hlast⟩ := hsc
  have hby : validatedBy (events ++ [(m,b)]) (sc.next (m,b)).lastSuccess = [] := by
    rw [hlast,validatedBy_snoc,validatedBy_newest hlt]
    simp [validatedBy,hv]
  refine ⟨hclaimed,by rw [hlast,htr.1]; rfl,by simp [htr.2,hby],fun l hl => ?_,by simp [hby]⟩
  rw [hlast] at hl
  cases hl
  exact ⟨_,List.mem_append_right _ (List.mem_singleton_self _),rfl⟩

theorem claim {m : ℕ} {state : NodeState} {routeId commit : String} (h : Agrees sc events tr)
    (hlt : ∀ e ∈ events, e.1 < m) : Agrees (sc.next (m,.nodeState state routeId commit))
    (events ++ [(m,.nodeState state routeId commit)]) (tr.next n (.nodeState state routeId commit)) := by
  by_cases hst : state = .terminalSuccess
  · exact succeed hlt (by simp) ⟨rfl,by simp [Scan.next,hst]⟩ (by simp [Track.next,hst])
  · have hby : validatedBy (events ++ [(m,.nodeState state routeId commit)]) sc.lastSuccess
        = validatedBy events sc.lastSuccess := by
      rw [validatedBy_snoc]
      cases sc.lastSuccess <;> simp [validatedBy]
    have hlast : (sc.next (m,.nodeState state routeId commit)).lastSuccess = sc.lastSuccess := by
      simp [Scan.next,hst]
    refine ⟨rfl,?_,?_,fun l hl => ?_,fun state' k hk _ v hv => ?_⟩
    · rw [hlast,h.success]
      simp [Track.next,hst]
    · rw [hlast,hby,← h.fresh]
      simp [Track.next,hst]
    · obtain ⟨e',he',hl⟩ := h.marker l (hlast ▸ hl)
      exact ⟨e',mem_append_left _ he',hl⟩
    · cases hk
      rw [hlast,hby] at hv
      exact hlt _ (mem_of_validatedBy hv)

theorem verified {m : ℕ} (h : Agrees sc events tr) (hlt : ∀ e ∈ events, e.1 < m)
    (hclaimed : tr.claimed = some .terminalSuccess) (hs : tr.success = true) :
    Agrees (sc.next (m,.verify true)) (events ++ [(m,.verify true)]) (tr.next n (.verify true)) := by
  obtain ⟨l,hl⟩ := Option.isSome_iff_exists.mp (h.success.trans hs)
  obtain ⟨e,he,hle⟩ := h.marker l hl
  refine ⟨h.claimed,h.success,?_,fun k hk => ?_,fun state k hk hr => ?_⟩
  · simp [Scan.next,Track.next,validatedBy,hs,hl,hle ▸ hlt e he]
  · obtain ⟨e',he',hk⟩ := h.marker k hk
    exact ⟨e',mem_append_left _ he',hk⟩
  · have hst : some state = some .terminalSuccess := by
      rw [← hclaimed,← h.claimed,show sc.claimed = some (state,k) from hk]
      rfl
    cases hst
    rcases hr with hr | hr <;> cases hr

end Agrees

theorem scan_agrees {n : WorkNode} {maxAttempts : ℕ} {events : List (ℕ × Body)} (hord : Ordered events)
    (hconf : Conform n maxAttempts (events.map snd)) :
    Agrees (events.foldl Scan.next {}) events (track n (events.map snd)) := by
  induction events using reverseRecOn with
  | nil => exact ⟨rfl,rfl,by simp [track,validatedBy],by simp,by simp⟩
  | append_singleton events e ih =>
    obtain ⟨m,b⟩ := e
    obtain ⟨hord,_,hlast⟩ := List.pairwise_append.mp hord
    have hlt : ∀ e ∈ events, e.1 < m := fun e he => hlast e he _ (List.mem_singleton_self _)
    rw [map_append] at hconf ⊢
    obtain ⟨hconf,hadm,_⟩ := conform_append.mp hconf
    have ih := ih hord hconf
    rw [List.foldl_append,List.map_singleton,track_snoc]
    change Agrees (Scan.next _ (m,b)) _ (Track.next n _ b)
    clear hlast
    cases b with
    | nodeState => exact ih.claim hlt
    | terminal ok =>
      cases ok with
      | true => exact Agrees.succeed hlt (by simp) ⟨ih.claimed,rfl⟩ ⟨rfl,rfl⟩
      | false => exact ih.other m (by simp) ⟨rfl,rfl⟩ ⟨rfl,rfl,rfl⟩
    | verify ok =>
      cases ok with
      | true => exact ih.verified hlt hadm.2.1 hadm.2.2
      | false => exact ih.other m (by simp) ⟨rfl,rfl⟩ ⟨rfl,rfl,rfl⟩
    | barrier name ok =>
      refine ih.other m (by simp) ⟨rfl,rfl⟩ ?_
      simp only [Track.next]
      split <;> exact ⟨rfl,rfl,rfl⟩
    | integrate => exact absurd hadm (by simp [Admits])
    | _ => exact ih.other m (by simp) ⟨rfl,rfl⟩ ⟨rfl,rfl,rfl⟩

theorem unverified_ne (sc : Scan) : sc.unverified ≠ .validated := by
  have hsuccess : Scan.unverified.success sc ≠ .validated := by
    simp only [Scan.unverified.success]
    split
    · decide
    · split
      · decide
      · split <;> decide
  simp only [Scan.unverified]
  split
  · split
    · assumption
    · exact hsuccess
  · exact hsuccess

theorem Agrees.validated {sc : Scan} {events : List (ℕ × Body)} {tr : Track} (h : Agrees sc events tr) :
    sc.finalState (validatedBy events sc.lastSuccess) = .validated ↔ tr.fresh = true ∧ tr.claimed ≠ some
    .rejected ∧ tr.claimed ≠ some .blocked := by
  rw [h.fresh,← h.claimed,Scan.finalState]
  cases hlast : (validatedBy events sc.lastSuccess).getLast? with
  | none => simp [List.getLast?_eq_none_iff.mp hlast,unverified_ne]
  | some v =>
    have hmem := List.mem_of_getLast? hlast
    have hne := List.ne_nil_of_mem hmem
    cases hc : sc.claimed with
    | none => simp [Scan.revoked,hc,hne]
    | some claim =>
      obtain ⟨state,k⟩ := claim
      have hlt := h.revoked state k hc
      by_cases hr : state = .rejected ∨ state = .blocked
      · simp only [Scan.revoked,hc,hr,hlt hr v hmem,and_self,decide_true,if_true]
        rcases hr with rfl | rfl <;> simp [unverified_ne]
      · simp only [Scan.revoked,hc,hr,false_and,decide_false]
        simpa [hne] using hr

/-! ### The record against the runtime's own state -/

/-- The state of the last `node_state` event. -/
def lastState (log : List Body) : Option NodeState :=
  (log.filterMap (fun b => match b with
    | .nodeState state _ _ => some state
    | _ => none)).getLast?

def marksSuccess : Body → Bool
  | .terminal true _ _ => true
  | .nodeState .terminalSuccess _ _ => true
  | _ => false

def Standing (log : List Body) : Prop :=
  ∃ pre post, log = pre ++ .verify true :: post ∧ (∃ b ∈ pre, marksSuccess b = true) ∧
    ∀ b ∈ post, marksSuccess b = false

theorem standing_verify (log : List Body) :
    Standing (log ++ [.verify true]) ↔ ∃ b ∈ log, marksSuccess b = true := by
  constructor
  · rintro ⟨pre,post,hlog,⟨b,hb,hsuccess⟩,_⟩
    have hmem : b ∈ log ++ [.verify true] := hlog ▸ mem_append_left _ hb
    rcases mem_append.mp hmem with hmem | hmem
    · exact ⟨b,hmem,hsuccess⟩
    · rw [mem_singleton.mp hmem] at hsuccess
      cases hsuccess
  · intro h
    exact ⟨log,[],rfl,h,by simp⟩

theorem standing_snoc {b : Body} (log : List Body) (hb : b ≠ .verify true) :
    Standing (log ++ [b]) ↔ Standing log ∧ marksSuccess b = false := by
  constructor
  · rintro ⟨pre,post,hlog,hpre,hpost⟩
    rcases List.eq_nil_or_concat post with rfl | ⟨post',b',rfl⟩
    · exact absurd (List.append_inj' hlog rfl).2 (by simpa using hb)
    · rw [List.concat_eq_append,← List.cons_append,← List.append_assoc] at hlog
      obtain ⟨rfl,hbb⟩ := List.append_inj' hlog rfl
      cases hbb
      rw [List.concat_eq_append] at hpost
      exact ⟨⟨pre,post',rfl,hpre,fun c hc => hpost c (mem_append_left _ hc)⟩,
        hpost b (List.mem_append_right _ (List.mem_singleton_self _))⟩
  · rintro ⟨⟨pre,post,rfl,hpre,hpost⟩,hb⟩
    refine ⟨pre,post ++ [b],by simp,hpre,fun c hc => ?_⟩
    rcases mem_append.mp hc with hc | hc
    · exact hpost c hc
    · rw [mem_singleton.mp hc]
      exact hb

variable {n : WorkNode} {maxAttempts : ℕ} {log : List Body}

theorem track_claimed (log : List Body) : (track n log).claimed = lastState log := by
  induction log using reverseRecOn with
  | nil => rfl
  | append_singleton log b ih =>
    rw [track_snoc,lastState,List.filterMap_append]
    have hquiet : ∀ states : List NodeState, (states ++ []).getLast? = states.getLast? := fun states => by simp
    cases b with
    | nodeState => simp [Track.next]
    | terminal ok => cases ok <;> exact ih.trans (hquiet _).symm
    | verify ok => cases ok <;> exact ih.trans (hquiet _).symm
    | barrier => simp only [Track.next]; split <;> exact ih.trans (hquiet _).symm
    | _ => exact ih.trans (hquiet _).symm

theorem track_success (log : List Body) : (track n log).success = true ↔ ∃ b ∈ log, marksSuccess b = true := by
  induction log using reverseRecOn with
  | nil => simp [track]
  | append_singleton log b ih =>
    rw [track_snoc]
    simp only [mem_append,mem_singleton,or_and_right,exists_or,exists_eq_left,← ih]
    cases b with
    | nodeState state => cases state <;> simp [Track.next,marksSuccess]
    | terminal ok => cases ok <;> simp [Track.next,marksSuccess]
    | verify ok => cases ok <;> simp [Track.next,marksSuccess]
    | barrier => simp only [Track.next]; split <;> simp [marksSuccess]
    | _ => simp [Track.next,marksSuccess]

theorem track_fresh (log : List Body) : (track n log).fresh = true ↔ Standing log := by
  induction log using reverseRecOn with
  | nil => simp [track,Standing]
  | append_singleton log b ih =>
    rw [track_snoc]
    by_cases hv : b = .verify true
    · subst hv
      rw [standing_verify,← track_success (n := n)]
      rfl
    · rw [standing_snoc log hv,← ih]
      cases b with
      | nodeState state => cases state <;> simp [Track.next,marksSuccess]
      | terminal ok => cases ok <;> simp [Track.next,marksSuccess]
      | verify ok =>
        cases ok with
        | true => exact absurd rfl hv
        | false => simp [Track.next,marksSuccess]
      | barrier => simp only [Track.next]; split <;> simp [marksSuccess]
      | _ => simp [Track.next,marksSuccess]

theorem finalState_validated {log : List Event} (h : Conform n maxAttempts (nodeLog n.nodeId log)) :
    (nodeRecord n (nodeEvents n.nodeId log)).finalState = .validated ↔ Standing (nodeLog n.nodeId log) ∧
    lastState (nodeLog n.nodeId log) ≠ some .rejected ∧ lastState (nodeLog n.nodeId log) ≠ some .blocked :=
    by
  rw [← nodeEvents_bodies] at h
  have hagree := (scan_agrees (nodeEvents_ordered n.nodeId log) h).validated
  rw [nodeEvents_bodies,track_fresh,track_claimed] at hagree
  exact hagree

/-- The record is right about a node, for every run and every place the log is cut at,
exactly when a verification that stands has been judged last, and a validated node has one. -/
theorem record_agrees_iff {g : WorkGraph} {cfg : Config} {s : Sys} {as : List Act}
    (h : exec (Sys.step g cfg) (Sys.init g) as = some s) (hn : n ∈ g.nodes)
    {cut : List Event} (hcut : cut <+: s.log) :
    ((nodeRecord n (nodeEvents n.nodeId cut)).finalState = .validated ↔
        lastState (nodeLog n.nodeId cut) = some .validated) ↔
      (Standing (nodeLog n.nodeId cut) →
        lastState (nodeLog n.nodeId cut) ∈ [some .validated,some .rejected,some .blocked]) ∧
      (lastState (nodeLog n.nodeId cut) = some .validated → verifies n = true) := by
  have hconf := (reachable_conform h hn).cut (nodeLog_mono n.nodeId hcut)
  rw [finalState_validated hconf]
  by_cases hv : lastState (nodeLog n.nodeId cut) = some .validated
  · -- then the verification stands when the node has one
    have hstand : Standing (nodeLog n.nodeId cut) ↔ verifies n = true := by
      rw [← track_fresh (n := n),(hconf.done (hconf.validated (track_claimed _ ▸ hv))).1]
    simp [hv,hstand]
  · simp [hv]
    tauto

/-- The driver of `alpha` has verified its first attempt, a repository gate fails, and the
node is planned again. -/
def rejectAlpha : List Act :=
  [.live (.drive "alpha" (.executed true true ⟨.other "none",.reroute,0,.none⟩)),
    .live (.drive "alpha" (.changed ["a.py"] ⟨.ownershipViolation,.reroute,0,.none⟩)),
    .live (.drive "alpha" (.ran true ⟨.verificationFailed,.correctImplementation,0,.none⟩ "")),
    .live (.drive "alpha" (.gated false ⟨.verificationFailed,.correctImplementation,0,.none⟩ "ruff")),
    .live (.drive "alpha" (.salvaged false)),.live (.drive "alpha" (.removed true))]

/-- A rejected attempt that was set back is reported as validated. -/
theorem rejected_recorded_validated : ∃ s ∈ exec (Sys.step soloGraph {}) (Sys.init soloGraph)
    (sendAlpha "glm" ++ rejectAlpha), (nodeRecord alpha (nodeEvents "alpha" s.log)).finalState = .validated
    ∧ lastState (nodeLog "alpha" s.log) = some .planned := by
  decide +kernel

/-- A second attempt that is validated brings record and runtime together again. -/
theorem record_agrees_iff_reassigned : ∃ s, exec (Sys.step soloGraph {}) (Sys.init soloGraph)
    (sendAlpha "glm" ++ rejectAlpha ++ (sendAlpha "kimi").drop 2 ++ sealAlpha "c1") = some s ∧ lastState
    (nodeLog "alpha" s.log) = some .validated ∧ (nodeRecord alpha (nodeEvents "alpha" s.log)).finalState =
    .validated := by
  obtain ⟨s,hs,hlast⟩ : ∃ s ∈ exec (Sys.step soloGraph {}) (Sys.init soloGraph)
      (sendAlpha "glm" ++ rejectAlpha ++ (sendAlpha "kimi").drop 2 ++ sealAlpha "c1"),
      lastState (nodeLog "alpha" s.log) = some .validated := by
    decide +kernel
  have hagree := (record_agrees_iff hs (n := alpha) (by decide) List.prefix_rfl).mpr
    ⟨fun _ => by rw [show alpha.nodeId = "alpha" from rfl,hlast]; decide,fun _ => by decide⟩
  exact ⟨s,hs,hlast,hagree.mpr hlast⟩

end Verdict.Receipt

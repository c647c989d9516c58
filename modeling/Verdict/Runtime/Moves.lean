import Verdict.Runtime.Loop

/-! # Steps of the controller as moves of single nodes

Whatever the loop does in one step, it does node by node. `CellStep` lists what can happen to a
node, `Move` is one such change (or an event of the run itself), and every step of a life is a
sequence of moves, for which the invariants are proved. `R` says in which states an operator's
retry of a node may be accepted, `stop` that the loop is being left.
-/
namespace Verdict.Runtime
open Driver Controls Relation
open Sys (finish liveStep put spawnOne sweep)
open Body (runLevel)

inductive CellStep (cfg : Config) (R stop : Prop) (s : Sys) (n : WorkNode) : Cell → List Body → Prop
  | spawn (hready : s.ready n) (hnone : (s.cells n.nodeId).task = none) :
      CellStep cfg R stop s n {s.cells n.nodeId with task := some {}} []
  | drive {reply : Reply} {c : Cell} {bodies : List Body}
      (h : (s.cells n.nodeId).drive cfg n reply = some (c,bodies)) : CellStep cfg R stop s n c bodies
  | raised {during : Option (Reply × ℕ)} {text : String} {c : Cell} {bodies : List Body}
      (h : (s.cells n.nodeId).raised cfg n during text = some (c,bodies)) : CellStep cfg R stop s n c bodies
  | cancelled {c : Cell} {bodies : List Body} (h : (s.cells n.nodeId).cancelled = some (c,bodies)) :
      CellStep cfg R stop s n c bodies
  | reap : CellStep cfg R stop s n (s.cells n.nodeId).reap.1 (s.cells n.nodeId).reap.2
  | cancelTask (h : stop) : CellStep cfg R stop s n (s.cells n.nodeId).cancelTask []
  | cancelRun (h : stop) : CellStep cfg R stop s n (s.cells n.nodeId).cancelRun.1 (s.cells n.nodeId).cancelRun.2
  | cancelNode : CellStep cfg R stop s n (s.cells n.nodeId).cancelNode.1 (s.cells n.nodeId).cancelNode.2
  | retry (hended : ∀ t, (s.cells n.nodeId).task = some t → t.status = .running)
      (hR : (s.cells n.nodeId).retriable cfg → R) :
      CellStep cfg R stop s n ((s.cells n.nodeId).retryNode cfg).1 ((s.cells n.nodeId).retryNode cfg).2
  | block {reason : String} (h : s.blockable n) :
      CellStep cfg R stop s n ((s.cells n.nodeId).block reason).1 ((s.cells n.nodeId).block reason).2

theorem CellStep.mono {cfg : Config} {R R' stop : Prop} {s : Sys} {n : WorkNode} {c : Cell} {bodies : List Body}
    (h : CellStep cfg R stop s n c bodies) (hR : R → R') : CellStep cfg R' stop s n c bodies := by
  cases h with
  | spawn hready hnone => exact .spawn hready hnone
  | drive h => exact .drive h
  | raised h => exact .raised h
  | cancelled h => exact .cancelled h
  | reap => exact .reap
  | cancelTask h => exact .cancelTask h
  | cancelRun h => exact .cancelRun h
  | cancelNode => exact .cancelNode
  | retry hended hretry => exact .retry hended fun h => hR (hretry h)
  | block h => exact .block h

inductive Move (g : WorkGraph) (cfg : Config) (R : Sys → WorkNode → Prop) (stop : Prop) : Sys → Sys → Prop
  | cell {s : Sys} {n : WorkNode} {c : Cell} {bodies : List Body} (hn : n ∈ g.nodes)
      (h : CellStep cfg (R s n) stop s n c bodies) : Move g cfg R stop s (s.put n.nodeId c bodies)
  | say {s : Sys} {bodies : List Body} (hb : ∀ b ∈ bodies, b.runLevel = true) : Move g cfg R stop s (s.say bodies)
  | phase {s : Sys} (p : Phase) : Move g cfg R stop s {s with phase := p}

/-- Between two polls no ended task is left in `pending`. -/
def Tidy (g : WorkGraph) (s : Sys) : Prop :=
  s.phase = .polling → ∀ n ∈ g.nodes, ∀ t, (s.cells n.nodeId).task = some t → t.status = .running

section
variable {g : WorkGraph} {cfg : Config} {R : Sys → WorkNode → Prop} {stop : Prop} {s t : Sys}

@[simp]
theorem put_cells_self (i : String) (c : Cell) (bodies : List Body) : (s.put i c bodies).cells i = c := by
  simp [put]

variable {i : String}

theorem put_cells_ne {j : String} (h : j ≠ i) (c : Cell) (bodies : List Body) :
    (s.put i c bodies).cells j = s.cells j := by
  simp [put,h]

theorem put_same (i : String) : s.put i (s.cells i) [] = s := by
  have hcells : (fun j => if j = i then s.cells i else s.cells j) = s.cells := by
    funext j
    split
    · rename_i h
      rw [h]
    · rfl
  simp only [put,hcells,List.map_nil,List.append_nil]

theorem moves_invariant {P : Sys → Prop} (hmove : ∀ s t, P s → Move g cfg R stop s t → P t)
    (hm : ReflTransGen (Move g cfg R stop) s t) (hs : P s) : P t := by
  induction hm with
  | refl => exact hs
  | tail _ hstep ih => exact hmove _ _ ih hstep

variable {f : Sys → WorkNode → Cell × List Body}

theorem sweep_invariant {P : Sys → Prop} {nodes : List WorkNode}
    (hstep : ∀ s, ∀ n ∈ nodes, P s → P (s.put n.nodeId (f s n).1 (f s n).2)) (hs : P s) :
    P (sweep f s nodes) := by
  induction nodes generalizing s with
  | nil => exact hs
  | cons n nodes ih =>
    exact ih (fun s m hm => hstep s m (List.mem_cons_of_mem _ hm)) (hstep s n List.mem_cons_self hs)

theorem sweep_moves (hf : ∀ s, ∀ n ∈ g.nodes, CellStep cfg (R s n) stop s n (f s n).1 (f s n).2 ∨ f s n = (s.cells n.nodeId,[])) :
    ReflTransGen (Move g cfg R stop) s (sweep f s g.nodes) := by
  refine sweep_invariant (P := fun t => ReflTransGen (Move g cfg R stop) s t) (fun t n hn ht => ?_) .refl
  rcases hf t n hn with h | h
  · exact ht.tail (.cell hn h)
  · rw [h,put_same]
    exact ht

theorem propagateBlocks_moves (fuel : ℕ) : ReflTransGen (Move g cfg R stop) s (Sys.propagateBlocks g fuel s) := by
  induction fuel generalizing s with
  | zero => exact .refl
  | succ fuel ih =>
    simp only [Sys.propagateBlocks]
    split
    · refine (sweep_moves fun t n _ => ?_).trans ih
      simp only [Sys.blockOne]
      split
      · exact .inl (.block ‹_›)
      · exact .inr rfl
    · exact .refl

theorem finish_moves (outcome : RunOutcome) : ReflTransGen (Move g cfg R stop) s (s.finish outcome) :=
  ReflTransGen.tail (ReflTransGen.single (.say (by simp [runLevel]))) (.phase _)

theorem launch_moves : ReflTransGen (Move g cfg R stop) s (s.launch g) := by
  have hspawn : ∀ t, ReflTransGen (Move g cfg R stop) t (sweep spawnOne t g.nodes) := by
    intro t
    refine sweep_moves fun t n _ => ?_
    simp only [spawnOne]
    split
    · rename_i h
      exact .inl (.spawn h.1 h.2)
    · exact .inr rfl
  have hs : ReflTransGen (Move g cfg R stop) s
      (sweep spawnOne (Sys.propagateBlocks g g.nodes.length s) g.nodes) :=
    (propagateBlocks_moves g.nodes.length).trans (hspawn _)
  simp only [Sys.launch]
  split
  · exact hs.tail (.phase _)
  · split
    · exact hs.tail (.phase _)
    · exact hs.trans (finish_moves _)

theorem handle_moves {req : ControlRequest} (htidy : ∀ n ∈ g.nodes, ∀ t, (s.cells n.nodeId).task = some t → t.status = .running)
    (hR : ∀ n ∈ g.nodes, req.kind = .retryNode → req.nodeId = some n.nodeId →
      (s.cells n.nodeId).retriable cfg → R s n)
    (hstop : (s.handle g cfg req).phase = .cancelling → stop) :
    ReflTransGen (Move g cfg R stop) s (s.handle g cfg req) := by
  have hnode : ∀ i, ¬ i ∉ g.ids → ∃ n ∈ g.nodes, n.nodeId = i := fun i hi => List.mem_map.mp (not_not.mp hi)
  simp only [Sys.handle] at hstop ⊢
  split
  · rename_i hkind
    rw [hkind] at hstop
    refine ReflTransGen.tail (ReflTransGen.tail (sweep_moves fun t n _ => .inl ?_)
      (.say (by simp [runLevel]))) (.phase _)
    exact .cancelRun (hstop rfl)
  · split
    · exact .single (.say (by simp [runLevel]))
    · rename_i hi
      obtain ⟨n,hn,hid⟩ := hnode _ hi
      rw [← hid]
      exact .single (.cell hn .cancelNode)
  · rename_i hkind
    split
    · exact .single (.say (by simp [runLevel]))
    · rename_i hi
      obtain ⟨n,hn,hid⟩ := hnode _ hi
      have hreq : req.nodeId = some n.nodeId := by
        cases hr : req.nodeId with
        | none =>
          rw [hr] at hid
          exact absurd hid n.nodeId_ne
        | some i => rw [hr] at hid; rw [hid]; rfl
      rw [← hid]
      exact .single (.cell hn (.retry (htidy n hn) (hR n hn hkind hreq)))

theorem driven_moves {f : WorkNode → Cell → Option (Cell × List Body)}
    (hf : ∀ n ∈ g.nodes, ∀ c bodies, f n (s.cells n.nodeId) = some (c,bodies) → CellStep cfg (R s n) stop s n c bodies)
    (h : s.driven g i f = some t) : ReflTransGen (Move g cfg R stop) s t := by
  simp only [Sys.driven] at h
  split at h
  · cases h
  · obtain ⟨n,hn,h⟩ := Option.bind_eq_some_iff.mp h
    obtain ⟨⟨c,bodies⟩,hc,rfl⟩ := Option.map_eq_some_iff.mp h
    obtain ⟨hmem,rfl⟩ := WorkGraph.node?_some hn
    exact .single (.cell hmem (hf n hmem c bodies hc))

theorem liveStep_moves {a : Live} (htidy : Tidy g s)
    (hR : ∀ req, a = .control req → ∀ n ∈ g.nodes, req.kind = .retryNode → req.nodeId = some n.nodeId →
      (s.cells n.nodeId).retriable cfg → R s n)
    (hstop : t.phase ≠ .idle → t.phase ≠ .polling → stop) (h : s.liveStep g cfg a = some t) : ReflTransGen (Move g cfg R stop) s t := by
  cases a with
  | wake deadline =>
    simp only [liveStep] at h
    split at h
    · cases h
    · cases h
      have hreap : ReflTransGen (Move g cfg R stop) s (sweep Sys.reapOne s g.nodes) :=
        sweep_moves fun t n _ => .inl .reap
      split
      · rename_i hdeadline
        rw [if_pos hdeadline] at hstop
        have hs : stop := hstop (by simp [finish]) (by simp [finish])
        exact (hreap.trans (sweep_moves fun t n _ => .inl (.cancelTask hs))).trans (finish_moves _)
      · exact hreap.tail (.phase _)
  | control req =>
    simp only [liveStep] at h
    split at h
    · cases h
      exact handle_moves (htidy ‹_›) (hR req rfl) fun hp => hstop (by simp [hp]) (by simp [hp])
    · cases h
  | launch =>
    simp only [liveStep] at h
    split at h
    · cases h
      exact launch_moves
    · cases h
  | drive i reply =>
    simp only [liveStep] at h
    split at h
    · cases h
    · exact driven_moves (fun _ _ _ _ hc => .drive hc) h
  | raised i during text =>
    simp only [liveStep] at h
    exact driven_moves (fun _ _ _ _ hc => .raised hc) h
  | cancelled i =>
    simp only [liveStep] at h
    exact driven_moves (fun _ _ _ _ hc => .cancelled hc) h
  | drained =>
    simp only [liveStep] at h
    split at h
    · cases h
      exact finish_moves _
    · cases h
  | merged ref =>
    simp only [liveStep] at h
    split at h
    · cases h
      simp only [Sys.integrated]
      split
      · exact .trans (.single (.say (by simp [runLevel]))) (finish_moves _)
      · split
        · exact .trans (.single (.say (by simp [runLevel]))) (finish_moves _)
        · exact .tail (.single (.say (by simp [runLevel]))) (.phase _)
    · cases h
  | reviewed r =>
    simp only [liveStep] at h
    split at h
    · cases h
      simp only [Sys.reviewed]
      split
      · exact .tail (.single (.say (by simp [runLevel]))) (.phase _)
      · have hreview : ∀ b ∈ List.replicate r.attempts (Body.note .reviewAttempt)
            ++ [.review r.status r.routeId r.blocking], b.runLevel = true := by
          intro b hb
          rcases List.mem_append.mp hb with hb | hb
          · rw [List.eq_of_mem_replicate hb]
            rfl
          · rw [List.mem_singleton.mp hb]
            rfl
        split <;> exact .trans (.tail (.single (.say (by simp [runLevel]))) (.say hreview)) (finish_moves _)
    · cases h

end
end Verdict.Runtime

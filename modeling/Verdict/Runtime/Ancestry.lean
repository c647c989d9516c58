import Verdict.Runtime.Effects
import Verdict.Runtime.Projection
import Verdict.Runtime.Conclusion

/-! # What the integrated commit contains

`_node_base` checks an attempt out at the commits of its dependencies, and `_conclude`
merges the commits of the leaves. Git is a parameter, with the two facts about it that the
runtime relies on. Over the runs of the controller, `Tree` remembers `_base_sha` of a life
and the base that each attempt was checked out at.
-/
namespace Verdict.Runtime
open Driver Controls Run
open Option (map_eq_some_iff none_or)
open Eff (apply unsealing)

/-- `merge head sha` is the head behind `git merge sha` in a worktree at `head`. -/
structure Git where
  Ancestor : String → String → Prop
  refl (sha : String) : Ancestor sha sha
  trans {a b c : String} (hab : Ancestor a b) (hbc : Ancestor b c) : Ancestor a c
  merge : String → String → String
  merge_head (head sha : String) : Ancestor head (merge head sha)
  merge_sha (head sha : String) : Ancestor sha (merge head sha)

/-- Every commit is merged into a worktree at `_base_sha`. -/
def mergeCommits (git : Git) (baseSha : String) (commits : List String) : String := commits.foldl git.merge baseSha

def nonEmpty (commits : List String) : List String := commits.filter fun c => decide (c ≠ "")

def nodeBase (git : Git) (baseSha : String) (s : Sys) (dependsOn : List String) : String :=
  match nonEmpty (dependsOn.map fun d => (s.cells d).run.commit) with
  | [] => baseSha
  | [c] => c
  | deps => mergeCommits git baseSha deps

def consumed (g : WorkGraph) : List String := g.nodes.flatMap WorkNode.dependsOn

def leafCommits (g : WorkGraph) (s : Sys) : List String :=
  nonEmpty ((g.nodes.filter fun n => decide (n.nodeId ∉ consumed g)).map fun n => (s.cells n.nodeId).run.commit)

/-- The `ref` that `_conclude` integrates. -/
def integration (git : Git) (baseSha : String) (g : WorkGraph) (s : Sys) : String :=
  match leafCommits g s with
  | [c] => c
  | leaves => mergeCommits git baseSha leaves

structure Tree where
  sys : Sys
  baseSha : String
  bases : String → String

/-- A step of a life, or a new life that finds `HEAD` at `head`. -/
inductive TreeAct
  | live (a : Live)
  | restart (during : Option (Live × ℕ)) (reports : List Report) (head : String)

namespace Tree
variable (git : Git) (g : WorkGraph) (cfg : Config)

def checkout (w : Tree) : Live → String → String
  | .drive i (.prepared _ _ _), j =>
    if j = i then nodeBase git w.baseSha w.sys (WorkGraph.dependsOf g.nodes i) else w.bases j
  | _, j => w.bases j

def step (w : Tree) : TreeAct → Option Tree
  | .live a => (w.sys.liveStep g cfg a).map fun s => ⟨s,w.baseSha,w.checkout git g a⟩
  | .restart during reports head =>
    (w.sys.step g cfg (.restart during reports)).map fun s => ⟨s,head,fun _ => ""⟩

def start (head : String) : Tree := ⟨Sys.init g,head,fun _ => ""⟩

/-- What git answers: a commit in a worktree has the checked out base behind it, and the
merges are those of `_node_base` and `_conclude`. -/
def Honest (w : Tree) : TreeAct → Prop
  | .live (.drive i (.committed sha)) => git.Ancestor (w.bases i) sha
  | .live (.drive i (.base sha)) => sha = nodeBase git w.baseSha w.sys (WorkGraph.dependsOf g.nodes i)
  | .live (.merged ref) => ref = integration git w.baseSha g w.sys
  | _ => True

end Tree

/-! ### Merges -/

section
variable {git : Git}

theorem mergeCommits_head (baseSha : String) (commits : List String) :
    git.Ancestor baseSha (mergeCommits git baseSha commits) := by
  induction commits generalizing baseSha with
  | nil => exact git.refl baseSha
  | cons c commits ih => exact git.trans (git.merge_head baseSha c) (ih (git.merge baseSha c))

variable {baseSha : String} {commits : List String}

theorem mergeCommits_mem {c : String} (h : c ∈ commits) :
    git.Ancestor c (mergeCommits git baseSha commits) := by
  induction commits generalizing baseSha with
  | nil => cases h
  | cons d commits ih =>
    rcases List.mem_cons.mp h with rfl | h
    · exact git.trans (git.merge_sha baseSha c) (mergeCommits_head _ commits)
    · exact ih h

theorem mem_nonEmpty {c : String} : c ∈ nonEmpty commits ↔ c ∈ commits ∧ c ≠ "" := by
  simp [nonEmpty]

theorem nodeBase_contains {s : Sys} {dependsOn : List String} {d : String} (hd : d ∈ dependsOn)
    (hne : (s.cells d).run.commit ≠ "") :
    git.Ancestor (s.cells d).run.commit (nodeBase git baseSha s dependsOn) := by
  have hmem : (s.cells d).run.commit ∈ nonEmpty (dependsOn.map fun d => (s.cells d).run.commit) :=
    mem_nonEmpty.mpr ⟨List.mem_map_of_mem hd,hne⟩
  simp only [nodeBase]
  split
  · rename_i hnil
    rw [hnil] at hmem
    cases hmem
  · rename_i c hone
    rw [hone] at hmem
    rw [List.mem_singleton.mp hmem]
    exact git.refl c
  · exact mergeCommits_mem hmem

theorem integration_contains {c : String} {g : WorkGraph} {s : Sys} (h : c ∈ leafCommits g s) :
    git.Ancestor c (integration git baseSha g s) := by
  simp only [integration]
  split
  · rename_i c' hone
    rw [hone] at h
    rw [List.mem_singleton.mp h]
    exact git.refl c'
  · exact mergeCommits_mem h

end

/-! ### What a driver does to the commit of its node -/

variable {log : List Body}

theorem priorValidated_ne {commit routeId : String} (h : priorValidated log = some (commit,routeId)) :
    commit ≠ "" := by
  induction log with
  | nil => cases h
  | cons b log ih =>
    simp only [priorValidated] at h
    split at h
    · rename_i found hfound
      cases h
      exact ih hfound
    · split at h
      · split at h
        · cases h
        · cases h
          assumption
      · cases h

theorem Conform.validated_once {n : WorkNode} {maxAttempts : ℕ} {bs : List Body} {found : String × String}
    (h : Conform n maxAttempts (log ++ bs)) (hv : priorValidated log = some found) :
    priorValidated (log ++ bs) = some found := by
  induction bs using List.reverseRecOn with
  | nil => rwa [List.append_nil]
  | append_singleton bs b ih =>
    rw [← List.append_assoc] at h ⊢
    obtain ⟨hlog,hb,_⟩ := conform_append.mp h
    have hfound := ih hlog
    have hdone : (track n (log ++ bs)).done = true := by rw [track_done,hfound]; rfl
    have hnone : priorValidated [b] = none := by
      cases b with
      | nodeState state routeId commit =>
        cases state with
        | validated => exact absurd hdone (by simp [hb.2.1])
        | _ => rfl
      | _ => rfl
    rw [priorValidated_append,hnone,none_or,hfound]

section
variable {cfg : Config} {n : WorkNode} {t t' : Task} {run : NodeRun}
variable {effs : List Eff}

theorem perform_unsealing (h : effs.all unsealing = true) : (perform run effs).run.commit = run.commit ∧
    priorValidated (perform run effs).events = none ∧
    (run.state ≠ .validated → (perform run effs).run.state ≠ .validated) := by
  induction effs generalizing run with
  | nil => exact ⟨rfl,rfl,id⟩
  | cons e es ih =>
    obtain ⟨he,hes⟩ := Bool.and_eq_true_iff.mp (List.all_cons ▸ h)
    cases ha : e.apply run with
    | none =>
      simp only [perform,ha]
      exact ⟨trivial,rfl,id⟩
    | some res =>
      obtain ⟨run',bodies⟩ := res
      obtain ⟨hcommit,hnone,hstate⟩ : (perform run' es).run.commit = run'.commit ∧
          priorValidated (perform run' es).events = none ∧
          (run'.state ≠ .validated → (perform run' es).run.state ≠ .validated) := ih hes
      have hone : run'.commit = run.commit ∧ priorValidated bodies = none ∧
          (run.state ≠ .validated → run'.state ≠ .validated) := by
        cases e with
        | set state sha =>
          obtain ⟨_,rfl,rfl⟩ := apply_set ha
          cases state <;> first | exact ⟨rfl,rfl,fun _ hv => by cases hv⟩ | cases he
        | emit body =>
          cases ha
          cases body <;> first | exact ⟨rfl,rfl,id⟩ | cases he
        | commit => cases he
        | _ =>
          cases ha
          exact ⟨rfl,rfl,id⟩
      simp only [perform,ha]
      refine ⟨hcommit.trans hone.1,?_,fun hs => hstate (hone.2.2 hs)⟩
      rw [priorValidated_append,hnone,hone.2.1,none_or]

def AtBase (P : String → Prop) (base : String) (run : NodeRun) : Pc → Prop
  | .commitPermit | .execute | .checkEpoch | .validate | .verify _ | .gates | .commit => P base
  | .seal => P run.commit
  | .mergeWorktree sha | .mergeVerify sha | .mergeGates sha | .mergeRemove sha none => P sha
  | _ => True

section
variable {P : String → Prop} {base : String} {run' : NodeRun}

theorem prepared_atBase {restored fits : Bool} {origin : Origin} (h : P base) :
    AtBase P base run' (prepared cfg n t run restored fits origin).2.pc := by
  simp only [prepared]
  split
  · trivial
  · split
    · split
      · trivial
      · trivial
      · exact h
    · split
      · trivial
      · exact h

variable {failure : FailureClassification}

theorem executed_atBase {ok usable : Bool} (h : P base) :
    AtBase P base run' (executed cfg t run ok usable failure).2.pc := by
  simp only [executed]
  split
  · trivial
  · split <;> exact h

theorem validated_atBase {files : List String} (h : P base) :
    AtBase P base run' (validated cfg n t run files failure).2.pc := by
  have hverifying : ∀ changed, AtBase P base run' (verifying n t changed).2.pc := by
    intro changed
    simp only [verifying]
    split <;> exact h
  simp only [validated]
  split
  · split
    · trivial
    · exact hverifying _
  · split
    · trivial
    · exact hverifying _

theorem settle_atBase : (settle cfg t run).2.status = .running → AtBase P base run' (settle cfg t run).2.pc := by
  simp only [settle]
  repeat' split
  all_goals first | exact fun _ => trivial | exact fun hs => by cases hs

theorem revoked_atBase {routeId : String} :
    (revoked cfg t routeId).2.status = .running → AtBase P base run' (revoked cfg t routeId).2.pc := by
  simp only [revoked]
  split
  · exact fun hs => by cases hs
  · exact fun _ => trivial

end

variable {reply : Reply}

theorem segment_atBase {P : String → Prop} {base base' : String} {seg : Segment}
    (h : Driver.segment cfg n t run t.pc reply = some seg) (hat : AtBase P base run t.pc)
    (hprepared : ∀ a b c, reply = .prepared a b c → P base')
    (hkept : (∀ a b c, reply ≠ .prepared a b c) → base' = base)
    (hcommitted : ∀ sha, reply = .committed sha → P base → P sha) (hmerged : ∀ sha, reply = .base sha → P sha) :
    seg.2.status = .running → AtBase P base' (perform run seg.1).run seg.2.pc := by
  generalize hpc : t.pc = pc at h hat
  -- the reply of every segment but the checkout leaves the base alone
  have hbase : base' = base ∨ ∃ a b c, reply = .prepared a b c := by
    by_cases hr : ∃ a b c, reply = .prepared a b c
    · exact .inr hr
    · exact .inl (hkept fun a b c he => hr ⟨a,b,c,he⟩)
  unfold Driver.segment at h
  split at h
  all_goals
    repeat' split at h
  all_goals
    cases h
  all_goals first
    | exact fun _ => trivial
    | exact fun hs => by cases hs
    | exact settle_atBase
    | exact revoked_atBase
    | exact fun _ => prepared_atBase (hprepared _ _ _ rfl)
    | exact fun _ => hcommitted _ rfl hat
    | exact fun _ => hmerged _ rfl
    | exact fun _ => executed_atBase (hbase.resolve_right (by simp) ▸ hat)
    | exact fun _ => validated_atBase (hbase.resolve_right (by simp) ▸ hat)
    | exact fun _ => by rw [hbase.resolve_right (by simp)]; exact hat
    | exact fun _ => by simp only [hpc]; rw [hbase.resolve_right (by simp)]; exact hat
    | skip
  rename_i failed gone
  cases failed <;> exact fun hs => by cases hs

theorem script_atBase {P : String → Prop} {base base' : String}
    (h : script cfg n t run reply = some (effs,t')) (hat : AtBase P base run t.pc)
    (hprepared : ∀ a b c, reply = .prepared a b c → P base')
    (hkept : (∀ a b c, reply ≠ .prepared a b c) → base' = base)
    (hcommitted : ∀ sha, reply = .committed sha → P base → P sha) (hmerged : ∀ sha, reply = .base sha → P sha) :
    t'.status = .running → AtBase P base' (perform run effs).run t'.pc := by
  simp only [script,map_eq_some_iff] at h
  obtain ⟨seg,hseg,hres⟩ := h
  split at hres
  · cases hres
    simp only [loopHead]
    split
    · exact fun hs => by cases hs
    · exact fun _ => trivial
  · cases hres
    exact segment_atBase hseg hat hprepared hkept hcommitted hmerged

theorem unsealing_script (hpc : t.pc.sealing = false)
    (h : script cfg n t run reply = some (effs,t')) : effs.all unsealing = true := by
  simp only [script,map_eq_some_iff] at h
  obtain ⟨seg,hseg,hres⟩ := h
  have hun := all_unsealing_of_ordinary (ordinary_segment hpc hseg)
  split at hres
  · cases hres
    rw [List.all_append,hun,all_unsealing_of_ordinary ordinary_loopHead]
    rfl
  · cases hres
    exact hun

/-- A driver about to seal its node has a commit for it, and the node is still to be validated. -/
structure Poised (run : NodeRun) (pc : Pc) : Prop where
  opened : pc.sealing = true → run.state ≠ .validated
  commit : pc = .seal → run.commit ≠ ""
  base : ∀ b, pc = .mergeRemove b none → b ≠ ""

variable {pc : Pc}

theorem At.poised {S : String → Prop} {maxAttempts : ℕ} {tr : Track} (h : At S n maxAttempts run tr pc) :
    Poised run pc := by
  have hsucceeded : Succeeded run tr → run.state ≠ .validated := by
    intro hs
    rw [hs.1]
    decide
  refine ⟨fun hpc => ?_,fun hpc => ?_,fun b hpc => ?_⟩
  · cases pc with
    | commit | «seal» => exact hsucceeded h.2.1
    | mergeRemove b failed =>
      cases failed with
      | none => exact hsucceeded h.2.1
      | some reason => exact hsucceeded h.2
    | _ => cases hpc
  · subst hpc
    exact h.2.2.2.2
  · subst hpc
    exact h.2.2.1

theorem script_seals {P : String → Prop} {base : String} (k : ℕ)
    (h : script cfg n t run reply = some (effs,t')) (hpoised : Poised run t.pc) (hbase : AtBase P base run t.pc) :
    (run.state = .validated → (perform run (effs.take k)).run.commit = run.commit ∧
      priorValidated (perform run (effs.take k)).events = none) ∧
    (run.state ≠ .validated → (perform run (effs.take k)).run.state = .validated →
      P (perform run (effs.take k)).run.commit ∧
        ∃ r, priorValidated (perform run (effs.take k)).events = some ((perform run (effs.take k)).run.commit,r)) := by
  have htake : effs.all unsealing = true → (effs.take k).all unsealing = true := fun hun =>
    List.all_eq_true.mpr fun e he => List.all_eq_true.mp hun e (List.mem_of_mem_take he)
  cases hpc : t.pc.sealing with
  | false =>
    obtain ⟨hcommit,hnone,hstate⟩ := perform_unsealing (htake (unsealing_script hpc h))
    exact ⟨fun _ => ⟨hcommit,hnone⟩,fun hs hv => absurd hv (hstate hs)⟩
  | true =>
    have hne := hpoised.opened hpc
    refine ⟨fun hv => absurd hv hne,fun _ => ?_⟩
    simp only [script,map_eq_some_iff] at h
    obtain ⟨seg,hseg,hres⟩ := h
    generalize t.pc = pc at hpc hpoised hbase hseg
    cases pc with
    | commit =>
      cases reply with
      | committed sha =>
        simp only [Driver.segment] at hseg
        split at hseg
        · cases hseg
        · cases hseg
          cases hres
          rcases k with _ | k <;> simp [perform,apply,hne]
      | _ => simp [Driver.segment] at hseg
    | «seal» =>
      cases reply with
      | removed gone =>
        simp only [Driver.segment] at hseg
        cases hseg
        have heffs : effs = [.record ⟨run.attempt,run.routeId,.validated⟩,.set .validated run.commit] := by
          rw [if_neg (by cases gone <;> simp [ret,goto])] at hres
          cases hres
          rfl
        subst heffs
        have hcommit := hpoised.commit rfl
        rcases k with _ | _ | k
        · simp [perform,hne]
        · simp [perform,apply,hne]
        · simp only [List.take_succ_cons,List.take_nil,perform,apply]
          cases checkTransition run.state .validated with
          | error e => exact fun hv => absurd hv hne
          | ok => exact fun _ => ⟨hbase,run.routeId,by simp [priorValidated,hcommit]⟩
      | _ => simp [Driver.segment] at hseg
    | mergeRemove b failed =>
      cases reply with
      | removed gone =>
        simp only [Driver.segment] at hseg
        cases hseg
        cases failed with
        | none =>
          have heffs : effs = [.commit b,.record ⟨run.attempt,"",.validated⟩,.set .validated b] := by
            rw [if_neg (by simp [mergeRemoved,ret])] at hres
            cases hres
            rfl
          subst heffs
          have hb := hpoised.base b rfl
          rcases k with _ | _ | _ | k
          · simp [perform,hne]
          · simp [perform,apply,hne]
          · simp [perform,apply,hne]
          · simp only [List.take_succ_cons,List.take_nil,perform,apply]
            cases checkTransition run.state .validated with
            | error e => exact fun hv => absurd hv hne
            | ok => exact fun _ => ⟨hbase,run.routeId,by simp [priorValidated,hb]⟩
        | some reason =>
          have hun : effs.all unsealing = true := by
            rw [if_neg (by simp [mergeRemoved,ret])] at hres
            cases hres
            simp [mergeRemoved,unsealing_recordFailure,unsealing]
          exact fun hv => absurd hv ((perform_unsealing (htake hun)).2.2 hne)
      | _ => simp [Driver.segment] at hseg
    | _ => cases hpc

theorem AtBase.rebase {P : String → Prop} {base base' : String} {run run' : NodeRun}
    (h : AtBase P base run pc) (hbase : base' = base ∨ P base') (hcommit : run'.commit = run.commit) :
    AtBase P base' run' pc := by
  rcases hbase with rfl | hbase
  · cases pc with
    | «seal» =>
      simp only [AtBase,hcommit] at h ⊢
      exact h
    | mergeRemove sha failed => cases failed <;> exact h
    | _ => exact h
  · cases pc with
    | «seal» =>
      simp only [AtBase,hcommit] at h ⊢
      exact h
    | mergeRemove sha failed => cases failed <;> exact h
    | commitPermit | execute | checkEpoch | validate | verify | gates | commit => exact hbase
    | _ => exact h

end

/-! ### One step of a node -/

section
variable {cfg : Config} {n : WorkNode} {a : Live} {c c' : Cell} {bodies : List Body} {P : String → Prop} {base base' : String}

def Based (P : String → Prop) (base : String) (c : Cell) : Prop :=
  ∀ t, c.task = some t → t.status = .running → AtBase P base c.run t.pc

structure Answers (P : String → Prop) (base base' : String) (reply : Reply) : Prop where
  checkedOut : ∀ x y z, reply = .prepared x y z → P base'
  kept : (∀ x y z, reply ≠ .prepared x y z) → base' = base
  committed : ∀ sha, reply = .committed sha → P base → P sha
  merged : ∀ sha, reply = .base sha → P sha

theorem Touch.based (h : Touch cfg n c a c' bodies) (hbased : Based P base c) (hbase : base' = base ∨ P base')
    (hanswers : ∀ reply, a = .drive n.nodeId reply → Answers P base base' reply) : Based P base' c' := by
  -- a cell whose driver stands still keeps its place
  have hsame : ∀ d : Cell, d.run.commit = c.run.commit →
      (∀ u, d.task = some u → ∃ t, c.task = some t ∧ u.pc = t.pc ∧ u.status = t.status) → Based P base' d := by
    intro d hcommit htask u hu hrunning
    obtain ⟨t,ht,hpc,hstatus⟩ := htask u hu
    rw [hpc]
    exact (hbased t ht (hstatus ▸ hrunning)).rebase hbase hcommit
  have hcancel : ∀ d : Cell, (∀ u, d.task = some u → ∃ t, c.task = some t ∧ u.pc = t.pc ∧ u.status = t.status) →
      ∀ u, d.cancelTask.task = some u → ∃ t, c.task = some t ∧ u.pc = t.pc ∧ u.status = t.status := by
    intro d hd u hu
    obtain ⟨u',hu',rfl⟩ := map_eq_some_iff.mp hu
    exact hd u' hu'
  have hself : ∀ u, c.task = some u → ∃ t, c.task = some t ∧ u.pc = t.pc ∧ u.status = t.status :=
    fun u hu => ⟨u,hu,rfl,rfl⟩
  have hreap : c.reap.1.run.commit = c.run.commit ∧
      ∀ u, c.reap.1.task = some u → ∃ t, c.task = some t ∧ u.pc = t.pc ∧ u.status = t.status := by
    simp only [Cell.reap]
    split
    · exact ⟨rfl,hself⟩
    · split
      · exact ⟨rfl,hself⟩
      all_goals exact ⟨rfl,fun u hu => by cases hu⟩
  cases h with
  | kept => exact hsame c rfl hself
  | reaped => exact hsame _ hreap.1 hreap.2
  | abandoned => exact hsame _ hreap.1 (hcancel _ hreap.2)
  | cancelRun =>
    simp only [Cell.cancelRun,Cell.block]
    split
    · exact hsame _ rfl (hcancel c hself)
    all_goals exact hsame _ rfl (hcancel c hself)
  | cancelNode =>
    simp only [Cell.cancelNode,Cell.block]
    split
    · exact hsame _ rfl (hcancel c hself)
    · exact hsame _ rfl (hcancel c hself)
    · exact hsame _ rfl (hcancel c hself)
    · exact hsame _ rfl (hcancel c hself)
    · exact hsame c rfl hself
  | retryNode =>
    simp only [Cell.retryNode]
    split
    · exact hsame _ rfl hself
    · exact hsame c rfl hself
  | blocked => exact hsame _ rfl hself
  | spawned =>
    intro u hu _
    cases hu
    trivial
  | drive h =>
    rename_i reply
    have hans := hanswers reply rfl
    simp only [Cell.drive] at h
    split at h
    · cases h
    · rename_i t ht
      split at h
      · cases h
      · rename_i hstatus
        obtain ⟨⟨effs,t'⟩,hscript,hres⟩ := map_eq_some_iff.mp h
        cases hres
        intro u hu hrunning
        cases hu
        split at hrunning
        · rename_i hok
          rw [if_pos hok]
          exact script_atBase hscript (hbased t ht (not_not.mp hstatus)) hans.checkedOut hans.kept hans.committed
            hans.merged hrunning
        · cases hrunning
  | raised h =>
    obtain ⟨_,_,_,_,_,ht'⟩ := raised_cases h
    intro u hu hrunning
    rw [ht'] at hu
    cases hu
    cases hrunning
  | cancelled h =>
    obtain ⟨_,_,_,_,_,_,ht'⟩ := cancelled_cases h
    intro u hu hrunning
    rw [ht'] at hu
    cases hu
    cases hrunning

def Seals (P : String → Prop) (c c' : Cell) (bodies : List Body) : Prop :=
  (c.run.state = .validated → c'.run.state = .validated ∧ c'.run.commit = c.run.commit ∧
    priorValidated bodies = none) ∧
  (c.run.state ≠ .validated → c'.run.state = .validated → P c'.run.commit ∧
    ∃ r, priorValidated bodies = some (c'.run.commit,r))

theorem NodeInv.poised {S : String → Prop} {log : List Body} (h : NodeInv S cfg n c log) {t : Task} (ht : c.task = some t)
    (hrunning : t.status = .running) : Poised c.run t.pc := by
  have hat := h.task t ht
  simp only [TaskInv,hrunning] at hat
  exact hat.poised

theorem Touch.seals (h : Touch cfg n c a c' bodies)
    (hpoised : ∀ t, c.task = some t → t.status = .running → Poised c.run t.pc) (hbased : Based P base c) :
    Seals P c c' bodies := by
  unfold Seals
  have hreap : (c.run.state = .validated → c.reap.1.run.state = .validated) ∧
      (c.run.state ≠ .validated → c.reap.1.run.state ≠ .validated) ∧ c.reap.1.run.commit = c.run.commit ∧
      priorValidated c.reap.2 = none := by
    simp only [Cell.reap]
    repeat' split
    all_goals simp_all [priorValidated]
  cases h with
  | kept => exact ⟨fun hv => ⟨hv,rfl,rfl⟩,fun hs hv => absurd hv hs⟩
  | reaped | abandoned =>
    exact ⟨fun hv => ⟨hreap.1 hv,hreap.2.2.1,hreap.2.2.2⟩,fun hs hv => absurd hv (hreap.2.1 hs)⟩
  | cancelRun =>
    simp only [Cell.cancelRun,Cell.block,Cell.cancelTask]
    cases hs : c.run.state <;> simp [priorValidated,hs]
  | cancelNode =>
    simp only [Cell.cancelNode,Cell.block,Cell.cancelTask]
    cases hs : c.run.state <;> simp [priorValidated,hs]
  | retryNode =>
    simp only [Cell.retryNode]
    split
    · rename_i hretry
      rcases hretry.1 with hs | hs <;> simp [hs]
    · exact ⟨fun hv => ⟨hv,rfl,rfl⟩,fun hs hv => absurd hv hs⟩
  | blocked hplanned =>
    simp only [Cell.block]
    simp [hplanned]
  | spawned => exact ⟨fun hv => ⟨hv,rfl,rfl⟩,fun hs hv => absurd hv hs⟩
  | drive h =>
    simp only [Cell.drive] at h
    split at h
    · cases h
    · rename_i t ht
      split at h
      · cases h
      · rename_i hstatus
        obtain ⟨⟨effs,t'⟩,hscript,hres⟩ := map_eq_some_iff.mp h
        cases hres
        have hrunning := not_not.mp hstatus
        have hseals := script_seals effs.length hscript (hpoised t ht hrunning) (hbased t ht hrunning)
        rw [List.take_length] at hseals
        refine ⟨fun hv => ⟨?_,hseals.1 hv⟩,hseals.2⟩
        exact (perform_final effs (by rw [hv]; rfl)).trans hv
  | raised h =>
    simp only [Cell.raised] at h
    split at h
    · cases h
    · rename_i t ht
      split at h
      · cases h
      · rename_i hstatus
        split at h
        · cases h
          exact ⟨fun hv => ⟨hv,rfl,rfl⟩,fun hs hv => absurd hv hs⟩
        · rename_i reply k
          obtain ⟨⟨effs,t'⟩,hscript,hres⟩ := map_eq_some_iff.mp h
          cases hres
          have hrunning := not_not.mp hstatus
          have hseals := script_seals k hscript (hpoised t ht hrunning) (hbased t ht hrunning)
          refine ⟨fun hv => ⟨?_,hseals.1 hv⟩,hseals.2⟩
          exact (perform_final _ (by rw [hv]; rfl)).trans hv
  | cancelled h =>
    obtain ⟨_,_,_,_,hrun,rfl,_⟩ := cancelled_cases h
    rw [hrun]
    exact ⟨fun hv => ⟨hv,rfl,rfl⟩,fun hs hv => absurd hv hs⟩

end
/-! ### Whole runs -/

/-- The commit contains those of the dependencies of the node, and they are validated. -/
def Carries (git : Git) (s : Sys) (n : WorkNode) (sha : String) : Prop :=
  ∀ d ∈ n.dependsOn, (s.cells d).run.state = .validated ∧ git.Ancestor (s.cells d).run.commit sha

structure Rooted (git : Git) (g : WorkGraph) (s : Sys) : Prop where
  sealed : ∀ n ∈ g.nodes, (s.cells n.nodeId).run.state = .validated →
    ∃ r, priorValidated (nodeLog n.nodeId s.log) = some ((s.cells n.nodeId).run.commit,r)
  carried : ∀ n ∈ g.nodes, (s.cells n.nodeId).run.state = .validated → Carries git s n (s.cells n.nodeId).run.commit

structure TreeInv (git : Git) (g : WorkGraph) (cfg : Config) (w : Tree) : Prop where
  reach : Reaches (Sys.step g cfg) (Sys.init g) w.sys
  rooted : Rooted git g w.sys
  based : ∀ n ∈ g.nodes, Based (Carries git w.sys n) (w.bases n.nodeId) (w.sys.cells n.nodeId)

section
variable {git : Git} {g : WorkGraph} {cfg : Config} {w v : Tree} {s t : Sys} {n : WorkNode}

theorem Carries.ancestor {a b : String} (h : Carries git s n a) (hab : git.Ancestor a b) : Carries git s n b :=
  fun d hd => ⟨(h d hd).1,git.trans (h d hd).2 hab⟩

theorem Rooted.nodeBase (h : Rooted git g s) (hn : n ∈ g.nodes)
    (hdeps : ∀ d ∈ n.dependsOn, (s.cells d).run.state = .validated) (baseSha : String) :
    Carries git s n (nodeBase git baseSha s (WorkGraph.dependsOf g.nodes n.nodeId)) := by
  intro d hd
  obtain ⟨k,hk,rfl⟩ := List.mem_map.mp (g.known n hn d hd)
  obtain ⟨r,hr⟩ := h.sealed k hk (hdeps _ hd)
  rw [g.dependsOf_of_mem hn]
  exact ⟨hdeps _ hd,nodeBase_contains hd (priorValidated_ne hr)⟩

theorem TreeInv.step_rooted {a : Live} (h : TreeInv git g cfg w) (hstep : w.sys.liveStep g cfg a = some t) :
    Rooted git g t ∧ ∀ n ∈ g.nodes, ∀ sha, Carries git w.sys n sha → Carries git t n sha := by
  obtain ⟨as,has⟩ := h.reach
  have hnodes := (reachable_barrier has).1.nodes
  have hseals : ∀ n ∈ g.nodes, ∃ bodies, nodeLog n.nodeId t.log = nodeLog n.nodeId w.sys.log ++ bodies ∧
      Seals (Carries git w.sys n) (w.sys.cells n.nodeId) (t.cells n.nodeId) bodies := by
    intro n hn
    obtain ⟨bodies,hlog,htouch⟩ := liveStep_touch hstep hn
    exact ⟨bodies,hlog,htouch.seals (fun _ => (hnodes n hn).poised) (h.based n hn)⟩
  -- a validated dependency keeps its commit
  have hmono : ∀ n ∈ g.nodes, ∀ sha, Carries git w.sys n sha → Carries git t n sha := by
    intro n hn sha hsha d hd
    obtain ⟨k,hk,rfl⟩ := List.mem_map.mp (g.known n hn d hd)
    obtain ⟨hv,hanc⟩ := hsha _ hd
    obtain ⟨_,_,hkeep,_⟩ := hseals k hk
    obtain ⟨hv',hcommit,_⟩ := hkeep hv
    rw [hcommit]
    exact ⟨hv',hanc⟩
  refine ⟨⟨fun n hn hv => ?_,fun n hn hv => ?_⟩,hmono⟩
  · obtain ⟨bodies,hlog,hkeep,hseal⟩ := hseals n hn
    rw [hlog,priorValidated_append]
    by_cases hold : (w.sys.cells n.nodeId).run.state = .validated
    · obtain ⟨_,hcommit,hnone⟩ := hkeep hold
      obtain ⟨r,hr⟩ := h.rooted.sealed n hn hold
      exact ⟨r,by rw [hnone,none_or,hr,hcommit]⟩
    · obtain ⟨_,r,hr⟩ := hseal hold hv
      exact ⟨r,by rw [hr,Option.some_or]⟩
  · obtain ⟨_,_,hkeep,hseal⟩ := hseals n hn
    by_cases hold : (w.sys.cells n.nodeId).run.state = .validated
    · rw [(hkeep hold).2.1]
      exact hmono n hn _ (h.rooted.carried n hn hold)
    · exact hmono n hn _ (hseal hold hv).1

theorem AtBase.mono {P Q : String → Prop} {base : String} {run : NodeRun} {pc : Pc} (h : AtBase P base run pc)
    (hPQ : ∀ sha, P sha → Q sha) : AtBase Q base run pc := by
  cases pc with
  | commitPermit | execute | checkEpoch | validate | verify | gates | commit | «seal» => exact hPQ _ h
  | mergeWorktree | mergeVerify | mergeGates => exact hPQ _ h
  | mergeRemove sha failed =>
    cases failed with
    | none => exact hPQ _ h
    | some => trivial
  | _ => trivial

theorem liveStep_drive_task {reply : Reply} (h : s.liveStep g cfg (.drive n.nodeId reply) = some t) :
    (s.cells n.nodeId).task ≠ none := by
  simp only [Sys.liveStep,Sys.driven] at h
  split at h
  · cases h
  · split at h
    · cases h
    · obtain ⟨m,_,h⟩ := Option.bind_eq_some_iff.mp h
      obtain ⟨⟨c,bodies⟩,hc,_⟩ := map_eq_some_iff.mp h
      obtain ⟨task,_,htask,_⟩ := drive_cases hc
      simp [htask]

theorem checkout_of_ne {a : Live} {i : String} (h : ∀ reply, a ≠ .drive i reply) : w.checkout git g a i = w.bases i := by
  cases a with
  | drive j reply =>
    cases reply with
    | prepared x y z =>
      simp only [Tree.checkout]
      rw [if_neg fun he => h (.prepared x y z) (by rw [he])]
    | _ => rfl
  | _ => rfl

theorem TreeInv.step_based {a : Live} (h : TreeInv git g cfg w) (hok : w.Honest git g (.live a))
    (hstep : w.sys.liveStep g cfg a = some t) :
    ∀ n ∈ g.nodes, Based (Carries git t n) (w.checkout git g a n.nodeId) (t.cells n.nodeId) := by
  intro n hn
  obtain ⟨as,has⟩ := h.reach
  obtain ⟨bodies,_,htouch⟩ := liveStep_touch hstep hn
  have hmono := (h.step_rooted hstep).2 n hn
  intro u hu hrunning
  refine AtBase.mono ?_ hmono
  revert u
  show Based _ _ _
  by_cases hdrive : ∃ reply, a = .drive n.nodeId reply
  · obtain ⟨reply,rfl⟩ := hdrive
    have hdeps := (reachable_barrier has).1.held n hn (.inl (liveStep_drive_task hstep))
    have hroot := h.rooted.nodeBase hn hdeps w.baseSha
    have hcheckout : ∀ x y z, reply = .prepared x y z →
        Carries git w.sys n (w.checkout git g (.drive n.nodeId reply) n.nodeId) := by
      rintro x y z rfl
      simp only [Tree.checkout,if_true]
      exact hroot
    have hkept : (∀ x y z, reply ≠ .prepared x y z) →
        w.checkout git g (.drive n.nodeId reply) n.nodeId = w.bases n.nodeId := by
      intro hne
      cases reply with
      | prepared x y z => exact absurd rfl (hne x y z)
      | _ => rfl
    refine htouch.based (h.based n hn) ?_ ?_
    · by_cases hprep : ∃ x y z, reply = .prepared x y z
      · obtain ⟨x,y,z,hr⟩ := hprep
        exact .inr (hcheckout x y z hr)
      · exact .inl (hkept fun x y z hr => hprep ⟨x,y,z,hr⟩)
    · rintro reply' ⟨⟩
      refine ⟨hcheckout,hkept,?_,?_⟩
      · rintro sha rfl hbase
        exact hbase.ancestor hok
      · rintro sha rfl
        rw [hok]
        exact hroot
  · have hne : ∀ reply, a ≠ .drive n.nodeId reply := fun reply hr => hdrive ⟨reply,hr⟩
    rw [checkout_of_ne hne]
    exact htouch.based (h.based n hn) (.inl rfl) fun reply hr => absurd hr (hne reply)

theorem Rooted.boot {cut : List Event} (h : Rooted git g s) (hbarrier : BarrierInv g cfg s) (hcut : cut <+: s.log)
    (reports : List Report) : Rooted git g (Sys.boot g (cut ++ reports.map Report.event)) := by
  -- what the cut log says of a node is what the state before it says
  have hcell : ∀ n ∈ g.nodes, ∀ commit routeId, priorValidated (nodeLog n.nodeId cut) = some (commit,routeId) →
      (s.cells n.nodeId).run.state = .validated ∧ (s.cells n.nodeId).run.commit = commit ∧
      (Sys.boot g (cut ++ reports.map Report.event)).cells n.nodeId
        = {run := {state := .validated, commit := commit, routeId := routeId}} := by
    intro n hn commit routeId hv
    obtain ⟨rest,hrest⟩ := nodeLog_mono n.nodeId hcut
    have hconf := (hbarrier.nodes n hn).conform
    rw [← hrest] at hconf
    have hlog := hconf.validated_once hv
    rw [hrest] at hlog
    have hstate : (s.cells n.nodeId).run.state = .validated := by
      rw [hbarrier.nodes.validated_iff hn,hlog]
      simp
    obtain ⟨r,hr⟩ := h.sealed n hn hstate
    cases hr.symm.trans hlog
    refine ⟨hstate,rfl,?_⟩
    simp only [Sys.boot,nodeLog_reports n.nodeId_ne,Cell.boot,hv]
  have hboot : ∀ n ∈ g.nodes, ((Sys.boot g (cut ++ reports.map Report.event)).cells n.nodeId).run.state = .validated →
      ∃ commit routeId, priorValidated (nodeLog n.nodeId cut) = some (commit,routeId) := by
    intro n hn hv
    have hne := boot_validated.mp hv
    rw [nodeLog_reports n.nodeId_ne] at hne
    obtain ⟨⟨commit,routeId⟩,hfound⟩ := Option.ne_none_iff_exists'.mp hne
    exact ⟨commit,routeId,hfound⟩
  constructor
  · intro n hn hv
    obtain ⟨commit,routeId,hfound⟩ := hboot n hn hv
    obtain ⟨notes,hlog,hnotes⟩ := nodeLog_boot_cut (g := g) n.nodeId_ne (cut ++ reports.map Report.event)
    have hnone : priorValidated notes = none := by
      clear hlog
      induction notes with
      | nil => rfl
      | cons b notes ih =>
        obtain ⟨type,rfl⟩ := hnotes b List.mem_cons_self
        simp only [priorValidated,ih fun b hb => hnotes b (List.mem_cons_of_mem _ hb)]
    refine ⟨routeId,?_⟩
    rw [hlog,priorValidated_append,hnone,none_or,nodeLog_reports n.nodeId_ne,hfound,
      (hcell n hn commit routeId hfound).2.2]
  · intro n hn hv d hd
    obtain ⟨commit,routeId,hfound⟩ := hboot n hn hv
    obtain ⟨hstate,hcommit,hrestored⟩ := hcell n hn commit routeId hfound
    have hdep : priorValidated (nodeLog d cut) ≠ none :=
      hbarrier.grounded cut hcut n hn (by rw [hfound]; simp) d hd
    obtain ⟨⟨commit',routeId'⟩,hfound'⟩ := Option.ne_none_iff_exists'.mp hdep
    have hanc := (h.carried n hn hstate d hd).2
    obtain ⟨k,hk,rfl⟩ := List.mem_map.mp (g.known n hn d hd)
    obtain ⟨_,hcommit',hrestored'⟩ := hcell k hk commit' routeId' hfound'
    rw [hrestored,hrestored']
    rw [hcommit,hcommit'] at hanc
    exact ⟨rfl,hanc⟩

theorem start_inv (head : String) : TreeInv git g cfg (Tree.start g head) := by
  refine ⟨⟨[],rfl⟩,⟨?_,?_⟩,?_⟩
  · intro n _ hv
    simp [Tree.start,Sys.init,Sys.boot,Cell.boot,nodeLog,priorValidated] at hv
  · intro n _ hv
    simp [Tree.start,Sys.init,Sys.boot,Cell.boot,nodeLog,priorValidated] at hv
  · intro n _ u hu
    simp [Tree.start,Sys.init,Sys.boot,Cell.boot,nodeLog,priorValidated] at hu

theorem step_treeInv {a : TreeAct} (h : TreeInv git g cfg w) (hok : w.Honest git g a)
    (hstep : w.step git g cfg a = some v) : TreeInv git g cfg v := by
  cases a with
  | live a =>
    obtain ⟨s,hs,rfl⟩ := map_eq_some_iff.mp hstep
    exact ⟨h.reach.tail (a := .live a) hs,(h.step_rooted hs).1,h.step_based hok hs⟩
  | restart during reports head =>
    obtain ⟨s,hs,rfl⟩ := map_eq_some_iff.mp hstep
    obtain ⟨as,has⟩ := h.reach
    have hreach := h.reach.tail hs
    obtain ⟨cut,hcut,rfl⟩ := step_restart hs
    obtain ⟨u,hu,hpre⟩ := cutLog_le hcut
    refine ⟨hreach,?_,?_⟩
    · obtain ⟨hbarrier,htidy⟩ := reachable_barrier has
      rcases hu with rfl | ⟨a,ha⟩
      · exact h.rooted.boot hbarrier hpre reports
      · exact (h.step_rooted ha).1.boot (liveStep_barrier hbarrier htidy ha) hpre reports
    · intro n _ u hu
      simp only [Sys.boot,Cell.boot] at hu
      split at hu <;> cases hu

theorem Rooted.leaf (h : Rooted git g s) (hall : s.settledAll g) :
    ∀ i ∈ g.ids, ∃ c ∈ leafCommits g s, git.Ancestor (s.cells i).run.commit c := by
  refine g.induction_dependents fun i hi ih => ?_
  obtain ⟨n,hn,rfl⟩ := List.mem_map.mp hi
  by_cases hleaf : n.nodeId ∈ consumed g
  · obtain ⟨m,hm,hd⟩ := List.mem_flatMap.mp hleaf
    have hdep : g.DependsOn m.nodeId n.nodeId := by
      rw [WorkGraph.DependsOn,g.dependsOf_of_mem hm]
      exact hd
    obtain ⟨c,hc,hanc⟩ := ih m.nodeId (List.mem_map_of_mem hm) hdep
    exact ⟨c,hc,git.trans (h.carried m hm (hall m hm) _ hd).2 hanc⟩
  · obtain ⟨r,hr⟩ := h.sealed n hn (hall n hn)
    refine ⟨_,?_,git.refl _⟩
    refine mem_nonEmpty.mpr ⟨?_,priorValidated_ne hr⟩
    exact List.mem_map_of_mem (List.mem_filter.mpr ⟨hn,decide_eq_true hleaf⟩)

/-- Every run that is integrated, over any number of lives: the integrated commit has the
commit of every node of the graph behind it. -/
theorem integration_contains_every_commit {head ref : String} {as : List TreeAct}
    (hok : AllSteps (Tree.step git g cfg) (Tree.Honest git g) (Tree.start g head) (as ++ [.live (.merged ref)]))
    (h : exec (Tree.step git g cfg) (Tree.start g head) (as ++ [.live (.merged ref)]) = some v) :
    ∀ n ∈ g.nodes, (v.sys.cells n.nodeId).run.commit ≠ "" ∧ git.Ancestor (v.sys.cells n.nodeId).run.commit ref := by
  obtain ⟨w,hw,hlast⟩ := Option.bind_eq_some_iff.mp ((exec_append _ _ _).symm.trans h)
  have hinv := exec_invariant_of (I := TreeInv git g cfg) (fun _ _ _ => step_treeInv) hok.take hw (start_inv head)
  have href : ref = integration git w.baseSha g w.sys := (hok.drop hw).1
  obtain ⟨v',hv',hnil⟩ := exec_cons hlast
  cases hnil
  obtain ⟨s,hs,rfl⟩ := map_eq_some_iff.mp hv'
  simp only [Sys.liveStep] at hs
  split at hs
  · rename_i hphase
    cases hs
    obtain ⟨bs,hbs⟩ := hinv.reach
    have hquiet := reachable_concluded hbs
    simp only [Concluded,hphase] at hquiet
    have hcells : (w.sys.integrated g cfg ref).cells = w.sys.cells := by
      simp only [Sys.integrated]
      repeat' split
      all_goals rfl
    intro n hn
    rw [hcells,href]
    obtain ⟨r,hr⟩ := hinv.rooted.sealed n hn (hquiet.validated n hn)
    obtain ⟨c,hc,hanc⟩ := hinv.rooted.leaf hquiet.validated n.nodeId (List.mem_map_of_mem hn)
    exact ⟨priorValidated_ne hr,git.trans hanc (integration_contains hc)⟩
  · cases hs

end

instance (git : Git) [∀ a b,Decidable (git.Ancestor a b)] (g : WorkGraph) (w : Tree) (a : TreeAct) :
    Decidable (w.Honest git g a) := by
  unfold Tree.Honest
  split <;> infer_instance

def namedGit : Git where
  Ancestor a b := a.toList <:+: b.toList
  refl _ := List.infix_rfl
  trans := List.IsInfix.trans
  merge head sha := head ++ "+" ++ sha
  merge_head head sha := ⟨[],("+" ++ sha).toList,by simp⟩
  merge_sha head sha := ⟨(head ++ "+").toList,[],by simp⟩

instance (a b : String) : Decidable (namedGit.Ancestor a b) := inferInstanceAs (Decidable (_ <:+: _))

def sealBeta (sha : String) : List Live :=
  [.launch,.drive "beta" .started,.drive "beta" (.route "kimi" false),.drive "beta" (.slot false),
    .drive "beta" (.prepared false true .matched),
    .drive "beta" (.executed true true ⟨.other "unknown",.reroute,0,.none⟩),
    .drive "beta" (.changed ["b.py"] ⟨.other "unknown",.reroute,0,.none⟩),
    .drive "beta" (.ran true ⟨.other "unknown",.reroute,0,.none⟩ ""),
    .drive "beta" (.gated true ⟨.other "unknown",.reroute,0,.none⟩ ""),
    .drive "beta" (.committed sha),.drive "beta" (.removed true),.wake false,.launch]

/-- `alpha` is sealed in one life and restored in the next, which seals `beta` on top. -/
def twoLives : List TreeAct :=
  (sendAlpha "glm" ++ sealAlpha "r0.a").map (fun a => match a with
    | .live a => .live a
    | .restart during reports => .restart during reports "r0") ++
  [.restart none [] "r1"] ++ (sealBeta "r0.a.b").map TreeAct.live

theorem integration_contains_every_commit_twoLives : ∃ v, exec (Tree.step namedGit chainGraph {})
    (Tree.start chainGraph "r0") (twoLives ++ [.live (.merged "r0.a.b")]) = some v ∧
    (v.sys.cells "alpha").run.commit = "r0.a" ∧ namedGit.Ancestor (v.sys.cells "alpha").run.commit "r0.a.b"
    := by
  obtain ⟨v,hv,hcommit⟩ : ∃ v ∈ exec (Tree.step namedGit chainGraph {}) (Tree.start chainGraph "r0")
      (twoLives ++ [.live (.merged "r0.a.b")]), (v.sys.cells "alpha").run.commit = "r0.a" := by decide +kernel
  exact ⟨v,hv,hcommit,(integration_contains_every_commit (by decide +kernel) hv alpha (by decide)).2⟩

end Verdict.Runtime

import Verdict.Eligibility.Cooldowns

/-! # Ladders that share one state file

Every `_persist` replaces the file by the whole memory of one ladder, which may have been loaded
before another ladder wrote; only `dispatch_blocker` merges the file back. A ghost list holds each
pool and provider deadline that a persist has put on the file. It is kept for all ladders as long
as no persist lowers an entry of the file that still runs.
-/
namespace Verdict.Eligibility
open HealthCache (Time Sections seconds)
open Admission (startsWith)

def scopedKey (key : String) : Bool := startsWith key "pool:" || startsWith key "provider:"

theorem scopedKey_routeKey (routeId : String) : scopedKey (routeKey routeId) = false := by
  simp [scopedKey,startsWith,routeKey,String.toList_append,List.isPrefixOf]

/-- `select` changes the state by the `_record_health` calls of its probes alone. -/
inductive Act (ρ : Type)
  | load (i : ℕ) (now : Time)
  | report (i : ℕ) (r : Report)
  | recordSuccess (i : ℕ) (routeId : String) (cache : Option (Sections ρ)) (now : Time)
  | dispatchBlocker (i : ℕ) (now : Time)

/-- The file, the memory of each open ladder, the time of the last action, and the pool and
provider deadlines persisted so far and not cleared since. -/
structure World where
  file : LadderState
  memory : ℕ → Option LadderState := fun _ => none
  clock : Time
  persisted : List (String × Time) := []

def scopedDeadlines (memory : LadderState) : List (String × Time) :=
  (memory.cooldowns.entries.filter fun e => scopedKey e.1).map fun e => (e.1,e.2.untilAt)

theorem mem_scopedDeadlines {memory : LadderState} {key : String} {d : Time}
    (h : (key,d) ∈ scopedDeadlines memory) : scopedKey key = true ∧ Holds memory.cooldowns key d := by
  obtain ⟨e,he,heq⟩ := List.mem_map.mp h
  obtain ⟨hmem,hscoped⟩ := List.mem_filter.mp he
  cases heq
  exact ⟨hscoped,e.2,(Dict.mem_entries_iff _ _ _).mp hmem,le_rfl⟩

namespace World

/-- `_persist` by ladder `i`, after it dropped the keys `cleared`. -/
def persist (w : World) (i : ℕ) (memory : LadderState) (cleared : List String) (now : Time) : World where
  file := memory
  memory := Function.update w.memory i (some memory)
  clock := now
  persisted := scopedDeadlines memory ++ w.persisted.filter fun entry => !(cleared.contains entry.1)

/-- A persist after which the file holds every running pool and provider deadline it held,
apart from the cleared keys: the ladder holds it in memory, or writes a later one. -/
def Retains (w : World) (memory : LadderState) (writes : List String) (deadline : Time) (cleared : List String)
    (now : Time) : Prop :=
  ∀ e ∈ w.file.cooldowns.entries, scopedKey e.1 → e.1 ∉ cleared → now < e.2.untilAt →
    if e.1 ∈ writes then e.2.untilAt ≤ deadline else ∃ own ∈ memory.cooldowns.get? e.1, e.2.untilAt ≤ own.untilAt

instance (w : World) (memory : LadderState) (writes : List String) (deadline : Time) (cleared : List String)
    (now : Time) : Decidable (w.Retains memory writes deadline cleared now) :=
  inferInstanceAs (Decidable (∀ e ∈ w.file.cooldowns.entries, scopedKey e.1 → e.1 ∉ cleared → now < e.2.untilAt →
    if e.1 ∈ writes then e.2.untilAt ≤ deadline else ∃ own ∈ memory.cooldowns.get? e.1, e.2.untilAt ≤ own.untilAt))

/-- Every deadline that was persisted and has not passed is on the file, or a later one is. -/
structure Kept (w : World) : Prop where
  shared : ∀ entry ∈ w.persisted, scopedKey entry.1 = true
  stored : ∀ entry ∈ w.persisted, w.clock < entry.2 → Holds w.file.cooldowns entry.1 entry.2

variable {now : Time}

theorem Kept.persist {w : World} (h : w.Kept) {i : ℕ} {memory : LadderState} {cleared : List String}
    (hclock : w.clock ≤ now)
    (hheld : ∀ key e, w.file.cooldowns.get? key = some e → scopedKey key = true → key ∉ cleared → now < e.untilAt →
      Holds memory.cooldowns key e.untilAt) : (w.persist i memory cleared now).Kept := by
  constructor
  · rintro ⟨key,d⟩ hentry
    rcases List.mem_append.mp hentry with hnew | hold
    · exact (mem_scopedDeadlines hnew).1
    · exact h.shared _ (List.mem_filter.mp hold).1
  · rintro ⟨key,d⟩ hentry hrunning
    rcases List.mem_append.mp hentry with hnew | hold
    · exact (mem_scopedDeadlines hnew).2
    · obtain ⟨hmem,hkept⟩ := List.mem_filter.mp hold
      obtain ⟨e,he,hle⟩ := h.stored _ hmem (hclock.trans_lt hrunning)
      have hcleared : key ∉ cleared := by simpa using hkept
      have hlater : now < e.untilAt := hrunning.trans_le hle
      exact (hheld key e he (h.shared _ hmem) hcleared hlater).mono hle

theorem Kept.advance {w : World} (h : w.Kept) (memory : ℕ → Option LadderState)
    (hclock : w.clock ≤ now) : ({w with memory, clock := now} : World).Kept :=
  ⟨h.shared,fun entry hentry hrunning => h.stored entry hentry (hclock.trans_lt hrunning)⟩

end World

namespace Act
variable {ρ : Type} (cfg : ℕ → LadderConfig)

def now : Act ρ → Time
  | .load _ now => now
  | .report _ r => r.now
  | .recordSuccess _ _ _ now => now
  | .dispatchBlocker _ now => now

/-- The pool key, when `record_success` drops it. -/
def cleared (cfg : LadderConfig) (memory : LadderState) (cache : Option (Sections ρ)) (routeId : String) (now : Time) :
    List String :=
  if clearsPool cfg memory cache routeId now then [poolKey cfg routeId] else []

def step (w : World) (a : Act ρ) : Option World :=
  if w.clock ≤ a.now then match a with
    | .load i now => some {w with memory := Function.update w.memory i (some w.file), clock := now}
    | .report i r => (w.memory i).map fun m => w.persist i (r.apply (cfg i) m) [] r.now
    | .recordSuccess i routeId cache now => (w.memory i).map (fun m =>
        w.persist i (Eligibility.recordSuccess (cfg i) m cache routeId now) (cleared (cfg i) m cache routeId now) now)
    | .dispatchBlocker i now => (w.memory i).map (fun m =>
        {w with memory := Function.update w.memory i (some (mergeFresh m w.file.cooldowns)), clock := now})
  else none

def Fresh (w : World) : Act ρ → Prop
  | .report i r => ∀ m ∈ w.memory i, w.Retains m (r.writes (cfg i)) (r.deadline (cfg i)) [] r.now
  | .recordSuccess i routeId cache now => ∀ m ∈ w.memory i,
      w.Retains m [] now (cleared (cfg i) m cache routeId now) now
  | _ => True

instance (w : World) : (a : Act ρ) → Decidable (a.Fresh cfg w)
  | .report i r => inferInstanceAs (Decidable (∀ m ∈ w.memory i,
      w.Retains m (r.writes (cfg i)) (r.deadline (cfg i)) [] r.now))
  | .recordSuccess i routeId cache now => inferInstanceAs (Decidable (∀ m ∈ w.memory i,
      w.Retains m [] now (cleared (cfg i) m cache routeId now) now))
  | .load _ _ => isTrue trivial
  | .dispatchBlocker _ _ => isTrue trivial

end Act

section
variable {ρ : Type} {cfg : ℕ → LadderConfig} {w v : World}
variable {i : ℕ} {m : LadderState}

theorem kept_report (h : w.Kept) {r : Report} (hclock : w.clock ≤ r.now)
    (hm : w.Retains m (r.writes (cfg i)) (r.deadline (cfg i)) [] r.now) :
    (w.persist i (r.apply (cfg i) m) [] r.now).Kept := by
  apply h.persist hclock
  intro key e he hscoped hcleared hrunning
  have hretained := hm (key,e) ((Dict.mem_entries_iff _ _ _).mpr he) hscoped hcleared hrunning
  apply Report.holds_apply
  · intro hkey
    rw [if_neg hkey] at hretained
    exact hretained
  · intro hkey
    rw [if_pos hkey] at hretained
    exact hretained

variable {cache : Option (Sections ρ)} {routeId : String} {now : Time}

/-- `record_success` drops the route's key and the cleared ones, and no other. -/
theorem holds_recordSuccess {c : LadderConfig} {key : String} {d : Time} (h : Holds m.cooldowns key d)
    (hscoped : scopedKey key = true) (hcleared : key ∉ Act.cleared c m cache routeId now) : Holds
    (recordSuccess c m cache routeId now).cooldowns key d := by
  obtain ⟨e,he,hle⟩ := h
  have hroute : key ≠ routeKey routeId := by
    rintro rfl
    rw [scopedKey_routeKey] at hscoped
    cases hscoped
  refine ⟨e,?_,hle⟩
  unfold recordSuccess
  rw [Dict.get?_pop]
  refine ⟨?_,hroute⟩
  unfold Act.cleared at hcleared
  split
  · rename_i hclears
    rw [if_pos hclears] at hcleared
    rw [Dict.get?_pop]
    exact ⟨he,by simpa using hcleared⟩
  · exact he

theorem kept_recordSuccess (h : w.Kept) (hclock : w.clock ≤ now)
    (hm : w.Retains m [] now (Act.cleared (cfg i) m cache routeId now) now) :
    (w.persist i (recordSuccess (cfg i) m cache routeId now) (Act.cleared (cfg i) m cache routeId now) now).Kept := by
  apply h.persist hclock
  intro key e he hscoped hcleared hrunning
  have hretained := hm (key,e) ((Dict.mem_entries_iff _ _ _).mpr he) hscoped hcleared hrunning
  rw [if_neg List.not_mem_nil] at hretained
  exact holds_recordSuccess hretained hscoped hcleared

theorem World.Kept.step {a : Act ρ} (h : w.Kept) (hok : a.Fresh cfg w) (hstep : a.step cfg w = some v) : v.Kept := by
  unfold Act.step at hstep
  split at hstep
  · rename_i hclock
    cases a with
    | load i now =>
      cases hstep
      exact h.advance _ hclock
    | report i r =>
      obtain ⟨m,hm,rfl⟩ := Option.map_eq_some_iff.mp hstep
      exact kept_report h hclock (hok m hm)
    | recordSuccess i routeId cache now =>
      obtain ⟨m,hm,rfl⟩ := Option.map_eq_some_iff.mp hstep
      exact kept_recordSuccess h hclock (hok m hm)
    | dispatchBlocker i now =>
      obtain ⟨m,hm,rfl⟩ := Option.map_eq_some_iff.mp hstep
      exact h.advance _ hclock
  · cases hstep

end

/-- In every interleaving whose persists retain what the file holds, a pool or provider
deadline that some ladder persisted, and no success has cleared since, blocks at every
ladder each route with that key, at every time before it. -/
theorem persisted_deadline_blocks {ρ σ : Type} {cfg : ℕ → LadderConfig} {file : LadderState} {start : Time}
    {acts : List (Act ρ)} {w : World} (hrun : Run.exec (fun w a => Act.step cfg w a) {file, clock := start} acts = some w)
    (hok : Run.AllSteps (fun w a => Act.step cfg w a) (fun w a => a.Fresh cfg w) {file, clock := start} acts)
    {key : String} {d : Time} (hset : (key,d) ∈ w.persisted) {j : ℕ} {memory : LadderState}
    (hj : w.memory j = some memory) {routeId : String} (hkey : key ∈ dispatchKeys (cfg j) routeId) {t : Time}
    (hclock : w.clock ≤ t) (ht : t < d) (cache : Option (Sections σ)) :
    dispatchBlocker (cfg j) memory w.file.cooldowns cache routeId t ≠ none := by
  have hkept : w.Kept := by
    refine Run.exec_invariant_of (fun w a v hw ho hstep => hw.step ho hstep) hok hrun ?_
    exact ⟨fun entry hentry => absurd hentry List.not_mem_nil,fun entry hentry => absurd hentry List.not_mem_nil⟩
  have hstored := hkept.stored (key,d) hset (hclock.trans_lt ht)
  exact dispatchBlocker_ne_none hkey hstored.merge_fresh ht cache

def twoLadders (_ : ℕ) : LadderConfig := bareLadder

def exhausted : Failure := ⟨"quota_exhausted",0,.provider⟩

def mergedFirst : List (Act Unit) :=
  [.load 0 0,.load 1 0,.report 0 (.recordFailure "cc/a" exhausted 0),.dispatchBlocker 1 (seconds 1),
   .report 1 (.recordFailure "gh/b" timedOutCall (seconds 1))]

theorem persisted_deadline_blocks_merged : ∃ w ∈ Run.exec (fun w a => Act.step twoLadders w a)
      { file := {}, clock := 0 } mergedFirst, ∃ memory ∈ w.memory 1,
    dispatchBlocker (twoLadders 1) memory w.file.cooldowns (none : Option (Sections Unit)) "cc/a" (seconds 2) ≠ none := by
  obtain ⟨w,hw,⟨hset,hclock⟩,memory,hmemory⟩ : ∃ w ∈ Run.exec (fun w a => Act.step twoLadders w a)
      { file := {}, clock := 0 } mergedFirst,
      (("pool:claude",seconds 3600) ∈ w.persisted ∧ w.clock ≤ seconds 2) ∧ ∃ memory, w.memory 1 = some memory := by
    refine ⟨_,rfl,by decide +kernel,_,rfl⟩
  exact ⟨w,hw,memory,hmemory,persisted_deadline_blocks hw (by decide +kernel) hset hmemory (by decide +kernel) hclock
    (by decide) none⟩

def staleReport : List (Act Unit) :=
  [.load 0 0,.load 1 0,.report 0 (.recordFailure "cc/a" exhausted 0),
   .report 1 (.recordFailure "gh/b" timedOutCall (seconds 1))]

/-- The pool deadline that ladder 0 persisted is gone for ladder 1 two seconds later. -/
theorem stale_persist_loses_pool : ∃ w ∈ Run.exec (fun w a => Act.step twoLadders w a)
      { file := {}, clock := 0 } staleReport,
    ("pool:claude",seconds 3600) ∈ w.persisted ∧ "pool:claude" ∈ dispatchKeys (twoLadders 1) "cc/a" ∧
    w.clock ≤ seconds 2 ∧ seconds 2 < seconds 3600 ∧ ∃ memory ∈ w.memory 1,
    dispatchBlocker (twoLadders 1) memory w.file.cooldowns (none : Option (Sections Unit)) "cc/a" (seconds 2) = none := by
  decide +kernel

end Verdict.Eligibility

import Verdict.Prime.Fencing

/-! # Old writers

A run of calls, each of them possibly cut short by a crash, fences the writers it displaced
exactly if no generation is released after it was superseded.
-/
namespace Verdict.Leases
open Raising
variable {iso : ℚ → String} {s : State}

/-! ### What a call writes -/

variable {issue : String}

theorem readLease_ok {active : Option Lease} (h : readLease s issue = .ok active) :
    validIssue issue = true ∧ active = (folder s issue).active := by
  obtain ⟨_,hvalid,hactive⟩ := bind_ok.mp h
  cases hactive
  exact ⟨require_ok.mp hvalid,rfl⟩

theorem persisted_active (f : Folder) (l : Lease) : ((persistLease l).foldl Folder.write f).active = some l := rfl

variable {now : ℚ} {f : Folder} {l : Lease}

theorem staleLease_some (h : staleLease now f = some l) :
    f.active = some l ∧ l.status = .active ∧ l.isStale now = true := by
  obtain ⟨hheld,hl⟩ := Option.filter_eq_some_iff.mp h
  rw [Bool.and_eq_true,decide_eq_true_eq] at hl
  exact ⟨hheld,hl⟩

variable {a : Acquire} {plan : Plan}

theorem acquire_cases (h : acquireLease iso s a = .ok plan) :
    ∃ l, plan.lease = some l ∧ l.issue = a.issue ∧ l.generation = gen (folder s a.issue) + 1 ∧
      ((∀ m, (folder s a.issue).active = some m → m.status ≠ .active) ∧ plan.writes = persistLease l ∨
        ∃ m, (folder s a.issue).active = some m ∧ m.status = .active ∧ m.isStale a.now = true ∧
          plan.writes = persistLease m.fenced ++ persistLease l) := by
  unfold acquireLease at h
  split at h
  · cases h
  split at h
  case isFalse => cases h
  rename_i hbound
  obtain ⟨existing,hread,hplan⟩ := bind_ok.mp h
  obtain ⟨-,rfl⟩ := readLease_ok hread
  refine ⟨a.lease iso (gen (folder s a.issue) + 1) hbound,?_⟩
  cases hactive : (folder s a.issue).active with
  | none =>
    have hgen : gen (folder s a.issue) = 0 := by rw [gen,hactive,Option.elim_none]
    rw [hactive] at hplan
    rw [hgen]
    cases hplan
    refine ⟨rfl,rfl,rfl,.inl ⟨?_,rfl⟩⟩
    intro m hm
    cases hm
  | some existing =>
    rw [gen_of_active hactive]
    rw [hactive] at hplan
    simp only [acquirePlan] at hplan
    split at hplan
    case isTrue hstatus =>
      split at hplan
      case isFalse => cases hplan
      rename_i hstale
      cases hplan
      exact ⟨rfl,rfl,rfl,.inr ⟨existing,rfl,hstatus,hstale,rfl⟩⟩
    case isFalse hstatus =>
      cases hplan
      refine ⟨rfl,rfl,rfl,.inl ⟨?_,rfl⟩⟩
      intro m hm
      cases hm
      exact hstatus

theorem acquire_sane (hkept : AllKept s) (h : acquireLease iso s a = .ok plan) : Sane s plan.writes := by
  obtain ⟨l,-,hissue,hnext,⟨hclosed,hwrites⟩ | ⟨m,hactive,hstatus,-,hwrites⟩⟩ := acquire_cases h
  · rw [hwrites]
    rw [← hissue] at hnext hclosed
    exact sane_persist (.starts hnext hclosed)
  · have hsame : m.fenced.issue = a.issue := ((hkept a.issue).named m hactive).1
    rw [hwrites]
    refine sane_displaced (.renews m ?_ rfl (.inl hstatus)) (hissue.trans hsame.symm) (.starts ?_ ?_)
    · rw [hsame]
      exact hactive
    · rw [hnext,gen_of_active hactive]
      rfl
    · intro k hk
      cases (persisted_active _ _).symm.trans hk
      exact LeaseStatus.noConfusion

variable {generation : ℤ} {progress : Bool}

theorem heartbeat_cases (h : heartbeatLease iso s issue generation progress now = .ok plan) : ∃ m,
    (folder s issue).active = some m ∧ (m.generation : ℤ) = generation ∧ m.status = .active ∧ plan.writes =
    persistLease (m.beat iso progress now) := by
  obtain ⟨active,hread,hplan⟩ := bind_ok.mp h
  obtain ⟨-,rfl⟩ := readLease_ok hread
  cases hactive : (folder s issue).active with
  | none =>
    rw [hactive] at hplan
    cases hplan
  | some m =>
    rw [hactive] at hplan
    simp only [heartbeatPlan] at hplan
    split at hplan
    case isFalse => cases hplan
    rename_i hcurrent
    cases hplan
    exact ⟨m,rfl,hcurrent.1,hcurrent.2,rfl⟩

theorem beat_same (iso : ℚ → String) (l : Lease) (progress : Bool) (now : ℚ) :
    (l.beat iso progress now).issue = l.issue ∧ (l.beat iso progress now).generation = l.generation ∧
    (l.beat iso progress now).status = l.status ∧ (l.beat iso progress now).dispatchId = l.dispatchId ∧
    (l.beat iso progress now).workerId = l.workerId := by
  cases progress <;> exact ⟨rfl,rfl,rfl,rfl,rfl⟩

theorem heartbeat_sane (hkept : AllKept s)
    (h : heartbeatLease iso s issue generation progress now = .ok plan) : Sane s plan.writes := by
  obtain ⟨m,hactive,-,hstatus,hwrites⟩ := heartbeat_cases h
  obtain ⟨hissue,hgeneration,-⟩ := beat_same iso m progress now
  rw [hwrites]
  refine sane_persist (.renews m ?_ hgeneration (.inl hstatus))
  rw [hissue,((hkept issue).named m hactive).1]
  exact hactive

theorem release_cases (h : releaseLease s issue generation now = .ok plan) : validIssue issue = true ∧ ∃ m,
    (folder s issue).active = some m ∧ (m.generation : ℤ) = generation ∧ plan.writes = persistLease
    (m.release now) := by
  obtain ⟨active,hread,hplan⟩ := bind_ok.mp h
  obtain ⟨hvalid,rfl⟩ := readLease_ok hread
  cases hactive : (folder s issue).active with
  | none =>
    rw [hactive] at hplan
    cases hplan
  | some m =>
    rw [hactive] at hplan
    simp only [releasePlan] at hplan
    split at hplan
    case isFalse => cases hplan
    rename_i hcurrent
    cases hplan
    exact ⟨hvalid,m,rfl,hcurrent,rfl⟩

theorem release_sane (hkept : AllKept s)
    (hcareful : ∀ l ∈ (folder s issue).active, (l.generation : ℤ) = generation → l.status ≠ .superseded)
    (h : releaseLease s issue generation now = .ok plan) : Sane s plan.writes := by
  obtain ⟨-,m,hactive,hcurrent,hwrites⟩ := release_cases h
  have hissue : (m.release now).issue = issue := ((hkept issue).named m hactive).1
  have hstatus : m.status = .active ∨ (m.status = .released ∧ (m.release now).status ≠ .active) := by
    cases hfound : m.status with
    | active => exact .inl rfl
    | superseded => exact absurd hfound (hcareful m hactive hcurrent)
    | released => exact .inr ⟨rfl,LeaseStatus.noConfusion⟩
  rw [hwrites]
  exact sane_persist (.renews m (by rw [hissue]; exact hactive) rfl hstatus)

/-- What `supersede_stale_leases` writes for some of the directories. -/
def reapedWrites (s : State) (now : ℚ) (issues : List String) : List Write :=
  (issues.filterMap fun issue => staleLease now (folder s issue)).flatMap fun lease => persistLease lease.fenced

variable {ks : List String}

theorem writesOf_reaped {k : String} (hkept : AllKept s) :
    writesOf issue (reapedWrites s now (k :: ks)) =
      (if k = issue then (staleLease now (folder s k)).elim [] (fun l => persistLease l.fenced) else []) ++
        writesOf issue (reapedWrites s now ks) := by
  unfold reapedWrites
  cases hstale : staleLease now (folder s k) with
  | none =>
    have hskip : (k :: ks).filterMap (fun i => staleLease now (folder s i)) = ks.filterMap fun i => staleLease now (folder s i) :=
      List.filterMap_cons_none hstale
    rw [hskip]
    split <;> rfl
  | some l =>
    have hkeep : (k :: ks).filterMap (fun i => staleLease now (folder s i)) = l :: ks.filterMap fun i => staleLease now (folder s i) :=
      List.filterMap_cons_some hstale
    have hissue : l.fenced.issue = k := ((hkept k).named l (staleLease_some hstale).1).1
    rw [hkeep,List.flatMap_cons,writesOf_append,writesOf_persist,hissue]
    rfl

theorem reaped_outside (hkept : AllKept s) (h : issue ∉ ks) :
    writesOf issue (reapedWrites s now ks) = [] := by
  induction ks with
  | nil => rfl
  | cons k ks ih =>
    rw [List.mem_cons,not_or] at h
    rw [writesOf_reaped hkept,if_neg (Ne.symm h.1),ih h.2]
    rfl

theorem reaped_once (now : ℚ) (issue : String) (hkept : AllKept s) (hks : ks.Nodup) : writesOf issue
    (reapedWrites s now ks) = [] ∨ ∃ l, staleLease now (folder s issue) = some l ∧ writesOf issue
    (reapedWrites s now ks) = persistLease l.fenced := by
  induction ks with
  | nil => exact .inl rfl
  | cons k ks ih =>
    obtain ⟨hk,hks⟩ := List.nodup_cons.mp hks
    rw [writesOf_reaped hkept]
    by_cases hsame : k = issue
    · subst hsame
      rw [if_pos rfl,reaped_outside hkept hk,List.append_nil]
      cases hstale : staleLease now (folder s k) with
      | none => exact .inl rfl
      | some l => exact .inr ⟨l,rfl,rfl⟩
    · rw [if_neg hsame,List.nil_append]
      exact ih hks

theorem issueFolders_nodup (s : State) : (issueFolders s).Nodup :=
  ((List.perm_insertionSort _ _).nodup_iff).mpr (s.nodup.filter _)

theorem supersede_sane (hkept : AllKept s) (now : ℚ) : Sane s (supersedeStaleLeases s now).writes := by
  intro issue
  have hwrites : (supersedeStaleLeases s now).writes = reapedWrites s now (issueFolders s) := rfl
  rw [hwrites]
  rcases reaped_once now issue hkept (issueFolders_nodup s) with hnone | ⟨l,hstale,hone⟩
  · rw [hnone]
    exact .nil _
  · obtain ⟨hactive,hstatus,-⟩ := staleLease_some hstale
    rw [hone]
    exact .one (.renews l hactive rfl (.inl hstatus)) ((hkept issue).named l hactive).1

theorem require_cases {attemptId : Option String} {hint : Option Lease}
    (h : requireLeaseForPr s issue attemptId hint now = .ok plan) : plan.writes = [] ∧ ∃ l, plan.lease =
    some l ∧ (folder s issue).active = some l ∧ l.status = .active ∧ l.isStale now = false ∧ some
    l.dispatchId = attemptId := by
  obtain ⟨lease,-,hcheck⟩ := bind_ok.mp h
  cases lease with
  | none => cases hcheck
  | some l =>
    obtain ⟨_,hstatus,hcheck⟩ := bind_ok.mp hcheck
    obtain ⟨_,hattempt,hcheck⟩ := bind_ok.mp hcheck
    obtain ⟨active,hread,hcheck⟩ := bind_ok.mp hcheck
    obtain ⟨_,hsame,hcheck⟩ := bind_ok.mp hcheck
    obtain ⟨_,hstale,hcheck⟩ := bind_ok.mp hcheck
    cases hcheck
    exact ⟨rfl,l,rfl,(readLease_ok hread).2.symm.trans (require_ok.mp hsame),require_ok.mp hstatus,require_ok.mp hstale,
      require_ok.mp hattempt⟩

/-! ### Runs -/

def Careful (s : State) (op : Op) : Prop := match op.call with
  | .release issue generation _ => validIssue issue = false ∨ op.crash = some 0 ∨
      ∀ l ∈ (folder s issue).active, (l.generation : ℤ) = generation → l.status ≠ .superseded
  | _ => True

def step (iso : ℚ → String) (s : State) (op : Op) : Option State := some (next iso s op)

variable {op : Op}

theorem plan_sane (hkept : AllKept s) (hcareful : Careful s op) (hcrash : op.crash ≠ some 0)
    (h : op.call.plan iso s = .ok plan) : Sane s plan.writes := by
  obtain ⟨call,crash⟩ := op
  cases call with
  | acquire a => exact acquire_sane hkept h
  | heartbeat issue generation progress now => exact heartbeat_sane hkept h
  | release issue generation now =>
    have hvalid := (release_cases h).1
    refine release_sane hkept ?_ h
    rcases hcareful with hinvalid | hnothing | hstatus
    · rw [hvalid] at hinvalid
      cases hinvalid
    · exact absurd hnothing hcrash
    · exact hstatus
  | supersedeStale now =>
    cases h
    exact supersede_sane hkept now
  | requireForPr issue attemptId hint now =>
    rw [(require_cases h).1]
    exact sane_nil s

theorem next_of_ok {op : Op} {plan : Plan} (h : op.call.plan iso s = .ok plan) : ∃ ws, ws <+: plan.writes ∧
    next iso s op = writeAll s ws ∧ (op.crash = some 0 → ws = []) ∧ ws = op.crash.elim plan.writes fun n =>
    plan.writes.take n := by
  refine ⟨op.crash.elim plan.writes fun n => plan.writes.take n,?_,?_,?_,rfl⟩
  · cases op.crash with
    | none => exact List.prefix_refl _
    | some n => exact List.take_prefix n _
  · rw [next,h]
  · intro hcrash
    rw [hcrash]
    rfl

theorem next_keeps {op : Op} (hkept : AllKept s) (hcareful : Careful s op) :
    AllKept (next iso s op) ∧ ∀ issue, Later (folder s issue) (folder (next iso s op) issue) := by
  cases hplan : op.call.plan iso s with
  | error e =>
    have hnext : next iso s op = s := by rw [next,hplan]
    rw [hnext]
    exact ⟨hkept,fun issue => .refl _⟩
  | ok plan =>
    obtain ⟨ws,hws,hnext,hnothing,-⟩ := next_of_ok hplan
    rw [hnext]
    by_cases hcrash : op.crash = some 0
    · rw [hnothing hcrash]
      exact ⟨hkept,fun issue => .refl _⟩
    · exact sane_partway hkept (plan_sane hkept hcareful hcrash hplan) hws

def Op.Reached (op : Op) (k : ℕ) : Prop := ∀ n, op.crash = some n → k ≤ n

variable {k : ℕ}

theorem careful_earlier (h : Careful s op) (hk : op.Reached k) : Careful s ⟨op.call,some k⟩ := by
  obtain ⟨call,crash⟩ := op
  cases call with
  | release issue generation now =>
    rcases h with hinvalid | hnothing | hstatus
    · exact .inl hinvalid
    · exact .inr (.inl (congrArg some (Nat.le_zero.mp (hk 0 hnothing))))
    · exact .inr (.inr hstatus)
  | acquire a => trivial
  | heartbeat issue generation progress now => trivial
  | supersedeStale now => trivial
  | requireForPr issue attemptId hint now => trivial

theorem midway_later (hkept : AllKept s) (hcareful : Careful s op) (hk : op.Reached k) (issue : String) :
    Later (folder (next iso s ⟨op.call,some k⟩) issue) (folder (next iso s op) issue) := by
  cases hplan : op.call.plan iso s with
  | error e =>
    have hnext : next iso s op = s := by rw [next,hplan]
    have hmid : next iso s ⟨op.call,some k⟩ = s := by rw [next,hplan]
    rw [hnext,hmid]
    exact .refl _
  | ok plan =>
    obtain ⟨ws,hws,hnext,-,hstop⟩ := next_of_ok hplan
    have hmid : next iso s ⟨op.call,some k⟩ = writeAll s (plan.writes.take k) := by
      rw [next,hplan]
      rfl
    have hearlier : plan.writes.take k <+: ws := by
      rw [hstop]
      cases hcrash : op.crash with
      | none => exact List.take_prefix k _
      | some n => exact List.take_prefix_take_left (hk n hcrash)
    rw [hnext,hmid]
    by_cases hcrash : op.crash = some 0
    · have hzero : k = 0 := Nat.le_zero.mp (hk 0 hcrash)
      rw [hstop,hcrash,hzero]
      exact .refl _
    · exact sane_between hkept (plan_sane hkept hcareful hcrash hplan) hearlier hws issue

theorem run_keeps {ops : List Op} (hkept : AllKept s) (h : Run.AllSteps (step iso) Careful s ops) :
    AllKept (ops.foldl (next iso) s) ∧ ∀ issue, Later (folder s issue) (folder (ops.foldl (next iso) s) issue) := by
  induction ops generalizing s with
  | nil => exact ⟨hkept,fun issue => .refl _⟩
  | cons op ops ih =>
    obtain ⟨hop,hops⟩ := h
    obtain ⟨hnext,hlater⟩ := @next_keeps iso _ _ hkept hop
    obtain ⟨hend,hrest⟩ := ih hnext (hops _ rfl)
    exact ⟨hend,fun issue => (hlater issue).trans (hrest issue)⟩

theorem exec_step (ops : List Op) (s : State) : Run.exec (step iso) s ops = some (ops.foldl (next iso) s) := by
  induction ops generalizing s with
  | nil => rfl
  | cons op ops ih => exact ih _

/-! ### What fencing means -/

structure Fences (iso : ℚ → String) (s t : State) : Prop where
  monotone : ∀ issue, gen (folder s issue) ≤ gen (folder t issue)
  closed : ∀ issue l, (folder s issue).active = some l → l.status ≠ .active →
    ∀ m, (folder t issue).active = some m → m.generation = l.generation → m.status ≠ .active
  silent : ∀ issue l, (folder s issue).active = some l → l.status ≠ .active →
    ∀ progress now plan, heartbeatLease iso t issue l.generation progress now ≠ .ok plan
  barred : ∀ issue l, (folder s issue).active = some l → l.status ≠ .active →
    ∀ attemptId hint now plan m, requireLeaseForPr t issue attemptId hint now = .ok plan → plan.lease = some m → m.generation ≠ l.generation
  recorded : ∀ issue l, (folder s issue).active = some l → l.status = .superseded → ∀ records,
    readLeaseHistory t issue = .ok records → ∀ r ∈ records, r.generation = l.generation → r.status = .superseded

def Call.time : Call → ℚ
  | .acquire a => a.now
  | .heartbeat _ _ _ now => now
  | .release _ _ now => now
  | .supersedeStale now => now
  | .requireForPr _ _ _ now => now

/-- An owner that is active and not stale stays the owner, unless its own generation is released. -/
def KeepsOwners (iso : ℚ → String) (s : State) (op : Op) : Prop :=
  ∀ issue l, (folder s issue).active = some l → l.status = .active → l.isStale op.call.time = false →
    (∀ now, op.call ≠ .release issue l.generation now) →
    ∃ m, (folder (next iso s op) issue).active = some m ∧ m.status = .active ∧ m.generation = l.generation ∧
      m.dispatchId = l.dispatchId ∧ m.workerId = l.workerId

def GatesCurrent (s : State) : Prop :=
  ∀ issue attemptId hint now plan, requireLeaseForPr s issue attemptId hint now = .ok plan →
    ∃ l, plan.lease = some l ∧ (folder s issue).active = some l ∧ l.status = .active ∧ l.isStale now = false ∧ some l.dispatchId = attemptId

def HasHistory (s : State) : Prop :=
  ∀ issue, validIssue issue = true → ∃ records, readLeaseHistory s issue = .ok records ∧
    ∀ n, 1 ≤ n → n ≤ gen (folder s issue) → records.countP (fun r => r.generation = n) = 1

def AcquiresOnce (iso : ℚ → String) (ops : List Op) : Prop :=
  ∀ pre mid post a b p q l m, ops = pre ++ ⟨.acquire a,none⟩ :: (mid ++ ⟨.acquire b,none⟩ :: post) → a.issue = b.issue →
    acquireLease iso (run iso pre) a = .ok p → p.lease = some l →
    acquireLease iso (run iso (pre ++ ⟨.acquire a,none⟩ :: mid)) b = .ok q → q.lease = some m → l.generation < m.generation

structure FencesOldWriters (iso : ℚ → String) (ops : List Op) : Prop where
  fences : ∀ pre mid post, ops = pre ++ (mid ++ post) → Fences iso (run iso pre) (run iso (pre ++ mid))
  midway : ∀ pre op mid post k, ops = pre ++ op :: (mid ++ post) → op.Reached k →
    Fences iso (next iso (run iso pre) ⟨op.call,some k⟩) (run iso (pre ++ op :: mid))
  once : AcquiresOnce iso ops
  owners : ∀ pre op post, ops = pre ++ op :: post → KeepsOwners iso (run iso pre) op
  gates : ∀ pre post, ops = pre ++ post → GatesCurrent (run iso pre)
  history : ∀ pre post, ops = pre ++ post → HasHistory (run iso pre)

variable {records : List Lease}

theorem readLeaseHistory_ok (h : readLeaseHistory s issue = .ok records) :
    records = (folder s issue).generations.values.insertionSort fun a b => a.generation ≤ b.generation := by
  obtain ⟨_,-,hrecords⟩ := bind_ok.mp h
  cases hrecords
  rfl

theorem mem_history (hkept : Kept issue (folder s issue)) (h : readLeaseHistory s issue = .ok records)
    {r : Lease} (hr : r ∈ records) : (folder s issue).generations.get? r.generation = some r := by
  rw [readLeaseHistory_ok h,List.mem_insertionSort] at hr
  obtain ⟨⟨n,_⟩,hentry,rfl⟩ := List.mem_map.mp hr
  have hget := (Dict.mem_entries_iff _ _ _).mp hentry
  rw [(hkept.filed _ _ hget).1]
  exact hget

theorem history_kept (hkept : AllKept s) : HasHistory s := by
  intro issue hvalid
  refine ⟨_,bind_ok.mpr ⟨(),require_ok.mpr hvalid,rfl⟩,?_⟩
  intro n hn hle
  obtain ⟨l,hl⟩ := (hkept issue).every n hn hle
  have hmem : n ∈ (folder s issue).generations.keys := (Dict.mem_keys_iff _ _).mpr ⟨l,hl⟩
  have hone := List.count_eq_one_of_mem (folder s issue).generations.nodup hmem
  rw [(List.perm_insertionSort _ _).countP_eq,Dict.values,List.countP_map]
  rw [List.count,List.countP_map] at hone
  rw [← hone]
  refine List.countP_congr ?_
  intro e hentry
  have hname := ((hkept issue).filed e.1 e.2 ((Dict.mem_entries_iff _ _ _).mp hentry)).1
  simp only [Function.comp_apply,hname,decide_eq_true_eq,beq_iff_eq]

theorem gates_current (s : State) : GatesCurrent s := by
  intro issue attemptId hint now plan h
  exact (require_cases h).2

theorem fences_later {t : State} (hs : AllKept s) (ht : AllKept t) (h : ∀ issue, Later (folder s issue) (folder t issue)) :
    Fences iso s t := by
  refine ⟨fun issue => (h issue).generations,fun issue => (h issue).closed,?_,?_,?_⟩
  · intro issue l hl hclosed progress now plan hplan
    obtain ⟨m,hm,hsame,hstatus,-⟩ := heartbeat_cases hplan
    exact (h issue).closed l hl hclosed m hm (Int.ofNat.inj hsame) hstatus
  · intro issue l hl hclosed attemptId hint now plan m hplan hlease hsame
    obtain ⟨k,hk,hactive,hstatus,-⟩ := gates_current t issue attemptId hint now plan hplan
    cases hk.symm.trans hlease
    exact (h issue).closed l hl hclosed m hactive hsame hstatus
  · intro issue l hl hstatus records hrecords r hr hsame
    obtain ⟨m,hm,hm'⟩ := (hs issue).mirrored l hl hstatus
    obtain ⟨hfound,hsuperseded,-⟩ := (h issue).sealed _ m ⟨hm,hm',.inr ⟨l,hl,rfl,hstatus⟩⟩
    have hget := mem_history (ht issue) hrecords hr
    rw [hsame] at hget
    cases hfound.symm.trans hget
    exact hsuperseded

/-! ### Acquired generations -/

theorem acquired_active (h : acquireLease iso s a = .ok plan) (hl : plan.lease = some l) :
    (folder (next iso s ⟨.acquire a,none⟩) a.issue).active = some l := by
  obtain ⟨m,hm,hissue,-,hwrites⟩ := acquire_cases h
  cases hm.symm.trans hl
  have hlast : ∃ before, plan.writes = before ++ persistLease l := by
    rcases hwrites with ⟨-,hwrites⟩ | ⟨k,-,-,-,hwrites⟩
    · exact ⟨[],hwrites⟩
    · exact ⟨_,hwrites⟩
  obtain ⟨before,hwrites⟩ := hlast
  have hplan : (Call.acquire a).plan iso s = .ok plan := h
  have hnext : next iso s ⟨.acquire a,none⟩ = writeAll s plan.writes := by
    rw [next,hplan]
    rfl
  have hkeep : writesOf a.issue (persistLease l) = persistLease l := by rw [writesOf_persist,if_pos hissue]
  rw [hnext,folder_writeAll,hwrites,writesOf_append,hkeep,List.foldl_append]
  rfl

/-! ### Owners -/

variable {ws : List Write}

theorem active_partway (h : ws <+: persistLease l) :
    (ws.foldl Folder.write f).active = f.active ∨ (ws.foldl Folder.write f).active = some l := by
  rw [List.prefix_iff_eq_take.mp h]
  match ws.length with
  | 0 => exact .inl rfl
  | 1 => exact .inl rfl
  | 2 => exact .inr rfl
  | k + 3 =>
    have htake : (persistLease l).take (k + 3) = persistLease l := List.take_of_length_le (Nat.le_add_left 3 k)
    rw [htake]
    exact .inr rfl

def Continues (l m : Lease) : Prop :=
  m.status = .active ∧ m.generation = l.generation ∧ m.dispatchId = l.dispatchId ∧ m.workerId = l.workerId

theorem owner_kept {vs : List Write} (hactive : (folder s issue).active = some l)
    (hstatus : l.status = .active) (hvs : vs <+: ws)
    (h : writesOf issue ws = [] ∨ ∃ m, writesOf issue ws = persistLease m ∧ Continues l m) :
    ∃ m, (folder (writeAll s vs) issue).active = some m ∧ Continues l m := by
  have hprefix : writesOf issue vs <+: writesOf issue ws := hvs.filter _
  rw [folder_writeAll]
  rcases h with hnone | ⟨m,hm,hsame⟩
  · rw [hnone] at hprefix
    rw [List.prefix_nil.mp hprefix]
    exact ⟨l,hactive,hstatus,rfl,rfl,rfl⟩
  · rw [hm] at hprefix
    rcases active_partway (f := folder s issue) hprefix with hold | hnew
    · exact ⟨l,hold.trans hactive,hstatus,rfl,rfl,rfl⟩
    · exact ⟨m,hnew,hsame⟩

theorem writesOf_other (h : l.issue ≠ issue) : writesOf issue (persistLease l) = [] := by
  rw [writesOf_persist,if_neg h]

theorem owner_writes (hkept : AllKept s) (hplan : op.call.plan iso s = .ok plan)
    (hactive : (folder s issue).active = some l) (hstatus : l.status = .active) (hstale : l.isStale op.call.time = false)
    (hown : ∀ now, op.call ≠ .release issue l.generation now) :
    writesOf issue plan.writes = [] ∨ ∃ m, writesOf issue plan.writes = persistLease m ∧ Continues l m := by
  obtain ⟨call,crash⟩ := op
  cases call with
  | acquire a =>
    obtain ⟨k,-,hissue,-,hwhere⟩ := acquire_cases hplan
    by_cases hsame : a.issue = issue
    · subst hsame
      rcases hwhere with ⟨hclosed,-⟩ | ⟨m,hm,-,hold,-⟩
      · exact absurd hstatus (hclosed l hactive)
      · cases hactive.symm.trans hm
        exact absurd (hold.symm.trans hstale) Bool.noConfusion
    · have hother : writesOf issue (persistLease k) = [] := writesOf_other (by rw [hissue]; exact hsame)
      rcases hwhere with ⟨-,hwrites⟩ | ⟨m,hm,-,-,hwrites⟩
      · exact .inl (by rw [hwrites,hother])
      · have hfenced : m.fenced.issue ≠ issue := fun heq => hsame (((hkept a.issue).named m hm).1.symm.trans heq)
        exact .inl (by rw [hwrites,writesOf_append,writesOf_other hfenced,hother,List.nil_append])
  | heartbeat i generation progress now =>
    obtain ⟨m,hm,-,hm',hwrites⟩ := heartbeat_cases hplan
    obtain ⟨hissue,hsame⟩ := beat_same iso m progress now
    rw [((hkept i).named m hm).1] at hissue
    rw [hwrites,writesOf_persist,hissue]
    split
    · rename_i heq
      subst heq
      cases hactive.symm.trans hm
      exact .inr ⟨_,rfl,hsame.2.1.trans hm',hsame.1,hsame.2.2⟩
    · exact .inl rfl
  | release i generation now =>
    obtain ⟨-,m,hm,hcurrent,hwrites⟩ := release_cases hplan
    have hissue : (m.release now).issue = i := ((hkept i).named m hm).1
    rw [hwrites,writesOf_persist,hissue]
    split
    · rename_i heq
      subst heq
      cases hactive.symm.trans hm
      exact absurd (by rw [hcurrent]) (hown now)
    · exact .inl rfl
  | supersedeStale now =>
    cases hplan
    rcases reaped_once now issue hkept (issueFolders_nodup s) with hnone | ⟨m,hm,-⟩
    · exact .inl hnone
    · obtain ⟨hheld,-,hold⟩ := staleLease_some hm
      cases hactive.symm.trans hheld
      exact absurd (hold.symm.trans hstale) Bool.noConfusion
  | requireForPr i attemptId hint now =>
    rw [(require_cases hplan).1]
    exact .inl rfl

theorem owners_kept (hkept : AllKept s) : KeepsOwners iso s op := by
  intro issue l hactive hstatus hstale hown
  cases hplan : op.call.plan iso s with
  | error e =>
    have hnext : next iso s op = s := by rw [next,hplan]
    rw [hnext]
    exact ⟨l,hactive,hstatus,rfl,rfl,rfl⟩
  | ok plan =>
    obtain ⟨ws,hws,hnext,-⟩ := next_of_ok hplan
    rw [hnext]
    exact owner_kept hactive hstatus hws (owner_writes hkept hplan hactive hstatus hstale hown)

/-! ### The exact condition -/

theorem mem_persist {w : Write} (h : w ∈ persistLease l) : w.lease = l := by
  simp only [persistLease,List.mem_cons,List.not_mem_nil,or_false] at h
  obtain rfl | rfl | rfl := h <;> rfl

theorem generation_filed (h : ws <+: persistLease l) (hsome : ws ≠ []) :
    (ws.foldl Folder.write f).generations.get? l.generation = some l := by
  rw [List.prefix_iff_eq_take.mp h]
  match hlength : ws.length with
  | 0 => exact absurd (List.length_eq_zero_iff.mp hlength) hsome
  | 1 => exact Dict.get?_set_self _ _ _
  | 2 => exact Dict.get?_set_self _ _ _
  | k + 3 =>
    have htake : (persistLease l).take (k + 3) = persistLease l := List.take_of_length_le (Nat.le_add_left 3 k)
    rw [htake]
    exact Dict.get?_set_self _ _ _

theorem careless_forgets (hkept : AllKept s) (h : ¬Careful s op) : ¬Fences iso s (next iso s op) := by
  obtain ⟨call,crash⟩ := op
  cases call with
  | release issue generation now =>
    simp only [Careful,not_or,not_forall,not_not] at h
    obtain ⟨hvalid,hcrash,m,hm,hcurrent,hstatus⟩ := h
    have hvalid : validIssue issue = true := Bool.eq_true_of_not_eq_false hvalid
    have hissue : (m.release now).issue = issue := ((hkept issue).named m hm).1
    have hplan : (Call.release issue generation now).plan iso s =
        .ok {writes := persistLease (m.release now),lease := some (m.release now)} := by
      refine bind_ok.mpr ⟨some m,bind_ok.mpr ⟨(),require_ok.mpr hvalid,congrArg Except.ok hm⟩,?_⟩
      exact if_pos hcurrent
    have hwritten : (folder (next iso s ⟨.release issue generation now,crash⟩) issue).generations.get? m.generation = some (m.release now) := by
      obtain ⟨ws,hws,hnext,-,htake⟩ := @next_of_ok iso s ⟨.release issue generation now,crash⟩ _ hplan
      have hkeep : writesOf issue ws = ws := by
        refine List.filter_eq_self.mpr ?_
        intro w hw
        have hlease : w.lease = m.release now := mem_persist (hws.subset hw)
        rw [hlease,hissue,decide_eq_true_eq]
      rw [hnext,folder_writeAll,hkeep]
      refine generation_filed hws ?_
      rw [htake]
      cases crash with
      | none => exact List.cons_ne_nil _ _
      | some n =>
        cases n with
        | zero => exact absurd rfl hcrash
        | succ k => exact List.cons_ne_nil _ _
    intro hfences
    have hvalues : m.release now ∈ (folder (next iso s ⟨.release issue generation now,crash⟩) issue).generations.values :=
      List.mem_map.mpr ⟨(m.generation,m.release now),(Dict.mem_entries_iff _ _ _).mpr hwritten,rfl⟩
    have hreleased := hfences.recorded issue m hm hstatus _ (bind_ok.mpr ⟨(),require_ok.mpr hvalid,rfl⟩) (m.release now)
      ((List.mem_insertionSort _).mpr hvalues) rfl
    exact LeaseStatus.noConfusion hreleased
  | acquire a => exact absurd trivial h
  | heartbeat issue generation progress now => exact absurd trivial h
  | supersedeStale now => exact absurd trivial h
  | requireForPr issue attemptId hint now => exact absurd trivial h

theorem run_append (pre mid : List Op) : run iso (pre ++ mid) = mid.foldl (next iso) (run iso pre) := List.foldl_append

/-- A run fences its old writers exactly when it never writes the release of a superseded generation. -/
theorem old_writers_fenced (iso : ℚ → String) (ops : List Op) :
    FencesOldWriters iso ops ↔ Run.AllSteps (step iso) Careful .empty ops := by
  constructor
  · intro h
    by_contra hbad
    obtain ⟨pre,op,post,t,rfl,hpre,hexec,hop⟩ := Run.first_violation hbad
    cases (exec_step pre _).symm.trans hexec
    have hkept := (run_keeps allKept_empty hpre).1
    have hfences := h.fences pre [op] post rfl
    rw [run_append] at hfences
    exact careless_forgets hkept hop hfences
  · intro h
    have hkept : ∀ pre post, ops = pre ++ post → AllKept (run iso pre) := by
      rintro pre post rfl
      exact (run_keeps allKept_empty h.take).1
    have hlater : ∀ pre mid post, ops = pre ++ (mid ++ post) →
        ∀ issue, Later (folder (run iso pre) issue) (folder (run iso (pre ++ mid)) issue) := by
      rintro pre mid post rfl
      have hmid := (h.drop (exec_step pre .empty)).take
      rw [run_append]
      exact (run_keeps (hkept pre _ rfl) hmid).2
    refine ⟨?_,?_,?_,?_,?_,?_⟩
    · intro pre mid post hops
      exact fences_later (hkept pre _ hops) (hkept (pre ++ mid) post (by rw [hops,List.append_assoc])) (hlater pre mid post hops)
    · intro pre op mid post k hops hk
      have hbefore := hkept pre _ hops
      have hop : Careful (run iso pre) op := ((hops ▸ h).drop (exec_step pre .empty)).1
      have hmid := (@next_keeps iso _ _ hbefore (careful_earlier hop hk)).1
      have hend : ops = (pre ++ op :: mid) ++ post := by rw [hops,List.append_assoc,List.cons_append]
      have hrest := hlater (pre ++ [op]) mid post (by rw [hops,List.append_assoc]; rfl)
      rw [run_append pre [op],List.append_assoc] at hrest
      exact fences_later hmid (hkept _ _ hend) fun issue => (midway_later hbefore hop hk issue).trans (hrest issue)
    · intro pre mid post a b p q l m hops hissue hp hl hq hm
      have hfirst := acquired_active hp hl
      obtain ⟨k,hk,-,hnext,-⟩ := acquire_cases hq
      cases hk.symm.trans hm
      have hle := (hlater (pre ++ [⟨.acquire a,none⟩]) mid (⟨.acquire b,none⟩ :: post) (by rw [hops,List.append_assoc]; rfl) b.issue).generations
      rw [run_append pre [_],List.append_assoc,← hissue] at hle
      rw [← hissue] at hnext
      have hgen := gen_of_active hfirst
      have hrun : run iso (pre ++ ([⟨.acquire a,none⟩] ++ mid)) = run iso (pre ++ ⟨.acquire a,none⟩ :: mid) := rfl
      rw [hrun] at hle
      simp only [List.foldl_cons,List.foldl_nil] at hle
      omega
    · intro pre op post hops
      exact owners_kept (hkept pre _ hops)
    · intro pre post hops
      exact gates_current _
    · intro pre post hops
      exact history_kept (hkept pre post hops)

/-! ### A generation released too late -/

def lateOwner : Acquire := ⟨"7","d1","w1","/w","b",10,"s",0⟩

theorem lateOwner_bounded : 0 < lateOwner.staleAfterSeconds := by decide

def lateLease : Lease := lateOwner.lease (fun _ => "") 1 lateOwner_bounded

/-- An owner is superseded, and releases its lease all the same. -/
theorem superseded_lease_released : ¬∀ iso ops, FencesOldWriters iso ops := by
  intro h
  let before : List Op := [⟨.acquire lateOwner,none⟩,⟨.supersedeStale 100,none⟩]
  let late : Op := ⟨.release "7" 1 101,none⟩
  have hfences := (h (fun _ => "") (before ++ [late])).fences before [late] [] rfl
  have hactive : (folder (run (fun _ => "") before) "7").active = some lateLease.fenced := by decide +kernel
  have hhistory : readLeaseHistory (run (fun _ => "") (before ++ [late])) "7" = .ok [lateLease.fenced.release 101] := by decide +kernel
  have hstatus := hfences.recorded "7" lateLease.fenced hactive rfl _ hhistory _ List.mem_cons_self rfl
  exact LeaseStatus.noConfusion hstatus

end Verdict.Leases

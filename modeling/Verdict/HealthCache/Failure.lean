import Verdict.HealthCache.Dispatch

/-! # Saved failures outdate older proofs

The time of the last failure lives inside the entry of a route, and `save` keeps or drops an entry
as a whole. An entry whose revision is the one on disk was derived from the entry there, so it
knows every failure that disk knows; older ones are dropped. Hence a failure that reached the file
stays there, under any later success. An entry that `save` drops takes its failure with it.
-/
namespace Verdict.HealthCache
open Run
open Option (map_eq_some_iff map_some)
variable {ρ : Type}

def Grown (previous now : Option HealthEntry) : Prop := now = previous ∨ ∃ e, now = some e ∧ Follows previous e

variable {a b : Option HealthEntry}

theorem Grown.trans {c : Option HealthEntry} (hab : Grown a b) (hbc : Grown b c) : Grown a c := by
  rcases hbc with rfl | ⟨e,rfl,he⟩
  · exact hab
  · rcases hab with rfl | ⟨d,rfl,hd⟩
    · exact .inr ⟨e,rfl,he⟩
    · refine .inr ⟨e,rfl,fun p hp t ht => he.failures d rfl t (hd.failures p hp t ht),?_⟩
      exact he.revision.trans hd.revision

variable {t : Time}

theorem Grown.failed_of_some (h : Grown a b)
    (ha : ∃ p, a = some p ∧ p.FailedSince t) : ∃ e, b = some e ∧ e.FailedSince t := by
  obtain ⟨p,rfl,hp⟩ := ha
  rcases h with rfl | ⟨e,rfl,he⟩
  · exact ⟨p,rfl,hp⟩
  · exact ⟨e,rfl,he.failures p rfl t hp⟩

variable {route : String}

theorem storeRoute_grown {s t : Sections ρ} {r : Except HealthCacheError (Option HealthEntry)}
    (h : storeRoute s route r = .ok t) (hr : ∀ e, r = .ok (some e) → Follows (s.routes.get? route) e) (k : String) :
    Grown (s.routes.get? k) (t.routes.get? k) := by
  rcases r with e | ⟨_ | entry⟩
  · cases h
  · cases h
    exact .inl rfl
  · cases h
    by_cases hk : k = route
    · subst hk
      exact .inr ⟨entry,Dict.get?_set_self _ _ _,hr entry rfl⟩
    · exact .inl (Dict.get?_set_ne _ _ hk)

variable {e : HealthEntry}

theorem map_some_ok {x : Except HealthCacheError HealthEntry}
    (h : x.map some = .ok (some e)) : x = .ok e := by
  cases x with
  | error _ => cases h
  | ok _ => cases h; rfl

theorem apply_grown {fresh : EvidenceFresh} {s t : Sections ρ} {m : Mutation ρ} (h : m.apply fresh s = .ok t)
    (k : String) : Grown (s.routes.get? k) (t.routes.get? k) := by
  cases m with
  | record => exact storeRoute_grown h (fun e he => recordEntry_follows (map_some_ok he)) k
  | recordLiveness => exact storeRoute_grown h (fun e he => livenessEntry_follows (map_some_ok he)) k
  | recordPassiveTraffic => exact storeRoute_grown h (fun e he => passiveTrafficEntry_follows he) k
  | recordPassiveFailure => exact storeRoute_grown h (fun e he => passiveFailureEntry_follows he) k
  | recordAgenticEvidence =>
    exact storeRoute_grown h (fun e he => agenticEvidenceEntry_follows (Except.ok.inj he)) k
  | recordCooldown => cases h; exact .inl rfl
  | clearCooldown => cases h; exact .inl rfl
  | schedule => cases h; exact .inl rfl

theorem runMutations_grown (fresh : EvidenceFresh) (s : Sections ρ) (ms : List (Mutation ρ)) (k : String) :
    Grown (s.routes.get? k) ((runMutations fresh s ms).1.routes.get? k) := by
  induction ms generalizing s with
  | nil => exact .inl rfl
  | cons m ms ih =>
    simp only [runMutations]
    split
    · exact .inl rfl
    · rename_i t ht
      exact (apply_grown ht k).trans (ih t)

def Derived (m : HealthEntry) : Option HealthEntry → Prop
  | none => m.writeRevision = 0
  | some d => m.writeRevision ≤ d.writeRevision ∧
      (m.writeRevision = d.writeRevision → ∀ t, d.FailedSince t → m.FailedSince t)

theorem Derived.refl (d : HealthEntry) : Derived d (some d) := ⟨le_rfl,fun _ _ h => h⟩

def Revised (routes : Dict String HealthEntry) : Prop := ∀ k d, routes.get? k = some d → 1 ≤ d.writeRevision

variable {m : HealthEntry} {routes : Dict String HealthEntry}

theorem Derived.of_revision_zero (h : m.writeRevision = 0)
    (hr : Revised routes) (k : String) : Derived m (routes.get? k) := by
  cases hd : routes.get? k with
  | none => exact h
  | some d =>
    have := hr k d hd
    exact ⟨by omega,by omega⟩

variable {k : String}

theorem Derived.grown (hr : Revised routes) (ha : ∀ p, a = some p → Derived p (routes.get? k)) (h : Grown a (some e)) :
    Derived e (routes.get? k) := by
  rcases h with h | ⟨e',he',hf⟩
  · exact ha e h.symm
  · cases he'
    cases a with
    | none => exact .of_revision_zero hf.revision hr k
    | some p =>
      have hp := ha p rfl
      cases hd : routes.get? k with
      | none =>
        rw [hd] at hp
        exact hf.revision.trans hp
      | some d =>
        rw [hd] at hp
        have hrev : e.writeRevision = p.writeRevision := hf.revision
        exact ⟨hrev ▸ hp.1,fun heq t ht => hf.failures p rfl t (hp.2 (hrev ▸ heq) t ht)⟩

/-- The file only moves forward on a route: a changed entry has a larger revision and
knows every failure the old one knew. -/
def Advances (old new : Dict String HealthEntry) : Prop :=
  ∀ k d, old.get? k = some d → new.get? k = some d ∨
    ∃ d', new.get? k = some d' ∧ d.writeRevision < d'.writeRevision ∧ ∀ t, d.FailedSince t → d'.FailedSince t

theorem Advances.refl (r : Dict String HealthEntry) : Advances r r := fun _ _ h => .inl h

theorem Derived.advances {old new : Dict String HealthEntry}
    (h : Derived m (old.get? k)) (hadv : Advances old new) (hr : Revised new) : Derived m (new.get? k) := by
  cases hd : old.get? k with
  | none =>
    rw [hd] at h
    exact .of_revision_zero h hr k
  | some d =>
    rw [hd] at h
    rcases hadv k d hd with hn | ⟨d',hn,hlt,_⟩
    · rw [hn]
      exact h
    · rw [hn]
      obtain ⟨hle,_⟩ := h
      exact ⟨by omega,by omega⟩

structure RouteInv (s : State ρ) : Prop where
  revised : Revised s.file.routes
  derived : ∀ i c, s.caches i = some c → ∀ k m, c.mem.routes.get? k = some m → Derived m (s.file.routes.get? k)

theorem RouteInv.initial (ops : SchedulingOps ρ) : RouteInv (State.initial ops) where
  revised := by simp [Revised,State.initial]
  derived := by simp [State.initial]

variable {s : State ρ} {i : ℕ} {c : Cache ρ}

theorem RouteInv.setCache (hi : RouteInv s)
    (hc : ∀ k m, c.mem.routes.get? k = some m → Derived m (s.file.routes.get? k)) : RouteInv (s.setCache i c) := by
  refine ⟨hi.revised,fun j d hj => ?_⟩
  rcases caches_setCache hj with rfl | hj
  · exact hc
  · exact hi.derived j d hj

theorem RouteInv.publish (hi : RouteInv s) {sections : Sections ρ}
    (hadv : Advances s.file.routes sections.routes) (hr : Revised sections.routes) :
    RouteInv (s.publish i sections) := by
  refine ⟨hr,fun j d hj k m hm => ?_⟩
  rcases caches_setCache (s := s) hj with rfl | hj
  · have hm' : sections.routes.get? k = some m := hm
    exact hm'.symm ▸ .refl m
  · exact (hi.derived j d hj k m hm).advances hadv hr

theorem saveRoute_cases (k : String) (m : HealthEntry) (disk : Option HealthEntry) :
    (saveRoute k m disk).orElse (fun _ => disk) = disk ∧ saveRoute k m disk = none ∨
    ∃ e, (saveRoute k m disk).orElse (fun _ => disk) = some e ∧ e.lastFailure = m.lastFailure ∧
      1 ≤ e.writeRevision ∧ ∀ d, disk = some d → d.writeRevision ≤ m.writeRevision ∧ d.writeRevision < e.writeRevision := by
  cases disk with
  | none => exact .inr ⟨{m with writeRevision := 1},rfl,rfl,le_rfl,by simp⟩
  | some d =>
    by_cases h : d.writeRevision ≤ m.writeRevision ∧ d.checkedAt < m.checkedAt
    · refine .inr ⟨{m with writeRevision := d.writeRevision + 1},by simp [saveRoute,h],rfl,by simp,?_⟩
      rintro _ ⟨⟩
      exact ⟨h.1,Nat.lt_succ_self _⟩
    · simp [saveRoute,h]

variable {disk : Dict String HealthEntry}

/-- What `save` makes of the routes on disk. -/
theorem save_advances {mine : Dict String HealthEntry} (hr : Revised disk)
    (hd : ∀ k m, mine.get? k = some m → Derived m (disk.get? k)) :
    Advances disk (Dict.mergeWith saveRoute mine disk) ∧ Revised (Dict.mergeWith saveRoute mine disk) := by
  constructor
  · intro k d hk
    rw [Dict.get?_mergeWith]
    cases hm : mine.get? k with
    | none => exact .inl hk
    | some m =>
      rcases saveRoute_cases k m (disk.get? k) with ⟨hkeep,_⟩ | ⟨e,he,hlast,_,hrev⟩
      · exact .inl (hkeep.trans hk)
      · obtain ⟨hle,hlt⟩ := hrev d hk
        have hder := hd k m hm
        rw [hk] at hder
        have heq : m.writeRevision = d.writeRevision := Nat.le_antisymm hder.1 hle
        refine .inr ⟨e,he,hlt,fun t ht => ?_⟩
        simpa only [HealthEntry.FailedSince,hlast] using hder.2 heq t ht
  · intro k d hk
    rw [Dict.get?_mergeWith] at hk
    cases hm : mine.get? k with
    | none =>
      rw [hm] at hk
      exact hr k d hk
    | some m =>
      rw [hm] at hk
      rcases saveRoute_cases k m (disk.get? k) with ⟨hkeep,_⟩ | ⟨e,he,_,hpos,_⟩
      · exact hr k d (hkeep.symm.trans hk)
      · cases he.symm.trans hk
        exact hpos

/-- What `merge_and_save` makes of them, for a body that records on top of disk. -/
theorem bump_advances (hr : Revised disk) (hg : ∀ k, Grown (disk.get? k) (routes.get? k)) : Advances disk
    (bumpRevisions disk routes) ∧ Revised (bumpRevisions disk routes) := by
  constructor
  · intro k d hk
    have hgk := hg k
    rw [hk] at hgk
    rw [bumpRevisions,Dict.get?_mapValues,hk]
    rcases hgk with hsame | ⟨e,he,hf⟩
    · exact .inl (by simp [hsame])
    · rw [he]
      by_cases heq : d = e
      · exact .inl (by simp [heq])
      · refine .inr ⟨{e with writeRevision := d.writeRevision + 1},by simp [heq],Nat.lt_succ_self _,?_⟩
        exact fun t ht => hf.failures d rfl t ht
  · intro k d hk
    rw [bumpRevisions,Dict.get?_mapValues] at hk
    obtain ⟨e,_,rfl⟩ := map_eq_some_iff.mp hk
    split
    · rename_i hsame
      exact hr k e hsame
    · simp

theorem revoke_rest (r : RevocationArgs) (s : Sections ρ) :
    (revoke r s).routes = s.routes ∧ (revoke r s).cooldowns = s.cooldowns := by
  unfold revoke
  split <;> exact ⟨rfl,rfl⟩

variable {fresh : EvidenceFresh} {ops : SchedulingOps ρ}

theorem step_routes {t : State ρ} {a : Act ρ} (hi : RouteInv s) (h : step fresh ops s a = some t) :
    RouteInv t ∧ Advances s.file.routes t.file.routes := by
  have hself : ∀ k m, s.file.routes.get? k = some m → Derived m (s.file.routes.get? k) :=
    fun k m hm => hm.symm ▸ .refl m
  cases a with
  | reopen i =>
    cases h
    exact ⟨hi.setCache hself,.refl _⟩
  | mutate i m =>
    obtain ⟨c,hc,rfl⟩ := map_eq_some_iff.mp h
    split
    · rename_i mem hm
      refine ⟨hi.setCache fun k e he => ?_,.refl _⟩
      have hgrow := apply_grown hm k
      rw [he] at hgrow
      exact .grown hi.revised (hi.derived i c hc k) hgrow
    · exact ⟨hi,.refl _⟩
  | save i =>
    obtain ⟨c,hc,rfl⟩ := map_eq_some_iff.mp h
    obtain ⟨hadv,hrev⟩ := save_advances hi.revised (hi.derived i c hc)
    exact ⟨hi.publish hadv hrev,hadv⟩
  | reload i =>
    obtain ⟨c,hc,rfl⟩ := map_eq_some_iff.mp h
    split
    · exact ⟨hi.setCache hself,.refl _⟩
    · refine ⟨hi.setCache fun k m hm => ?_,.refl _⟩
      simp only [reloadOver,Dict.get?_mergeWith] at hm
      split at hm
      · rename_i b hb
        have hmine := hi.derived i c hc k b (Dict.get?_changedFrom _ _ hb).1
        cases hd : s.file.routes.get? k with
        | none =>
          rw [hd] at hm hmine
          cases hm
          exact hmine
        | some d =>
          rw [hd] at hm hmine
          simp only [reloadRoute] at hm
          split at hm
          · cases hm
            exact hmine
          · cases hm
            exact .refl m
      · exact hself k m hm
  | mergeAndSave i body =>
    obtain ⟨c,hc,rfl⟩ := map_eq_some_iff.mp h
    have hgrow := runMutations_grown fresh s.file body
    split
    · rename_i mem hm
      rw [hm] at hgrow
      obtain ⟨hadv,hrev⟩ := bump_advances hi.revised hgrow
      exact ⟨hi.publish hadv hrev,hadv⟩
    · rename_i mem hm
      rw [hm] at hgrow
      refine ⟨hi.setCache fun k e he => ?_,.refl _⟩
      have hk := hgrow k
      rw [he] at hk
      exact .grown hi.revised (hself k) hk
  | recordRevocation i r =>
    obtain ⟨c,hc,rfl⟩ := map_eq_some_iff.mp h
    split
    · have hadv : Advances s.file.routes (revoke r s.file).routes := (revoke_rest r s.file).1 ▸ .refl _
      have hpub := hi.publish (i := i) hadv ((revoke_rest r s.file).1 ▸ hi.revised)
      exact ⟨⟨hpub.revised,hpub.derived⟩,hadv⟩
    · exact ⟨hi,.refl _⟩
  | commitDispatch i c =>
    obtain ⟨_,_,rfl⟩ := map_eq_some_iff.mp h
    split
    · have hadv : Advances s.file.routes (commit c s.file).routes := (commit_rest c s.file).2.1 ▸ .refl _
      have hpub := hi.publish (i := i) hadv ((commit_rest c s.file).2.1 ▸ hi.revised)
      exact ⟨⟨hpub.revised,hpub.derived⟩,hadv⟩
    · exact ⟨hi,.refl _⟩

/-- The file knows a failure of the route at or after `t`. -/
def FailureOnFile (s : State ρ) (route : String) (t : Time) : Prop :=
  ∃ d, s.file.routes.get? route = some d ∧ d.FailedSince t

variable {u : State ρ}

theorem step_failureOnFile {a : Act ρ} (hi : RouteInv s)
    (hf : FailureOnFile s route t) (h : step fresh ops s a = some u) : FailureOnFile u route t := by
  obtain ⟨d,hd,ht⟩ := hf
  rcases (step_routes hi h).2 route d hd with hd' | ⟨d',hd',_,hkeep⟩
  · exact ⟨d,hd',ht⟩
  · exact ⟨d',hd',hkeep t ht⟩

variable {as : List (Act ρ)}

theorem exec_routeInv (hi : RouteInv s) (h : exec (step fresh ops) s as = some u) : RouteInv u :=
  exec_invariant (fun _ _ _ hs he => (step_routes hs he).1) h hi

theorem exec_failureOnFile (hi : RouteInv s)
    (hf : FailureOnFile s route t) (h : exec (step fresh ops) s as = some u) : FailureOnFile u route t :=
  (exec_invariant (I := fun v => RouteInv v ∧ FailureOnFile v route t)
    (fun _ _ _ hs he => ⟨(step_routes hs.1 he).1,step_failureOnFile hs.1 hs.2 he⟩) h ⟨hi,hf⟩).2

/-- No commit for the route with a proof qualified by `t` mints a permit in this state. -/
def DeniesProofsUntil (fresh : EvidenceFresh) (ops : SchedulingOps ρ) (s : State ρ) (route : String) (t : Time) : Prop :=
  ∀ j c u, c.routeId = route → c.qualifiedAt ≤ t → step fresh ops s (.commitDispatch j c) = some u →
    u.permits = s.permits

theorem denies_of_failureOnFile (h : FailureOnFile s route t) : DeniesProofsUntil fresh ops s route t := by
  intro j c u hroute hq hstep
  obtain ⟨d,hd,x,hx,htx⟩ := h
  have hdenied : c.routeDenied (s.file.routes.get? c.routeId) = true := by
    rw [hroute,hd]
    simp [CommitArgs.routeDenied,hx,le_trans hq htx]
  have hdeny : c.grants s.file = false := by simp [CommitArgs.grants,hdenied]
  obtain ⟨_,_,rfl⟩ := map_eq_some_iff.mp hstep
  split
  · simp [minted,hdeny]
  · rfl

/-- Object `i` makes no call that reads or writes the file. -/
def Act.quiet (i : ℕ) : Act ρ → Prop
  | .mutate _ _ => True
  | .reopen j | .save j | .reload j | .mergeAndSave j _ | .recordRevocation j _ | .commitDispatch j _ => j ≠ i

/-- Object `i` called `record` with a failing result at `t`, and is about to save. -/
structure Recorded (fresh : EvidenceFresh) (ops : SchedulingOps ρ) (i : ℕ) (route : String) (result : ProbeResult)
    (t : Time) (s₀ s : State ρ) (between : List (Act ρ)) : Prop where
  failing : result.healthy = false
  returned : ∃ c e, s₀.caches i = some c ∧ recordEntry fresh route (c.mem.routes.get? route) result t = .ok e
  quiet : ∀ a ∈ between, a.quiet i
  run : exec (step fresh ops) s₀ (.mutate i (.record route result t) :: between) = some s

/-- Object `i` holds an entry for the route that knows a failure since `t`. -/
def FailureInMemory (s : State ρ) (i : ℕ) (route : String) (t : Time) : Prop :=
  ∃ c m, s.caches i = some c ∧ c.mem.routes.get? route = some m ∧ m.FailedSince t

theorem setCache_self (s : State ρ) (i : ℕ) (c : Cache ρ) : (s.setCache i c).caches i = some c := by
  simp [State.setCache]

theorem setCache_ne {j : ℕ} (h : j ≠ i) : (s.setCache j c).caches i = s.caches i := by
  simp [State.setCache,Function.update_of_ne h.symm]

theorem step_failureInMemory {a : Act ρ} (hf : FailureInMemory s i route t) (hq : a.quiet i)
    (h : step fresh ops s a = some u) : FailureInMemory u i route t := by
  have hother : u.caches i = s.caches i → FailureInMemory u i route t := by
    intro hc
    obtain ⟨c,m,hci,hm,hfail⟩ := hf
    exact ⟨c,m,hc.trans hci,hm,hfail⟩
  cases a with
  | mutate j m =>
    obtain ⟨c,hc,rfl⟩ := map_eq_some_iff.mp h
    split
    · rename_i mem hm
      by_cases hj : j = i
      · subst hj
        obtain ⟨c',e,hc',he,hfail⟩ := hf
        cases hc'.symm.trans hc
        obtain ⟨e',he',hfail'⟩ := (apply_grown hm route).failed_of_some ⟨e,he,hfail⟩
        exact ⟨_,e',setCache_self _ _ _,he',hfail'⟩
      · obtain ⟨c',e,hc',he,hfail⟩ := hf
        exact ⟨c',e,(setCache_ne hj).trans hc',he,hfail⟩
    · exact hf
  | reopen j => cases h; exact hother (setCache_ne hq)
  | save j =>
    obtain ⟨c,hc,rfl⟩ := map_eq_some_iff.mp h
    exact hother (setCache_ne hq)
  | reload j =>
    obtain ⟨c,hc,rfl⟩ := map_eq_some_iff.mp h
    refine hother ?_
    split <;> exact setCache_ne hq
  | mergeAndSave j body =>
    obtain ⟨c,hc,rfl⟩ := map_eq_some_iff.mp h
    refine hother ?_
    split <;> exact setCache_ne hq
  | recordRevocation j r =>
    obtain ⟨c,hc,rfl⟩ := map_eq_some_iff.mp h
    refine hother ?_
    split
    · exact setCache_ne hq
    · rfl
  | commitDispatch j c =>
    obtain ⟨_,_,rfl⟩ := map_eq_some_iff.mp h
    refine hother ?_
    split
    · exact setCache_ne hq
    · rfl

theorem exec_failureInMemory (hf : FailureInMemory s i route t) (hq : ∀ a ∈ as, a.quiet i) (h : exec (step fresh ops) s as = some u) :
    FailureInMemory u i route t := by
  induction as generalizing s with
  | nil => cases h; exact hf
  | cons a as ih =>
    obtain ⟨v,hv,hrest⟩ := exec_cons h
    exact ih (step_failureInMemory hf (hq a List.mem_cons_self) hv)
      (fun b hb => hq b (List.mem_cons_of_mem _ hb)) hrest

variable {result : ProbeResult} {s₀ : State ρ}

theorem Recorded.inMemory {between : List (Act ρ)} (h : Recorded fresh ops i route result t s₀ s between) : FailureInMemory s i route t := by
  obtain ⟨v,hv,hrest⟩ := exec_cons h.run
  obtain ⟨c,e,hc,he⟩ := h.returned
  refine exec_failureInMemory ?_ h.quiet hrest
  simp only [step,hc,map_some,Mutation.apply,he,Except.map,storeRoute,Option.some.injEq] at hv
  subst hv
  exact ⟨_,e,setCache_self _ _ _,Dict.get?_set_self _ _ _,recordEntry_failed he h.failing⟩

/-- The merge rule of `save` lets the entry of object `i` through: the file has none, or
an older one of no newer revision. -/
def SaveAccepts (s : State ρ) (i : ℕ) (route : String) : Prop :=
  ∀ c m d, s.caches i = some c → c.mem.routes.get? route = some m → s.file.routes.get? route = some d →
    d.writeRevision ≤ m.writeRevision ∧ d.checkedAt < m.checkedAt

theorem save_failureOnFile (hf : FailureInMemory s i route t)
    (hacc : SaveAccepts s i route) (h : step fresh ops s (.save i) = some u) : FailureOnFile u route t := by
  obtain ⟨c,m,hc,hm,hfail⟩ := hf
  simp only [step,hc,map_some,Option.some.injEq] at h
  subst h
  simp only [FailureOnFile,State.publish,mergeOverDisk,Dict.get?_mergeWith,hm]
  cases hd : s.file.routes.get? route with
  | none => exact ⟨_,rfl,hfail⟩
  | some d =>
    refine ⟨{m with writeRevision := d.writeRevision + 1},?_,hfail⟩
    simp [saveRoute,hacc c m d hc hm hd]

variable {body : List (Mutation ρ)}

theorem runMutations_failed {s : Sections ρ} (hmem : .record route result t ∈ body)
    (hf : result.healthy = false) (hok : (runMutations fresh s body).2 = true) : ∃ e,
    (runMutations fresh s body).1.routes.get? route = some e ∧ e.FailedSince t := by
  induction body generalizing s with
  | nil => simp at hmem
  | cons m body ih =>
    cases hm : m.apply fresh s with
    | error e => simp [runMutations,hm] at hok
    | ok s' =>
      simp only [runMutations,hm] at hok ⊢
      rcases List.mem_cons.mp hmem with rfl | hmem
      · cases he : recordEntry fresh route (s.routes.get? route) result t with
        | error _ => simp [Mutation.apply,he,Except.map,storeRoute] at hm
        | ok e =>
          simp only [Mutation.apply,he,Except.map,storeRoute,Except.ok.injEq] at hm
          subst hm
          exact (runMutations_grown fresh _ body route).failed_of_some
            ⟨e,Dict.get?_set_self _ _ _,recordEntry_failed he hf⟩
      · exact ih hmem hok

theorem mergeAndSave_failureOnFile (hmem : .record route result t ∈ body) (hf : result.healthy = false)
    (hok : (runMutations fresh s.file body).2 = true) (h : step fresh ops s (.mergeAndSave i body) = some u) :
    FailureOnFile u route t := by
  obtain ⟨e,he,hfail⟩ := runMutations_failed hmem hf hok
  obtain ⟨c,hc,rfl⟩ := map_eq_some_iff.mp h
  split
  · rename_i mem hm
    rw [hm] at he
    refine ⟨_,by simp only [State.publish,bumpRevisions,Dict.get?_mapValues,he]; rfl,?_⟩
    dsimp only
    split
    · exact hfail
    · exact hfail
  · rename_i mem hm
    rw [hm] at hok
    cases hok

/-- A failing `record` at `t` reached the file: the following `save` let the entry
through (or the file knew such a failure already), or the call was made inside
`merge_and_save`. -/
inductive Published (fresh : EvidenceFresh) (ops : SchedulingOps ρ) (route : String) (t : Time) (s₀ s₁ : State ρ) : Prop
  | saved {i : ℕ} {result : ProbeResult} {s : State ρ} {between : List (Act ρ)}
      (recorded : Recorded fresh ops i route result t s₀ s between)
      (accepted : SaveAccepts s i route ∨ FailureOnFile s route t)
      (save : step fresh ops s (.save i) = some s₁)
  | merged {i : ℕ} {result : ProbeResult} {body : List (Mutation ρ)} (failing : result.healthy = false)
      (called : .record route result t ∈ body) (returned : (runMutations fresh s₀.file body).2 = true)
      (save : step fresh ops s₀ (.mergeAndSave i body) = some s₁)

theorem Published.onFile {s₁ : State ρ} (hi : RouteInv s₀)
    (h : Published fresh ops route t s₀ s₁) : RouteInv s₁ ∧ FailureOnFile s₁ route t := by
  cases h with
  | saved recorded accepted save =>
    have his := exec_routeInv hi recorded.run
    refine ⟨(step_routes his save).1,?_⟩
    rcases accepted with hacc | hknown
    · exact save_failureOnFile recorded.inMemory hacc save
    · exact step_failureOnFile his hknown save
  | merged failing called returned save =>
    exact ⟨(step_routes hi save).1,mergeAndSave_failureOnFile called failing returned save⟩

/-- A published failure denies every later commit whose proof is not younger than it,
whatever successes other writers record and save afterwards. -/
theorem published_failure_outdates_proofs {before after : List (Act ρ)} {s₀ s₁ u : State ρ}
    (hs : exec (step fresh ops) (State.initial ops) before = some s₀)
    (hp : Published fresh ops route t s₀ s₁)
    (hu : exec (step fresh ops) s₁ after = some u) : DeniesProofsUntil fresh ops u route t := by
  obtain ⟨hi,hfile⟩ := hp.onFile (exec_routeInv (.initial ops) hs)
  exact denies_of_failureOnFile (exec_failureOnFile hi hfile hu)

def timedOut : ProbeResult := {category := .timeout, chatOk := false, toolOk := false}

def passedProbe : ProbeResult := {category := .ok, chatOk := true, toolOk := true, httpStatus := some 200}

/-- A failure at second 10 is saved; a success at second 15 does not revive the proof
from second 1. -/
theorem published_failure_outdates_proofs_recovery : ∃ s₀ s s₁ u, exec (step {} noScheduling)
    (State.initial noScheduling) [.reopen 0] = some s₀ ∧ Recorded {} noScheduling 0 "cc/model" timedOut
    (seconds 10) s₀ s [] ∧ step {} noScheduling s (.save 0) = some s₁ ∧ exec (step {} noScheduling) s₁
    [.reopen 1,.mutate 1 (.record "cc/model" passedProbe (seconds 15)),.save 1] = some u ∧ DeniesProofsUntil
    {} noScheduling u "cc/model" (seconds 10) := by
  refine ⟨_,_,_,_,rfl,⟨by decide,⟨_,_,rfl,rfl⟩,by simp,rfl⟩,rfl,rfl,?_⟩
  have hbefore : exec (step {} noScheduling) (State.initial noScheduling) [.reopen 0] = some _ := rfl
  refine published_failure_outdates_proofs hbefore (.saved
    (show Recorded {} noScheduling 0 "cc/model" timedOut (seconds 10) _ _ [] from ⟨by decide,⟨_,_,rfl,rfl⟩,by simp,rfl⟩)
    (.inl ?_) rfl)
    (show exec (step {} noScheduling) _
      [.reopen 1,.mutate 1 (.record "cc/model" passedProbe (seconds 15)),.save 1] = some _ from rfl)
  rintro c m d _ _ hd
  cases hd

/-- Object 1 saves a success of second 11 first. The save of object 0 then drops its
failure of second 10, and a commit with the proof from second 1 is granted. -/
theorem dropped_failure_mints : ∃ s₀ s s₁, exec (step {} noScheduling) (State.initial noScheduling)
    [.reopen 0,.reopen 1,.mutate 1 (.record "cc/model" passedProbe (seconds 11)),.save 1] = some s₀ ∧
    Recorded {} noScheduling 0 "cc/model" timedOut (seconds 10) s₀ s [] ∧ step {} noScheduling s (.save 0) =
    some s₁ ∧ ¬ DeniesProofsUntil {} noScheduling s₁ "cc/model" (seconds 10) := by
  refine ⟨_,_,_,rfl,⟨by decide,⟨_,_,rfl,rfl⟩,by simp,rfl⟩,rfl,fun h => ?_⟩
  have hkept := h 0 (commitAt "a1" 0) _ rfl (by decide) rfl
  revert hkept
  decide

end Verdict.HealthCache

import Verdict.HealthCache.Failure

/-! # What a reload shows and what a save publishes

Both merge the memory of an object over a newer file. `save` offers every entry and wants a
current revision, `reload` offers what changed since the object last matched the file and asks for
the time alone. The two agree exactly when no changed entry that is newer by time is behind the
file by revision, and the save puts back nothing that did not change.
-/
namespace Verdict.HealthCache
open Run
open Dict (get?_changedFrom_eq get?_mergeWith mergeLoop)
open Option (filter_none filter_some map_eq_some_iff)
variable {ρ : Type}

def HealthEntry.unrevised (e : HealthEntry) : HealthEntry := {e with writeRevision := 0}

def Sections.Keyed (s : Sections ρ) : Prop := ∀ k c, s.cooldowns.get? k = some c → c.key = k

/-- Two views show the same routes up to revisions, cooldowns and dispatch records. -/
structure Agree (a b : Sections ρ) : Prop where
  routes : ∀ k, (a.routes.get? k).map HealthEntry.unrevised = (b.routes.get? k).map HealthEntry.unrevised
  cooldowns : ∀ k, a.cooldowns.get? k = b.cooldowns.get? k
  scopes : a.scopes = b.scopes
  attempts : a.attempts = b.attempts

/-- An entry that changed in memory and is newer than the one on disk has its revision. -/
def CurrentChanges (mine loaded disk : Sections ρ) : Prop :=
  ∀ k m d, mine.routes.get? k = some m → loaded.routes.get? k ≠ some m → disk.routes.get? k = some d →
    d.checkedAt < m.checkedAt → d.writeRevision ≤ m.writeRevision

/-- An entry that did not change in memory is on disk, or a newer revision of it. -/
def RoutesKept (mine loaded disk : Sections ρ) : Prop :=
  ∀ k m, mine.routes.get? k = some m → loaded.routes.get? k = some m →
    ∃ d, disk.routes.get? k = some d ∧ (d.checkedAt < m.checkedAt → m.writeRevision < d.writeRevision)

/-- A cooldown that did not change in memory is on disk, or one with a later deadline. -/
def CooldownsKept (mine loaded disk : Sections ρ) : Prop :=
  ∀ k c, mine.cooldowns.get? k = some c → loaded.cooldowns.get? k = some c →
    ∃ d, disk.cooldowns.get? k = some d ∧ c.untilAt ≤ d.untilAt

section Merges
variable {mine loaded disk : Sections ρ}
variable {a b : HealthEntry}

theorem unrevised_checkedAt (h : a.unrevised = b.unrevised) : a.checkedAt = b.checkedAt := by
  have htime : a.unrevised.checkedAt = b.unrevised.checkedAt := congrArg HealthEntry.checkedAt h
  exact htime

theorem unrevised_ne (h : a.checkedAt < b.checkedAt) :
    (some b).map HealthEntry.unrevised ≠ (some a).map HealthEntry.unrevised :=
  fun heq => h.ne (unrevised_checkedAt (Option.some.inj heq)).symm

/-- What `save` makes of an entry agrees with the entry exactly when it is let through, and with
the one on disk exactly when it is not. -/
theorem saveRoute_unrevised (k : String) (m d : HealthEntry) :
    ((saveRoute k m (some d)).orElse fun _ => some d).map HealthEntry.unrevised
      = if d.writeRevision ≤ m.writeRevision ∧ d.checkedAt < m.checkedAt then some m.unrevised else some d.unrevised := by
  rw [saveRoute]
  split <;> rfl

theorem reloadRoute_unrevised (k : String) (m d : HealthEntry) :
    ((reloadRoute k m (some d)).orElse fun _ => some d).map HealthEntry.unrevised
      = if d.checkedAt < m.checkedAt then some m.unrevised else some d.unrevised := by
  rw [reloadRoute]
  split <;> rfl

def laterCooldown (_ : String) (c : ScopedCooldown) : Option ScopedCooldown → Option ScopedCooldown
  | none => some c
  | some existing => if c.untilAt ≤ existing.untilAt then none else some c

theorem foldl_recordCooldown {xs : List (String × ScopedCooldown)} (h : ∀ e ∈ xs, e.2.key = e.1)
    (d : Dict String ScopedCooldown) : (xs.map Prod.snd).foldl recordCooldown d = mergeLoop laterCooldown d xs := by
  induction xs generalizing d with
  | nil => rfl
  | cons e rest ih =>
    obtain ⟨he,hrest⟩ := List.forall_mem_cons.mp h
    have hone : recordCooldown d e.2 = mergeLoop laterCooldown d [e] := by
      simp only [recordCooldown,he,mergeLoop,List.foldl_cons,List.foldl_nil]
      cases d.get? e.1 with
      | none => rfl
      | some existing =>
        simp only [laterCooldown]
        split <;> rfl
    rw [List.map_cons,List.foldl_cons,ih hrest,hone]
    rfl

theorem recordAll_eq {cooldowns : Dict String ScopedCooldown} (h : ∀ k c, cooldowns.get? k = some c → c.key = k)
    (d : Dict String ScopedCooldown) :
    cooldowns.values.foldl recordCooldown d = Dict.mergeWith laterCooldown cooldowns d :=
  foldl_recordCooldown (fun e he => h e.1 e.2 ((Dict.mem_entries_iff cooldowns e.1 e.2).mp he)) d

/-- An unchanged entry: `save` keeps what is on disk. -/
theorem save_keeps_iff (k : String) (m : HealthEntry) (disk : Option HealthEntry) :
    disk.map HealthEntry.unrevised = ((saveRoute k m disk).orElse fun _ => disk).map HealthEntry.unrevised ↔
      ∃ d, disk = some d ∧ (d.checkedAt < m.checkedAt → m.writeRevision < d.writeRevision) := by
  cases disk with
  | none => exact iff_of_false (fun h => nomatch h) fun ⟨d,hd,_⟩ => nomatch hd
  | some d =>
    rw [saveRoute_unrevised]
    constructor
    · intro h
      refine ⟨d,rfl,fun hlt => not_le.mp fun hle => ?_⟩
      rw [if_pos ⟨hle,hlt⟩] at h
      exact unrevised_ne hlt h.symm
    · rintro ⟨d,⟨⟩,hbehind⟩
      exact (if_neg fun h => (hbehind h.2).not_ge h.1).symm

/-- A changed entry: `reload` and `save` decide alike. -/
theorem reload_save_iff (k : String) (m : HealthEntry) (disk : Option HealthEntry) :
    ((reloadRoute k m disk).orElse fun _ => disk).map HealthEntry.unrevised
        = ((saveRoute k m disk).orElse fun _ => disk).map HealthEntry.unrevised ↔
      ∀ d, disk = some d → d.checkedAt < m.checkedAt → d.writeRevision ≤ m.writeRevision := by
  cases disk with
  | none => exact iff_of_true rfl fun d hd => nomatch hd
  | some d =>
    rw [saveRoute_unrevised,reloadRoute_unrevised]
    constructor
    · rintro h d ⟨⟩ hlt
      by_contra hbehind
      rw [if_pos hlt,if_neg fun h => hbehind h.1] at h
      exact unrevised_ne hlt h
    · intro hcurrent
      by_cases hlt : d.checkedAt < m.checkedAt
      · rw [if_pos hlt,if_pos ⟨hcurrent d rfl hlt,hlt⟩]
      · rw [if_neg hlt,if_neg fun h => hlt h.2]

theorem filter_changed {α : Type} [DecidableEq α] (a : α) (loaded : Option α) :
    (some a).filter (fun b => decide (loaded ≠ some b)) = if loaded = some a then none else some a := by
  by_cases h : loaded = some a
  · rw [if_pos h,filter_some,if_neg (by simpa using h)]
  · rw [if_neg h,filter_some,if_pos (by simpa using h)]

variable (ops : SchedulingOps ρ)
variable {k : String}

theorem agree_route_iff {m : HealthEntry} (hm : mine.routes.get? k = some m) :
    ((reloadOver ops mine loaded disk).routes.get? k).map HealthEntry.unrevised
        = ((mergeOverDisk ops mine disk).routes.get? k).map HealthEntry.unrevised ↔
      (loaded.routes.get? k ≠ some m → ∀ d, disk.routes.get? k = some d → d.checkedAt < m.checkedAt →
        d.writeRevision ≤ m.writeRevision) ∧
      (loaded.routes.get? k = some m → ∃ d, disk.routes.get? k = some d ∧
        (d.checkedAt < m.checkedAt → m.writeRevision < d.writeRevision)) := by
  simp only [reloadOver,mergeOverDisk,get?_mergeWith,get?_changedFrom_eq,hm,filter_changed]
  by_cases hl : loaded.routes.get? k = some m
  · rw [if_pos hl,save_keeps_iff]
    exact ⟨fun h => ⟨fun hne => absurd hl hne,fun _ => h⟩,fun h => h.2 hl⟩
  · rw [if_neg hl,reload_save_iff]
    exact ⟨fun h => ⟨fun _ => h,fun heq => absurd heq hl⟩,fun h => h.1 hl⟩

theorem later_keeps_iff (k : String) (c : ScopedCooldown) (disk : Option ScopedCooldown) :
    disk = (laterCooldown k c disk).orElse (fun _ => disk) ↔ ∃ d, disk = some d ∧ c.untilAt ≤ d.untilAt := by
  cases disk with
  | none => exact iff_of_false (fun h => nomatch h) fun ⟨d,hd,_⟩ => nomatch hd
  | some d =>
    rw [laterCooldown]
    split
    · rename_i hle
      exact iff_of_true rfl ⟨d,rfl,hle⟩
    · rename_i hlate
      refine iff_of_false (fun h => ?_) ?_
      · obtain rfl : d = c := Option.some.inj h
        exact hlate le_rfl
      · rintro ⟨d,⟨⟩,hle⟩
        exact hlate hle

theorem Sections.Keyed.changedFrom (hkeyed : mine.Keyed) (k : String) (c : ScopedCooldown)
    (h : (mine.cooldowns.changedFrom loaded.cooldowns).get? k = some c) : c.key = k :=
  hkeyed k c (Dict.get?_changedFrom _ _ h).1

theorem agree_cooldown_iff (hkeyed : mine.Keyed) {c : ScopedCooldown} (hc : mine.cooldowns.get? k = some c) :
    (reloadOver ops mine loaded disk).cooldowns.get? k = (mergeOverDisk ops mine disk).cooldowns.get? k ↔
      (loaded.cooldowns.get? k = some c → ∃ d, disk.cooldowns.get? k = some d ∧ c.untilAt ≤ d.untilAt) := by
  simp only [reloadOver,mergeOverDisk,recordAll_eq hkeyed,recordAll_eq hkeyed.changedFrom,get?_mergeWith,
    get?_changedFrom_eq,hc,filter_changed]
  by_cases hl : loaded.cooldowns.get? k = some c
  · rw [if_pos hl,later_keeps_iff]
    exact ⟨fun h _ => h,fun h => h hl⟩
  · rw [if_neg hl]
    exact iff_of_true rfl fun h => absurd h hl

theorem agree_disk (hm : mine.routes.get? k = none) :
    (reloadOver ops mine loaded disk).routes.get? k = (mergeOverDisk ops mine disk).routes.get? k := by
  simp only [reloadOver,mergeOverDisk,get?_mergeWith,get?_changedFrom_eq,hm,filter_none]

theorem agree_disk_cooldown (hkeyed : mine.Keyed) (hc : mine.cooldowns.get? k = none) :
    (reloadOver ops mine loaded disk).cooldowns.get? k = (mergeOverDisk ops mine disk).cooldowns.get? k := by
  simp only [reloadOver,mergeOverDisk,recordAll_eq hkeyed,recordAll_eq hkeyed.changedFrom,get?_mergeWith,
    get?_changedFrom_eq,hc,filter_none]

theorem agree_iff (hkeyed : mine.Keyed) :
    Agree (reloadOver ops mine loaded disk) (mergeOverDisk ops mine disk) ↔
      CurrentChanges mine loaded disk ∧ RoutesKept mine loaded disk ∧ CooldownsKept mine loaded disk := by
  constructor
  · intro h
    refine ⟨fun k m d hm hl hd => ?_,fun k m hm => ?_,fun k c hc => ?_⟩
    · exact ((agree_route_iff ops hm).mp (h.routes k)).1 hl d hd
    · exact ((agree_route_iff ops hm).mp (h.routes k)).2
    · exact (agree_cooldown_iff ops hkeyed hc).mp (h.cooldowns k)
  · rintro ⟨hcurrent,hroutes,hcooldowns⟩
    refine ⟨fun k => ?_,fun k => ?_,rfl,rfl⟩
    · cases hm : mine.routes.get? k with
      | none => rw [agree_disk ops hm]
      | some m => exact (agree_route_iff ops hm).mpr ⟨fun hl d => hcurrent k m d hm hl,hroutes k m hm⟩
    · cases hc : mine.cooldowns.get? k with
      | none => exact agree_disk_cooldown ops hkeyed hc
      | some c => exact (agree_cooldown_iff ops hkeyed hc).mpr (hcooldowns k c hc)

def Publishes (shown disk : Sections ρ) : Prop :=
  ∀ k e, shown.routes.get? k = some e →
    ((mergeOverDisk ops shown disk).routes.get? k).map HealthEntry.unrevised = some e.unrevised

variable {e : HealthEntry}

theorem publishes_entry_iff {shown : Sections ρ} (he : shown.routes.get? k = some e) :
    ((mergeOverDisk ops shown disk).routes.get? k).map HealthEntry.unrevised = some e.unrevised ↔
      ∀ d, disk.routes.get? k = some d → d.unrevised = e.unrevised ∨
        (d.checkedAt < e.checkedAt ∧ d.writeRevision ≤ e.writeRevision) := by
  simp only [mergeOverDisk,get?_mergeWith,he]
  cases hd : disk.routes.get? k with
  | none => exact iff_of_true rfl (by simp)
  | some d =>
    rw [saveRoute_unrevised]
    split
    · rename_i hok
      refine iff_of_true rfl ?_
      rintro d ⟨⟩
      exact .inr hok.symm
    · rename_i hbad
      constructor
      · rintro h d ⟨⟩
        exact .inl (Option.some.inj h)
      · intro h
        rcases h d rfl with heq | hok
        · rw [heq]
        · exact absurd hok.symm hbad

theorem shown_iff :
    (reloadOver ops mine loaded disk).routes.get? k = some e ↔
      (mine.routes.get? k = some e ∧ loaded.routes.get? k ≠ some e ∧ ∀ d, disk.routes.get? k = some d → d.checkedAt < e.checkedAt)
        ∨ (disk.routes.get? k = some e ∧ ∀ m, mine.routes.get? k = some m → loaded.routes.get? k ≠ some m →
          ¬ e.checkedAt < m.checkedAt) := by
  rw [reloadOver,get?_mergeWith,get?_changedFrom_eq]
  cases hm : mine.routes.get? k with
  | none => simp
  | some m =>
    rw [filter_changed]
    by_cases hl : loaded.routes.get? k = some m
    · rw [if_pos hl]
      constructor
      · exact fun h => .inr ⟨h,fun m' hm' hne => absurd (Option.some.inj hm' ▸ hl) hne⟩
      · rintro (⟨hme,hne,-⟩ | ⟨h,-⟩)
        · exact absurd (Option.some.inj hme ▸ hl) hne
        · exact h
    · rw [if_neg hl]
      cases hd : disk.routes.get? k with
      | none =>
        constructor
        · rintro ⟨⟩
          exact .inl ⟨rfl,hl,by simp⟩
        · rintro (⟨hme,-⟩ | ⟨h,-⟩)
          · exact hme
          · cases h
      | some d =>
        by_cases hlt : d.checkedAt < m.checkedAt
        · simp only [reloadRoute,if_pos hlt,Option.orElse_some,Option.some.injEq]
          constructor
          · rintro rfl
            exact .inl ⟨rfl,hl,fun d' hd' => hd' ▸ hlt⟩
          · rintro (⟨hme,-⟩ | ⟨rfl,hold⟩)
            · exact hme
            · exact absurd hlt (hold m rfl hl)
        · simp only [reloadRoute,if_neg hlt,Option.orElse_none,Option.some.injEq]
          constructor
          · rintro rfl
            exact .inr ⟨rfl,fun m' hm' _ => hm' ▸ hlt⟩
          · rintro (⟨rfl,-,hnew⟩ | ⟨hde,-⟩)
            · exact absurd (hnew d rfl) hlt
            · exact hde

theorem publishes_iff : Publishes ops (reloadOver ops mine loaded disk) disk ↔ CurrentChanges mine loaded disk := by
  constructor
  · intro h k m d hm hl hd hlt
    have hshown : (reloadOver ops mine loaded disk).routes.get? k = some m :=
      (shown_iff ops).mpr (.inl ⟨hm,hl,fun d' hd' => Option.some.inj (hd.symm.trans hd') ▸ hlt⟩)
    rcases (publishes_entry_iff ops hshown).mp (h k m hshown) d hd with heq | hok
    · exact absurd (unrevised_checkedAt heq) hlt.ne
    · exact hok.2
  · intro hcurrent k e hshown
    refine (publishes_entry_iff ops hshown).mpr fun d hd => ?_
    rcases (shown_iff ops).mp hshown with ⟨hm,hl,hnew⟩ | ⟨hdisk,-⟩
    · exact .inr ⟨hnew d hd,hcurrent k e d hm hl hd (hnew d hd)⟩
    · exact .inl (Option.some.inj (hd.symm.trans hdisk) ▸ rfl)

end Merges

section Reachable
variable {fresh : EvidenceFresh} {ops : SchedulingOps ρ}

theorem Advances.trans {a b c : Dict String HealthEntry} (hab : Advances a b) (hbc : Advances b c) : Advances a c := by
  intro k d hd
  rcases hab k d hd with hsame | ⟨e,he,hlt,hfail⟩
  · exact hbc k d hsame
  · rcases hbc k e he with hsame | ⟨e',he',hlt',hfail'⟩
    · exact .inr ⟨e,hsame,hlt,hfail⟩
    · exact .inr ⟨e',he',hlt.trans hlt',fun t ht => hfail' t (hfail t ht)⟩

variable {cooldowns : Dict String ScopedCooldown}

theorem recordCooldown_keyed (h : ∀ k c, cooldowns.get? k = some c → c.key = k)
    (c : ScopedCooldown) : ∀ k c', (recordCooldown cooldowns c).get? k = some c' → c'.key = k := by
  have hset : ∀ k c', (cooldowns.set c.key c).get? k = some c' → c'.key = k := by
    intro k c' hc'
    rw [Dict.get?_set] at hc'
    split at hc'
    · rename_i hk
      rw [← Option.some.inj hc',hk]
    · exact h k c' hc'
  unfold recordCooldown
  split
  · split
    · exact h
    · exact hset
  · exact hset

theorem foldl_recordCooldown_keyed (cs : List ScopedCooldown)
    (h : ∀ k c, cooldowns.get? k = some c → c.key = k) :
    ∀ k c, (cs.foldl recordCooldown cooldowns).get? k = some c → c.key = k := by
  induction cs generalizing cooldowns with
  | nil => exact h
  | cons c cs ih => exact ih (recordCooldown_keyed h c)

variable {t : Sections ρ}

theorem storeRoute_cooldowns {s : Sections ρ} {route : String} {r : Except HealthCacheError (Option HealthEntry)}
    (h : storeRoute s route r = .ok t) : t.cooldowns = s.cooldowns := by
  rcases r with e | ⟨_ | entry⟩ <;> cases h <;> rfl

theorem Sections.Keyed.of_eq {s : Sections ρ} (h : s.Keyed) (heq : t.cooldowns = s.cooldowns) : t.Keyed :=
  fun k c hc => h k c (heq ▸ hc)

theorem apply_keyed {s : Sections ρ} {m : Mutation ρ} (hs : s.Keyed) (h : m.apply fresh s = .ok t) : t.Keyed := by
  cases m with
  | record => exact hs.of_eq (storeRoute_cooldowns h)
  | recordLiveness => exact hs.of_eq (storeRoute_cooldowns h)
  | recordPassiveTraffic => exact hs.of_eq (storeRoute_cooldowns h)
  | recordPassiveFailure => exact hs.of_eq (storeRoute_cooldowns h)
  | recordAgenticEvidence => exact hs.of_eq (storeRoute_cooldowns h)
  | recordCooldown c =>
    cases h
    exact recordCooldown_keyed hs c
  | clearCooldown key =>
    cases h
    exact fun k c hc => hs k c ((Dict.get?_pop _ _ _ _).mp hc).1
  | schedule => cases h; exact hs

theorem runMutations_keyed {s : Sections ρ} (hs : s.Keyed) (ms : List (Mutation ρ)) : (runMutations fresh s ms).1.Keyed := by
  induction ms generalizing s with
  | nil => exact hs
  | cons m ms ih =>
    simp only [runMutations]
    split
    · exact hs
    · rename_i t ht
      exact ih (apply_keyed hs ht)

/-- Cooldowns are filed under their keys everywhere, and the file has advanced from what each
object last matched. -/
structure ViewInv (s : State ρ) : Prop where
  file : s.file.Keyed
  views : ∀ i c, s.caches i = some c → c.mem.Keyed
  snapshots : ∀ i c, s.caches i = some c → Advances c.snapshot.routes s.file.routes

theorem ViewInv.initial (ops : SchedulingOps ρ) : ViewInv (State.initial ops) where
  file := fun _ _ h => nomatch h
  views := fun _ _ h => nomatch h
  snapshots := fun _ _ h => nomatch h

variable {s : State ρ} {i : ℕ} {c : Cache ρ}

theorem ViewInv.setCache (hv : ViewInv s) (hmem : c.mem.Keyed)
    (hsnap : Advances c.snapshot.routes s.file.routes) : ViewInv (s.setCache i c) where
  file := hv.file
  views := by
    intro j d hj
    rcases caches_setCache hj with rfl | hj
    · exact hmem
    · exact hv.views j d hj
  snapshots := by
    intro j d hj
    rcases caches_setCache hj with rfl | hj
    · exact hsnap
    · exact hv.snapshots j d hj

theorem ViewInv.publish (hv : ViewInv s) {sections : Sections ρ} (hkeyed : sections.Keyed)
    (hadv : Advances s.file.routes sections.routes) : ViewInv (s.publish i sections) where
  file := hkeyed
  views := by
    intro j d hj
    rcases caches_setCache (s := s) hj with rfl | hj
    · exact hkeyed
    · exact hv.views j d hj
  snapshots := by
    intro j d hj
    rcases caches_setCache (s := s) hj with rfl | hj
    · exact .refl _
    · exact (hv.snapshots j d hj).trans hadv

theorem step_views {t : State ρ} {a : Act ρ} (hi : RouteInv s) (hv : ViewInv s) (h : step fresh ops s a = some t) :
    ViewInv t := by
  have hadv := (step_routes hi h).2
  cases a with
  | reopen i =>
    cases h
    exact hv.setCache hv.file (.refl _)
  | mutate i m =>
    obtain ⟨c,hc,rfl⟩ := map_eq_some_iff.mp h
    split
    · rename_i mem hm
      exact hv.setCache (apply_keyed (hv.views i c hc) hm) (hv.snapshots i c hc)
    · exact hv
  | save i =>
    obtain ⟨c,hc,rfl⟩ := map_eq_some_iff.mp h
    exact hv.publish (foldl_recordCooldown_keyed _ hv.file) hadv
  | reload i =>
    obtain ⟨c,hc,rfl⟩ := map_eq_some_iff.mp h
    split
    · exact hv.setCache hv.file (.refl _)
    · exact hv.setCache (foldl_recordCooldown_keyed _ hv.file) (.refl _)
  | mergeAndSave i body =>
    obtain ⟨c,hc,rfl⟩ := map_eq_some_iff.mp h
    have hkeyed : (runMutations fresh s.file body).1.Keyed := runMutations_keyed hv.file body
    split
    · rename_i mem hm
      rw [hm] at hkeyed hadv
      exact hv.publish (hkeyed.of_eq rfl) hadv
    · rename_i mem hm
      rw [hm] at hkeyed
      exact hv.setCache hkeyed (.refl _)
  | recordRevocation i r =>
    obtain ⟨c,hc,rfl⟩ := map_eq_some_iff.mp h
    split
    · have hroutes : Advances s.file.routes (revoke r s.file).routes := (revoke_rest r s.file).1 ▸ .refl _
      have hpub := hv.publish (i := i) (hv.file.of_eq (revoke_rest r s.file).2) hroutes
      exact ⟨hpub.file,hpub.views,hpub.snapshots⟩
    · exact hv
  | commitDispatch i c =>
    obtain ⟨_,_,rfl⟩ := map_eq_some_iff.mp h
    split
    · have hroutes : Advances s.file.routes (commit c s.file).routes := (commit_rest c s.file).2.1 ▸ .refl _
      have hpub := hv.publish (i := i) (hv.file.of_eq (commit_rest c s.file).2.2) hroutes
      exact ⟨hpub.file,hpub.views,hpub.snapshots⟩
    · exact hv

theorem exec_views {t : State ρ} {as : List (Act ρ)} (hi : RouteInv s) (hv : ViewInv s)
    (h : exec (step fresh ops) s as = some t) : ViewInv t :=
  (exec_invariant (I := fun u => RouteInv u ∧ ViewInv u)
    (fun _ _ _ hu hstep => ⟨(step_routes hu.1 hstep).1,step_views hu.1 hu.2 hstep⟩) h ⟨hi,hv⟩).2

theorem ViewInv.routesKept (hv : ViewInv s) (hc : s.caches i = some c) :
    RoutesKept c.mem c.snapshot s.file := by
  intro k m _ hl
  rcases hv.snapshots i c hc k m hl with hsame | ⟨d,hd,hlt,-⟩
  · exact ⟨m,hsame,fun h => absurd h (lt_irrefl _)⟩
  · exact ⟨d,hd,fun _ => hlt⟩

end Reachable

/-- A reload shows what a save would publish exactly when the changed entries are current and the
unchanged ones are still on disk, and it shows no entry that the next save discards exactly when
the changed ones are current. On a shared file only the changed entries and the cleared cooldowns
can make a difference. -/
theorem reload_shows_save (fresh : EvidenceFresh) (ops : SchedulingOps ρ) :
    (∀ mine loaded disk : Sections ρ, mine.Keyed →
        (Agree (reloadOver ops mine loaded disk) (mergeOverDisk ops mine disk) ↔
          CurrentChanges mine loaded disk ∧ RoutesKept mine loaded disk ∧ CooldownsKept mine loaded disk))
      ∧ (∀ mine loaded disk : Sections ρ,
        Publishes ops (reloadOver ops mine loaded disk) disk ↔ CurrentChanges mine loaded disk)
      ∧ ∀ calls s, exec (step fresh ops) (State.initial ops) calls = some s → ∀ i c, s.caches i = some c →
        c.mem.Keyed ∧ RoutesKept c.mem c.snapshot s.file := by
  refine ⟨fun mine loaded disk hkeyed => agree_iff ops hkeyed,fun mine loaded disk => publishes_iff ops,?_⟩
  intro calls s hrun i c hc
  have hviews : ViewInv s := exec_views (.initial ops) (.initial ops) hrun
  exact ⟨hviews.views i c hc,hviews.routesKept hc⟩

def probedAt (route : String) (t : ℤ) (revision : ℕ) : String × HealthEntry :=
  (route,{
    routeId := route
    category := .ok
    checkedAt := seconds t
    untilAt := seconds (t + 10)
    consecutiveFailures := 0
    chatOk := true
    toolOk := true
    writeRevision := revision })

def probesOf (probes : List (String × ℤ × ℕ)) : Sections Unit where
  routes := .ofList (probes.map fun (route,t,revision) => probedAt route t revision)
  scheduling := ()

/-- An unsaved probe older than the one on disk, an unsaved one over its own revision, and an
entry that only the file has renewed are shown as they will be published. -/
theorem reload_shows_newer_file :
    let mine := probesOf [("cc/model",20,1),("kimi/model",40,1),("glm/model",5,1)]
    let loaded := probesOf [("cc/model",10,1),("kimi/model",10,1),("glm/model",5,1)]
    let disk := probesOf [("cc/model",30,2),("kimi/model",10,1),("glm/model",15,2)]
    Agree (reloadOver noScheduling mine loaded disk) (mergeOverDisk noScheduling mine disk) := by
  intro mine loaded disk
  have hcurrent : ∀ e ∈ mine.routes.entries, loaded.routes.get? e.1 ≠ some e.2 → ∀ d ∈ disk.routes.get? e.1,
      d.checkedAt < e.2.checkedAt → d.writeRevision ≤ e.2.writeRevision := by
    decide
  have hkept : ∀ e ∈ mine.routes.entries, loaded.routes.get? e.1 = some e.2 → ∃ d ∈ disk.routes.values,
      disk.routes.get? e.1 = some d ∧ (d.checkedAt < e.2.checkedAt → e.2.writeRevision < d.writeRevision) := by
    decide
  obtain ⟨hagree,-,-⟩ := reload_shows_save {} noScheduling
  refine (hagree mine loaded disk fun _ _ h => nomatch h).mpr ⟨?_,?_,fun _ _ h => nomatch h⟩
  · intro k m d hm hl hd
    exact hcurrent (k,m) ((Dict.mem_entries_iff _ k m).mpr hm) hl d hd
  · intro k m hm hl
    obtain ⟨d,-,hd⟩ := hkept (k,m) ((Dict.mem_entries_iff _ k m).mpr hm) hl
    exact ⟨d,hd⟩

/-- Object 1 has saved the route twice when object 0, which read its first revision, records a
later probe: the reload shows the probe, and the save keeps what is on disk. -/
theorem reload_shows_discarded :
    ∃ s c, exec (step {} noScheduling) (State.initial noScheduling)
        [.reopen 1,.mutate 1 (.record "cc/model" passedProbe (seconds 10)),.save 1,.reopen 0,
          .mutate 1 (.record "cc/model" passedProbe (seconds 20)),.save 1,
          .mutate 0 (.record "cc/model" timedOut (seconds 30))] = some s
      ∧ s.caches 0 = some c ∧ c.mem.same noScheduling c.snapshot = false
      ∧ ¬ Agree (reloadOver noScheduling c.mem c.snapshot s.file) (mergeOverDisk noScheduling c.mem s.file)
      ∧ ¬ Publishes noScheduling (reloadOver noScheduling c.mem c.snapshot s.file) s.file := by
  refine ⟨_,_,rfl,rfl,by decide,fun h => ?_,fun h => ?_⟩
  · have hroute := h.routes "cc/model"
    revert hroute
    decide
  · have hroute := h "cc/model" _ rfl
    revert hroute
    decide

end Verdict.HealthCache

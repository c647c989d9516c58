import Mathlib.Algebra.Order.Group.Nat
import Verdict.HealthCache.Store

/-! # Dispatch permits under any interleaving

Every view an object holds of the dispatch sections is below the file: its attempts
and revocations are on disk and its epochs are not larger. A merge of such a view
therefore writes back what disk holds, and only `record_revocation` and
`commit_dispatch` move the file, each by one record.
-/
namespace Verdict.HealthCache
open Run
open List (mem_append mem_singleton prefix_rfl)
open Option (isSome_iff_exists map_eq_some_iff)
open Dict (contains get?_set_ne mergeWith)
variable {ρ : Type}

structure ScopeBelow (a b : DispatchScopeState) : Prop where
  epoch : a.epoch ≤ b.epoch
  sequence : a.sequence ≤ b.sequence
  revocations : ∀ id ev, a.revocations.get? id = some ev → b.revocations.get? id = some ev

structure Below (mine disk : Sections ρ) : Prop where
  attempts : ∀ id a, mine.attempts.get? id = some a → disk.attempts.get? id = some a
  scopes : ∀ scope st, mine.scopes.get? scope = some st →
    ∃ st', disk.scopes.get? scope = some st' ∧ ScopeBelow st st'

theorem ScopeBelow.refl (a : DispatchScopeState) : ScopeBelow a a := ⟨le_rfl,le_rfl,fun _ _ h => h⟩

theorem ScopeBelow.trans {a b c : DispatchScopeState} (hab : ScopeBelow a b) (hbc : ScopeBelow b c) :
    ScopeBelow a c :=
  ⟨hab.epoch.trans hbc.epoch,hab.sequence.trans hbc.sequence,
    fun id ev h => hbc.revocations id ev (hab.revocations id ev h)⟩

theorem Below.refl (a : Sections ρ) : Below a a := ⟨fun _ _ h => h,fun _ st h => ⟨st,h,.refl st⟩⟩

variable {a b c : Sections ρ}

theorem Below.trans (hab : Below a b) (hbc : Below b c) : Below a c := by
  refine ⟨fun id x h => hbc.attempts id x (hab.attempts id x h),fun scope st h => ?_⟩
  obtain ⟨st₁,h₁,hb₁⟩ := hab.scopes scope st h
  obtain ⟨st₂,h₂,hb₂⟩ := hbc.scopes scope st₁ h₁
  exact ⟨st₂,h₂,hb₁.trans hb₂⟩

theorem Below.of_eq (h : Below a c) (hs : b.scopes = a.scopes) (ha : b.attempts = a.attempts) :
    Below b c := ⟨ha ▸ h.attempts,hs ▸ h.scopes⟩

theorem Below.scopeState (h : Below a b) (scope : DispatchScope) :
    ScopeBelow (a.scopeState scope) (b.scopeState scope) := by
  cases ha : a.scopes.get? scope with
  | none =>
    simp only [Sections.scopeState,ha,Option.getD_none]
    exact ⟨Nat.zero_le _,Nat.zero_le _,by simp⟩
  | some st =>
    obtain ⟨st',hb,hst⟩ := h.scopes scope st ha
    simpa only [Sections.scopeState,ha,hb,Option.getD_some] using hst

theorem mergeScope_below (scope : DispatchScope) {mine disk merged : DispatchScopeState} (h : ScopeBelow mine disk)
    (hm : mergeScope scope mine (some disk) = some merged) : ScopeBelow merged disk ∧ ScopeBelow disk merged := by
  cases hm
  have hrev : ∀ id, (mergeWith (fun _ event known => if known.isSome then none else some event)
      mine.revocations disk.revocations).get? id = disk.revocations.get? id := by
    intro id
    rw [Dict.get?_mergeWith]
    cases hmine : mine.revocations.get? id with
    | none => rfl
    | some ev => simp [h.revocations id ev hmine]
  exact ⟨⟨max_le le_rfl h.epoch,max_le le_rfl h.sequence,fun id ev he => hrev id ▸ he⟩,
    ⟨le_max_left _ _,le_max_left _ _,fun id ev he => (hrev id).symm ▸ he⟩⟩

theorem merged_equiv {mine disk : Sections ρ} (merged : Sections ρ) (h : Below mine disk)
    (hs : merged.scopes = mergeWith mergeScope mine.scopes disk.scopes)
    (ha : merged.attempts = mergeWith mergeAttempt mine.attempts disk.attempts) :
    Below merged disk ∧ Below disk merged := by
  have hatt : ∀ id, merged.attempts.get? id = disk.attempts.get? id := by
    intro id
    rw [ha,Dict.get?_mergeWith]
    cases hmine : mine.attempts.get? id with
    | none => rfl
    | some a => simp [mergeAttempt,h.attempts id a hmine]
  have hscope : ∀ scope, merged.scopes.get? scope = disk.scopes.get? scope ∨
      ∃ st st', merged.scopes.get? scope = some st ∧ disk.scopes.get? scope = some st' ∧
        ScopeBelow st st' ∧ ScopeBelow st' st := by
    intro scope
    rw [hs,Dict.get?_mergeWith]
    cases hmine : mine.scopes.get? scope with
    | none => exact .inl rfl
    | some st =>
      obtain ⟨st',hdisk,hb⟩ := h.scopes scope st hmine
      obtain ⟨hle,hge⟩ := mergeScope_below scope hb rfl
      exact .inr ⟨_,st',by simp [hdisk,mergeScope],hdisk,hle,hge⟩
  constructor
  · refine ⟨fun id a h' => hatt id ▸ h',fun scope st h' => ?_⟩
    rcases hscope scope with heq | ⟨st₁,st₂,h₁,h₂,hle,_⟩
    · exact ⟨st,heq ▸ h',.refl st⟩
    · cases h₁.symm.trans h'
      exact ⟨st₂,h₂,hle⟩
  · refine ⟨fun id a h' => (hatt id).symm ▸ h',fun scope st h' => ?_⟩
    rcases hscope scope with heq | ⟨st₁,st₂,h₁,h₂,_,hge⟩
    · exact ⟨st,heq.symm ▸ h',.refl st⟩
    · cases h₂.symm.trans h'
      exact ⟨st₁,h₁,hge⟩

theorem storeRoute_dispatch {s t : Sections ρ} {route : String} {r : Except HealthCacheError (Option HealthEntry)}
    (h : storeRoute s route r = .ok t) : t.scopes = s.scopes ∧ t.attempts = s.attempts := by
  rcases r with e | ⟨_ | entry⟩
  · cases h
  · cases h; exact ⟨rfl,rfl⟩
  · cases h; exact ⟨rfl,rfl⟩

theorem apply_dispatch {fresh : EvidenceFresh} {s t : Sections ρ} {m : Mutation ρ} (h : m.apply fresh s = .ok t) :
    t.scopes = s.scopes ∧ t.attempts = s.attempts := by
  cases m with
  | record => exact storeRoute_dispatch h
  | recordLiveness => exact storeRoute_dispatch h
  | recordPassiveTraffic => exact storeRoute_dispatch h
  | recordPassiveFailure => exact storeRoute_dispatch h
  | recordAgenticEvidence => exact storeRoute_dispatch h
  | recordCooldown => cases h; exact ⟨rfl,rfl⟩
  | clearCooldown => cases h; exact ⟨rfl,rfl⟩
  | schedule => cases h; exact ⟨rfl,rfl⟩

theorem runMutations_dispatch (fresh : EvidenceFresh) (s : Sections ρ) (ms : List (Mutation ρ)) :
    (runMutations fresh s ms).1.scopes = s.scopes ∧ (runMutations fresh s ms).1.attempts = s.attempts := by
  induction ms generalizing s with
  | nil => exact ⟨rfl,rfl⟩
  | cons m ms ih =>
    simp only [runMutations]
    split
    · exact ⟨rfl,rfl⟩
    · rename_i t ht
      obtain ⟨hs,ha⟩ := apply_dispatch ht
      exact ⟨(ih t).1.trans hs,(ih t).2.trans ha⟩

theorem revoke_below (r : RevocationArgs) (s : Sections ρ) : Below s (revoke r s) := by
  unfold revoke
  split
  · exact .refl s
  · rename_i hnew
    refine ⟨fun _ _ h => h,fun scope st h => ?_⟩
    by_cases hk : scope = r.scope
    · subst hk
      refine ⟨_,Dict.get?_set_self _ _ _,?_⟩
      have hst : s.scopeState r.scope = st := by simp [Sections.scopeState,h]
      rw [hst]
      refine ⟨Nat.le_succ _,Nat.le_succ _,fun id ev he => ?_⟩
      have hne : id ≠ r.eventId := by
        rintro rfl
        simp [RevocationArgs.replayed,hst,contains,he] at hnew
      exact (get?_set_ne _ _ hne).trans he
    · exact ⟨st,(get?_set_ne _ _ hk).trans h,.refl st⟩

theorem commit_below (c : CommitArgs) (s : Sections ρ) : Below s (commit c s) := by
  unfold commit
  split
  · rename_i hg
    refine ⟨fun id a h => ?_,fun _ st h => ⟨st,h,.refl st⟩⟩
    have hne : id ≠ c.attemptId := by
      rintro rfl
      simp [CommitArgs.grants,contains,h] at hg
    exact (get?_set_ne _ _ hne).trans h
  · exact .refl s

variable {r : RevocationArgs}

theorem revoke_scopeState_self {s : Sections ρ} (hnew : r.replayed s = false) :
    (revoke r s).scopeState r.scope = {
      epoch := (s.scopeState r.scope).epoch + 1
      sequence := (s.scopeState r.scope).sequence + 1
      revocations := (s.scopeState r.scope).revocations.set r.eventId (r.event ((s.scopeState r.scope).sequence + 1)) } := by
  simp [revoke,hnew,Sections.scopeState,Dict.get?_set_self]

variable {scope : DispatchScope}

theorem revoke_scopeState_ne {s : Sections ρ} (hk : scope ≠ r.scope) :
    (revoke r s).scopeState scope = s.scopeState scope := by
  unfold revoke
  split
  · rfl
  · simp only [Sections.scopeState,get?_set_ne _ _ hk]

theorem revoke_replayed {s : Sections ρ} (h : r.replayed s = true) : revoke r s = s := by
  simp [revoke,h]

def acceptedIn (s : State ρ) (scope : DispatchScope) : List (DispatchScope × String) :=
  s.accepted.filter fun e => decide (e.1 = scope)

structure DispatchInv (s : State ρ) : Prop where
  below : ∀ i c, s.caches i = some c → Below c.mem s.file
  acceptedNodup : s.accepted.Nodup
  acceptedIff : ∀ scope id, (s.file.scopeState scope).revocations.contains id = true ↔ (scope,id) ∈ s.accepted
  epochCount : ∀ scope, s.file.revocationEpoch scope = (acceptedIn s scope).length
  permitsRecorded : ∀ p ∈ s.permits, s.file.attempts.contains p.attemptId = true
  permitsNodup : (s.permits.map DispatchPermit.attemptId).Nodup

theorem DispatchInv.initial (ops : SchedulingOps ρ) : DispatchInv (State.initial ops) where
  below := by simp [State.initial]
  acceptedNodup := List.nodup_nil
  acceptedIff := by simp [State.initial,Sections.scopeState,contains]
  epochCount := by simp [State.initial,Sections.revocationEpoch,Sections.scopeState,acceptedIn]
  permitsRecorded := by simp [State.initial]
  permitsNodup := List.nodup_nil

variable {id : String}

theorem contains_of_below (h : Below a b) (hc : a.attempts.contains id = true) :
    b.attempts.contains id = true := by
  obtain ⟨x,hx⟩ := isSome_iff_exists.mp hc
  exact isSome_iff_exists.mpr ⟨x,h.attempts id x hx⟩

theorem revocation_of_below (h : Below a b)
    (hc : (a.scopeState scope).revocations.contains id = true) :
    (b.scopeState scope).revocations.contains id = true := by
  obtain ⟨x,hx⟩ := isSome_iff_exists.mp hc
  exact isSome_iff_exists.mpr ⟨x,(h.scopeState scope).revocations id x hx⟩

variable {s t : State ρ}

theorem DispatchInv.of_equiv (hi : DispatchInv s) (hst : Below s.file t.file)
    (hts : Below t.file s.file) (hacc : t.accepted = s.accepted) (hper : t.permits = s.permits)
    (hbelow : ∀ i c, t.caches i = some c → Below c.mem t.file) : DispatchInv t where
  below := hbelow
  acceptedNodup := hacc ▸ hi.acceptedNodup
  acceptedIff := by
    intro scope id
    rw [hacc,← hi.acceptedIff]
    exact ⟨revocation_of_below hts,revocation_of_below hst⟩
  epochCount := by
    intro scope
    have heq : t.file.revocationEpoch scope = s.file.revocationEpoch scope :=
      le_antisymm (hts.scopeState scope).epoch (hst.scopeState scope).epoch
    rw [heq,hi.epochCount,acceptedIn,acceptedIn,hacc]
  permitsRecorded := by
    intro p hp
    exact contains_of_below hst (hi.permitsRecorded p (hper ▸ hp))
  permitsNodup := hper ▸ hi.permitsNodup

variable {i : ℕ}

theorem caches_setCache {j : ℕ} {c d : Cache ρ} (h : (s.setCache i c).caches j = some d) :
    d = c ∨ s.caches j = some d := by
  simp only [State.setCache,Function.update_apply] at h
  split at h
  · exact .inl (Option.some.inj h).symm
  · exact .inr h

theorem DispatchInv.setCache (hi : DispatchInv s) {c : Cache ρ} (hc : Below c.mem s.file) :
    DispatchInv (s.setCache i c) := by
  refine hi.of_equiv (.refl _) (.refl _) rfl rfl fun j d hj => ?_
  rcases caches_setCache hj with rfl | hj
  · exact hc
  · exact hi.below j d hj

variable {sections : Sections ρ}

theorem below_publish (hi : DispatchInv s) (hst : Below s.file sections) :
    ∀ j d, (s.publish i sections).caches j = some d → Below d.mem sections := by
  intro j d hj
  rcases caches_setCache (s := s) hj with rfl | hj
  · exact .refl _
  · exact (hi.below j d hj).trans hst

theorem DispatchInv.publish (hi : DispatchInv s)
    (hst : Below s.file sections) (hts : Below sections s.file) : DispatchInv (s.publish i sections) :=
  hi.of_equiv hst hts rfl rfl (below_publish hi hst)

theorem DispatchInv.revoked {s : State ρ} (hi : DispatchInv s) (i : ℕ) {r : RevocationArgs}
    (hnew : r.replayed s.file = false) :
    DispatchInv {s.publish i (revoke r s.file) with accepted := s.accepted ++ [(r.scope,r.eventId)]} where
  below := below_publish hi (revoke_below r s.file)
  acceptedNodup := by
    refine List.nodup_append.mpr ⟨hi.acceptedNodup,List.nodup_singleton _,?_⟩
    rintro x hx y hy rfl
    cases mem_singleton.mp hy
    have := (hi.acceptedIff r.scope r.eventId).mpr hx
    simp [RevocationArgs.replayed,this] at hnew
  acceptedIff := by
    intro scope id
    simp only [State.publish,mem_append,mem_singleton,Prod.mk.injEq]
    by_cases hk : scope = r.scope
    · subst hk
      have := hi.acceptedIff r.scope id
      simp only [revoke_scopeState_self hnew,contains,Dict.get?_set] at this ⊢
      by_cases hid : id = r.eventId
      · simp [hid]
      · simp [hid,← this]
    · rw [revoke_scopeState_ne hk,hi.acceptedIff]
      simp [hk]
  epochCount := by
    intro scope
    simp only [State.publish,acceptedIn,List.filter_append,List.length_append]
    have := hi.epochCount scope
    simp only [Sections.revocationEpoch,acceptedIn] at this
    by_cases hk : scope = r.scope
    · subst hk
      simp [Sections.revocationEpoch,revoke_scopeState_self hnew,this]
    · have hk' : ¬ r.scope = scope := fun h => hk h.symm
      simp [Sections.revocationEpoch,revoke_scopeState_ne hk,this,hk']
  permitsRecorded := fun p hp => contains_of_below (revoke_below r s.file) (hi.permitsRecorded p hp)
  permitsNodup := hi.permitsNodup

theorem commit_rest (c : CommitArgs) (s : Sections ρ) :
    (commit c s).scopes = s.scopes ∧ (commit c s).routes = s.routes ∧ (commit c s).cooldowns = s.cooldowns := by
  unfold commit
  split <;> exact ⟨rfl,rfl,rfl⟩

theorem commit_scopeState (c : CommitArgs) (s : Sections ρ) (scope : DispatchScope) :
    (commit c s).scopeState scope = s.scopeState scope := by
  simp only [Sections.scopeState,(commit_rest c s).1]

theorem DispatchInv.committed (hi : DispatchInv s) (i : ℕ) {c : CommitArgs}
    (hadm : c.admissible = true) :
    DispatchInv {s.publish i (commit c s.file) with permits := s.permits ++ (minted c s.file).toList} where
  below := below_publish hi (commit_below c s.file)
  acceptedNodup := hi.acceptedNodup
  acceptedIff := fun scope id => (commit_scopeState c s.file scope).symm ▸ hi.acceptedIff scope id
  epochCount := fun scope =>
    (congrArg DispatchScopeState.epoch (commit_scopeState c s.file scope)).trans (hi.epochCount scope)
  permitsRecorded := by
    intro p hp
    rcases mem_append.mp hp with hp | hp
    · exact contains_of_below (commit_below c s.file) (hi.permitsRecorded p hp)
    · by_cases hg : c.grants s.file = true
      · have hpc : p = c.permit := by simpa [minted,hadm,hg] using hp
        subst hpc
        simp [State.publish,commit,hg,contains,CommitArgs.permit]
      · simp [minted,hg] at hp
  permitsNodup := by
    by_cases hg : c.grants s.file = true
    · have hm : minted c s.file = some c.permit := by simp [minted,hadm,hg]
      simp only [hm,Option.toList_some,List.map_append,List.map_cons,List.map_nil]
      refine List.nodup_append.mpr ⟨hi.permitsNodup,List.nodup_singleton _,?_⟩
      rintro x hx y hy rfl
      cases mem_singleton.mp hy
      obtain ⟨p,hp,hpa⟩ := List.mem_map.mp hx
      have hrec := hi.permitsRecorded p hp
      rw [hpa] at hrec
      have hrec' : s.file.attempts.contains c.attemptId = true := hrec
      simp [CommitArgs.grants,hrec'] at hg
    · have hm : minted c s.file = none := by simp [minted,hg]
      simpa [hm] using hi.permitsNodup

variable {fresh : EvidenceFresh} {ops : SchedulingOps ρ}

theorem step_dispatch {a : Act ρ} (hi : DispatchInv s) (h : step fresh ops s a = some t) :
    DispatchInv t ∧ Below s.file t.file ∧ s.accepted <+: t.accepted := by
  cases a with
  | reopen i =>
    cases h
    exact ⟨hi.setCache (.refl _),.refl _,prefix_rfl⟩
  | mutate i m =>
    obtain ⟨c,hc,rfl⟩ := map_eq_some_iff.mp h
    split
    · rename_i mem hm
      obtain ⟨hs,ha⟩ := apply_dispatch hm
      exact ⟨hi.setCache ((hi.below i c hc).of_eq hs ha),.refl _,prefix_rfl⟩
    · exact ⟨hi,.refl _,prefix_rfl⟩
  | save i =>
    obtain ⟨c,hc,rfl⟩ := map_eq_some_iff.mp h
    obtain ⟨hle,hge⟩ := merged_equiv (mergeOverDisk ops c.mem s.file) (hi.below i c hc) rfl rfl
    exact ⟨hi.publish hge hle,hge,prefix_rfl⟩
  | reload i =>
    obtain ⟨c,hc,rfl⟩ := map_eq_some_iff.mp h
    split
    · exact ⟨hi.setCache (.refl _),.refl _,prefix_rfl⟩
    · obtain ⟨hle,_⟩ := merged_equiv (reloadOver ops c.mem c.snapshot s.file) (hi.below i c hc) rfl rfl
      exact ⟨hi.setCache hle,.refl _,prefix_rfl⟩
  | mergeAndSave i body =>
    obtain ⟨c,hc,rfl⟩ := map_eq_some_iff.mp h
    obtain ⟨hs,ha⟩ := runMutations_dispatch fresh s.file body
    split
    · rename_i mem hm
      rw [hm] at hs ha
      have hge : Below s.file {mem with routes := bumpRevisions s.file.routes mem.routes} :=
        ⟨ha ▸ (Below.refl s.file).attempts,hs ▸ (Below.refl s.file).scopes⟩
      exact ⟨hi.publish hge ((Below.refl s.file).of_eq hs ha),hge,prefix_rfl⟩
    · rename_i mem hm
      rw [hm] at hs ha
      exact ⟨hi.setCache ((Below.refl s.file).of_eq hs ha),.refl _,prefix_rfl⟩
  | recordRevocation i r =>
    obtain ⟨c,hc,rfl⟩ := map_eq_some_iff.mp h
    dsimp only
    split
    · by_cases hrep : r.replayed s.file = true
      · simp only [hrep,if_true,revoke_replayed hrep]
        exact ⟨hi.publish (.refl _) (.refl _),.refl _,prefix_rfl⟩
      · have hnew : r.replayed s.file = false := by simpa using hrep
        simp only [hnew,Bool.false_eq_true,if_false]
        exact ⟨hi.revoked i hnew,revoke_below r s.file,List.prefix_append _ _⟩
    · exact ⟨hi,.refl _,prefix_rfl⟩
  | commitDispatch i c =>
    obtain ⟨_,_,rfl⟩ := map_eq_some_iff.mp h
    dsimp only
    split
    · rename_i hadm
      exact ⟨hi.committed i hadm,commit_below c s.file,prefix_rfl⟩
    · exact ⟨hi,.refl _,prefix_rfl⟩

theorem exec_dispatch {as : List (Act ρ)} (hi : DispatchInv s)
    (h : exec (step fresh ops) s as = some t) : DispatchInv t ∧ Below s.file t.file ∧ s.accepted <+: t.accepted := by
  refine exec_invariant (I := fun u => DispatchInv u ∧ Below s.file u.file ∧ s.accepted <+: u.accepted)
    (fun u a v hu he => ?_) h ⟨hi,.refl _,prefix_rfl⟩
  obtain ⟨hv,hf,hp⟩ := step_dispatch hu.1 he
  exact ⟨hv,hu.2.1.trans hf,hu.2.2.trans hp⟩

theorem epoch_lt_of_accepted (hs : DispatchInv s) (ht : DispatchInv t)
    (hp : s.accepted <+: t.accepted) (hin : (scope,id) ∈ t.accepted)
    (hout : (scope,id) ∉ s.accepted) : s.file.revocationEpoch scope < t.file.revocationEpoch scope := by
  obtain ⟨more,hmore⟩ := hp
  rw [← hmore,mem_append] at hin
  have hmem : (scope,id) ∈ more := hin.resolve_left hout
  have hpos : 0 < (more.filter fun e => decide (e.1 = scope)).length :=
    List.length_pos_of_mem (List.mem_filter.mpr ⟨hmem,by simp⟩)
  rw [hs.epochCount,ht.epochCount,acceptedIn,acceptedIn,← hmore,List.filter_append,List.length_append]
  omega

/-- Permit safety of the shared file, for every interleaving of the API calls: one
permit an attempt id; the epoch of a scope counts the distinct accepted events and a
replay leaves it; no record disappears; an epoch read before a revocation that was
persisted since mints nothing, whatever view it was read from. -/
theorem dispatch_permit_safety {before between : List (Act ρ)} {s t : State ρ}
    (hs : exec (step fresh ops) (State.initial ops) before = some s)
    (ht : exec (step fresh ops) s between = some t) :
    (t.permits.map DispatchPermit.attemptId).Nodup ∧
    (t.accepted.Nodup ∧ ∀ scope,
      s.file.revocationEpoch scope ≤ t.file.revocationEpoch scope ∧
      t.file.revocationEpoch scope = (acceptedIn t scope).length ∧
      ∀ i r u, (r.scope,r.eventId) ∈ t.accepted → step fresh ops t (.recordRevocation i r) = some u →
        u.file.revocationEpoch scope = t.file.revocationEpoch scope) ∧
    ((∀ id a, s.file.attempts.get? id = some a → t.file.attempts.get? id = some a) ∧
      ∀ scope id ev, (s.file.scopeState scope).revocations.get? id = some ev →
        (t.file.scopeState scope).revocations.get? id = some ev) ∧
    ∀ i view scope id, s.caches i = some view → (scope,id) ∈ t.accepted → (scope,id) ∉ s.accepted →
      ∀ j c u, c.scope = scope → c.expectedEpoch = view.mem.revocationEpoch scope →
        step fresh ops t (.commitDispatch j c) = some u → u.permits = t.permits := by
  obtain ⟨his,_,_⟩ := exec_dispatch (.initial ops) hs
  obtain ⟨hit,hgrow,hpre⟩ := exec_dispatch his ht
  refine ⟨hit.permitsNodup,⟨hit.acceptedNodup,fun scope => ⟨(hgrow.scopeState scope).epoch,
    hit.epochCount scope,?_⟩⟩,⟨hgrow.attempts,fun scope => (hgrow.scopeState scope).revocations⟩,?_⟩
  · intro i r u hin hstep
    obtain ⟨c,hc,rfl⟩ := map_eq_some_iff.mp hstep
    have hrep : r.replayed t.file = true := (hit.acceptedIff r.scope r.eventId).mpr hin
    dsimp only
    split
    · simp only [State.publish,revoke_replayed hrep]
    · rfl
  · intro i view scope id hview hin hout j c u hscope hepoch hstep
    have hlt := epoch_lt_of_accepted his hit hpre hin hout
    have hle := ((his.below i view hview).scopeState scope).epoch
    have hne : c.expectedEpoch ≠ (t.file.scopeState c.scope).epoch := by
      rw [hepoch,hscope]
      exact Nat.ne_of_lt (hle.trans_lt hlt)
    have hdeny : c.grants t.file = false := by simp [CommitArgs.grants,hne]
    obtain ⟨_,_,rfl⟩ := map_eq_some_iff.mp hstep
    dsimp only
    split
    · simp [minted,hdeny]
    · rfl

def noScheduling : SchedulingOps Unit where
  blank := ()
  same := fun _ _ => true
  saveOver := fun _ _ => ()
  reloadOver := fun _ _ _ => ()

def gatewayScope : DispatchScope where
  gatewayOrigin := "https://gateway"
  configGeneration := "g1"
  profileDigest := "p1"
  bindingId := "b1"

def revokedRoute : RevocationArgs where
  scope := gatewayScope
  routeId := "cc/model"
  eventId := "e1"
  sourceRevision := none
  observedAt := seconds 10

def commitAt (attemptId : String) (expectedEpoch : ℕ) : CommitArgs where
  scope := gatewayScope
  routeId := "cc/model"
  attemptId := attemptId
  authorizationDigest := "d"
  expectedEpoch := expectedEpoch
  proofDeadline := seconds 300
  qualifiedAt := seconds 1
  now := seconds 20
  permitId := "permit-" ++ attemptId

/-- Object 1 revokes and then commits under the new epoch; object 0 still holds the
epoch from before and gets nothing. -/
theorem dispatch_permit_safety_revoked :
    ∃ s t, exec (step {} noScheduling) (State.initial noScheduling) [.reopen 0,.reopen 1] = some s ∧
      exec (step {} noScheduling) s [.recordRevocation 1 revokedRoute,.commitDispatch 1 (commitAt "a1" 1)] = some t ∧
      (t.permits.map DispatchPermit.attemptId).Nodup ∧
      t.file.revocationEpoch gatewayScope = (acceptedIn t gatewayScope).length ∧ t.permits.length = 1 ∧
      ∀ u, step {} noScheduling t (.commitDispatch 0 (commitAt "a2" 0)) = some u → u.permits = t.permits := by
  refine ⟨_,_,rfl,rfl,?_⟩
  have hbefore : exec (step {} noScheduling) (State.initial noScheduling) [.reopen 0,.reopen 1] = some _ := rfl
  obtain ⟨hnodup,⟨_,hepoch⟩,_,hstale⟩ := dispatch_permit_safety hbefore (show exec (step {} noScheduling) _
    [.recordRevocation 1 revokedRoute,.commitDispatch 1 (commitAt "a1" 1)] = some _ from rfl)
  exact ⟨hnodup,(hepoch gatewayScope).2.1,by decide,fun u hu =>
    hstale 0 _ gatewayScope "e1" rfl (by decide) (by decide) 0 (commitAt "a2" 0) u rfl rfl hu⟩

end Verdict.HealthCache

import Mathlib.Data.List.Perm.Subperm
import Verdict.HealthCache.Spending

/-! # The allowance over whole runs

What one call does (`Sound.after`), and what follows for every run: the tokens
outstanding in any window stay within the capacity, and a freed token stays freed.
-/
namespace Verdict.HealthCache.Budget

open Function (update_self)
open Option (ext map_eq_some_iff)
open State (initial)
section Invariant
variable {text : TextOps} {bounds : Bounds} {s : State}

def Act.merges : Act → Option ℕ
  | .reopen i => some i
  | .lookUp _ _ _ => none
  | .save i => some i
  | .reload i _ => some i
  | .reserve i _ _ _ _ _ _ => some i
  | .release i handle unused => if unused ≤ handle.tokenIds.length then some i else none

/-- What one call can enter into the history. -/
inductive Entered (text : TextOps) (bounds : Bounds) (s : State) : Book → Prop
  | nothing : Entered text bounds s s.book
  | reserve {now : Time} {amount : ℕ} {ids : List String} {handle : BucketReservation} {buckets : Buckets}
      (hfresh : s.book.fresh amount ids handle.id) (hnow : s.clock ≤ now)
      (hr : Reserved text bounds s buckets now amount ids handle) : Entered text bounds s (s.book.reserve handle)
  | release {b : TokenBucket} {handle : BucketReservation} (hm : handle ∈ s.book.handles)
      (hb : s.file.get? handle.bucketKey = some b) (unused : ℕ) :
      Entered text bounds s (s.book.release handle (freedBy text b handle unused))

def Current (text : TextOps) (bounds : Bounds) (s : State) (i : ℕ) : Prop :=
  ∀ v, s.views i = some v → ∀ key b, v.mem.get? key = some b →
    ∀ id, (b.tokens text).get? id = (ground text bounds s.file key).tokens id

variable {i : ℕ}

theorem current_of_file {loaded : Buckets} (h : s.views i = some ⟨s.file,loaded⟩) :
    Current text bounds s i := by
  intro v hv key b hb id
  cases h.symm.trans hv
  rw [ground_of_get? text bounds hb]
  rfl

theorem current_publish (s : State) (i : ℕ) (buckets : Buckets) : Current text bounds (s.publish i buckets) i :=
  current_of_file (update_self _ _ _)

/-- What one call does: the invariant stays, the history grows by at most one entry, and
a merged memory agrees with the file. -/
structure After (text : TextOps) (bounds : Bounds) (s : State) (a : Act) (s' : State) : Prop where
  sound : Sound text bounds s'
  entered : Entered text bounds s s'.book
  current : ∀ i, a.merges = some i → Current text bounds s' i

section Calls
variable {s' : State} (hs : Sound text bounds s)
include hs

variable {i : ℕ}

theorem after_reopen (h : step text bounds s (.reopen i) = some s') :
    After text bounds s (.reopen i) s' := by
  simp only [step,hs.canonicalize_file,Option.some.injEq] at h
  subst h
  refine ⟨hs.setView i fun key b hb => hs.held_file hb,.nothing,?_⟩
  intro j hj
  cases hj
  exact current_of_file (update_self _ _ _)

variable {provider : String} {pool : Option String}

theorem after_lookUp (hok : canonicalKeys text s (.lookUp i provider pool)) (h : step text bounds s (.lookUp i provider pool) = some s') :
    After text bounds s (.lookUp i provider pool) s' := by
  obtain ⟨v,hv,h⟩ := map_eq_some_iff.mp h
  have hsame : After text bounds s (.lookUp i provider pool) s := ⟨hs,.nothing,fun _ h => by simp [Act.merges] at h⟩
  cases hkey : bucketKey provider pool with
  | error e =>
    rw [hkey] at h
    exact h ▸ hsame
  | ok key =>
    rw [hkey] at h
    dsimp only at h
    cases hb : bucketFor bounds v.mem key with
    | error e =>
      rw [hb] at h
      exact h ▸ hsame
    | ok r =>
      obtain ⟨bucket,mem⟩ := r
      rw [hb] at h
      subst h
      refine ⟨hs.setView i ?_,.nothing,fun _ h => by simp [Act.merges] at h⟩
      obtain ⟨hget,hcontent,howned,hother⟩ :=
        bucketFor_content text bounds (fun b' hb' => (hs.views i v hv key b' hb').owned) hb
      intro k b hk
      by_cases hkk : k = key
      · subst hkk
        cases hget.symm.trans hk
        refine ⟨hok k hkey,howned,?_⟩
        rw [hcontent]
        cases hm : v.mem.get? k with
        | none =>
          have hblank : ground text bounds v.mem k = blank bounds k := by
            rw [ground,hm]
            rfl
          rw [hblank]
          exact known_blank bounds s.book k _
        | some m =>
          rw [ground_of_get? text bounds hm]
          exact (hs.views i v hv k m hm).known
      · exact hs.views i v hv k b ((hother k hkk).symm.trans hk)

theorem after_save (h : step text bounds s (.save i) = some s') : After text bounds s (.save i) s' := by
  obtain ⟨v,hv,h⟩ := map_eq_some_iff.mp h
  rw [hs.canonicalize_view hv,hs.canonicalize_file] at h
  subst h
  refine ⟨hs.publish i (hs.fold (hs.views i v hv)),.nothing,?_⟩
  intro j hj
  cases hj
  exact current_publish s i _

theorem after_reload {othersChanged : Bool} (h : step text bounds s (.reload i othersChanged) = some s') :
    After text bounds s (.reload i othersChanged) s' := by
  obtain ⟨v,hv,h⟩ := map_eq_some_iff.mp h
  rw [hs.canonicalize_file] at h
  dsimp only at h
  split at h
  · subst h
    have hchanged : ∀ key b, (v.changed text).get? key = some b → Held text bounds s key b := by
      intro key b hb
      exact hs.views i v hv key b ((Dict.get?_filter _ _ _ _).mp hb).1
    have hfold := hs.fold hchanged
    refine ⟨hs.setView i ?_,.nothing,?_⟩
    · intro key b hb
      obtain ⟨hc,ho⟩ := (hfold key).2 b hb
      have hk := (hs.known key).trim (hfold key).1
      rw [ground_of_get? text bounds hb] at hk
      exact ⟨hc,ho,hk⟩
    · intro j hj w hw key b hb id
      cases hj
      cases (update_self i _ s.views).symm.trans hw
      have ht := (hfold key).1.tokens id
      rw [ground_of_get? text bounds hb] at ht
      exact ht
  · subst h
    refine ⟨hs.setView i fun key b hb => hs.held_file hb,.nothing,?_⟩
    intro j hj
    cases hj
    exact current_of_file (update_self _ _ _)

theorem after_release {handle : BucketReservation} {unused : ℕ}
    (h : step text bounds s (.release i handle unused) = some s') :
    After text bounds s (.release i handle unused) s' := by
  unfold step at h
  dsimp only at h
  split at h
  · rename_i hm
    obtain ⟨v,hv,h⟩ := map_eq_some_iff.mp h
    split at h
    · rename_i hlen
      subst h
      exact ⟨hs,.nothing,fun _ h => by rw [Act.merges,if_neg (by omega)] at h; cases h⟩
    · have hcurrent : ∀ (book : Book) (buckets : Buckets) (j : ℕ),
          (Act.release i handle unused).merges = some j →
          Current text bounds {s.publish i buckets with book := book} j := by
        intro book buckets j hj
        rw [Act.merges,if_pos (by omega)] at hj
        cases hj
        exact current_publish s i buckets
      rw [hs.canonicalize_file] at h
      dsimp only at h
      split at h
      · subst h
        exact ⟨hs.publish i fun key => ⟨Trims.refl bounds _,hs.file key⟩,.nothing,hcurrent s.book s.file⟩
      · rename_i b hb
        subst h
        exact ⟨hs.release hm hb i unused,.release hm hb unused,hcurrent _ _⟩
  · cases h

variable {now : Time} {amount : ℕ} {ids : List String} {handleId : String}

theorem Sound.reserveBucket_unspent {buckets : Buckets}
    {out : Except BucketError (Option BucketReservation)}
    (hok : ∀ key, bucketKey provider pool = .ok key → legacyPoolKey text key = key)
    (h : reserveBucket text bounds s.file provider pool now amount ids handleId = (buckets,out))
    (hout : ∀ handle, out ≠ .ok (some handle)) (key : String) : ground text bounds buckets key = ground text
    bounds s.file key ∧ ∀ b, buckets.get? key = some b → legacyPoolKey text key = key ∧ b.Owned text := by
  have hsame : ground text bounds s.file key = ground text bounds s.file key ∧
      ∀ b, s.file.get? key = some b → legacyPoolKey text key = key ∧ b.Owned text := ⟨rfl,hs.file key⟩
  unfold reserveBucket at h
  cases hkey : bucketKey provider pool with
  | error e =>
    rw [hkey] at h
    cases h
    exact hsame
  | ok k =>
    rw [hkey] at h
    dsimp only at h
    cases hb : bucketFor bounds s.file k with
    | error e =>
      rw [hb] at h
      cases h
      exact hsame
    | ok r =>
      obtain ⟨bucket,disk⟩ := r
      rw [hb] at h
      dsimp only at h
      obtain ⟨hget,hcontent,howned,hother⟩ :=
        bucketFor_content text bounds (fun b' hb' => (hs.file k b' hb').2) hb
      have hdisk : ground text bounds disk key = ground text bounds s.file key ∧
          ∀ b, disk.get? key = some b → legacyPoolKey text key = key ∧ b.Owned text := by
        by_cases hkk : key = k
        · subst hkk
          refine ⟨(ground_of_get? text bounds hget).trans hcontent,?_⟩
          intro b hb'
          cases hget.symm.trans hb'
          exact ⟨hok key hkey,howned⟩
        · rw [ground,hother key hkk]
          exact hsame
      cases hc : bucket.consume text now amount ids with
      | error e =>
        rw [hc] at h
        cases h
        exact hdisk
      | ok r =>
        cases r with
        | none =>
          rw [hc] at h
          cases h
          exact hdisk
        | some spent =>
          rw [hc] at h
          cases h
          exact absurd rfl (hout _)

theorem after_reserve (hok : canonicalKeys text s (.reserve i provider pool now amount ids handleId))
    (h : step text bounds s (.reserve i provider pool now amount ids handleId) = some s') :
    After text bounds s (.reserve i provider pool now amount ids handleId) s' := by
  unfold step at h
  dsimp only at h
  split at h
  · rename_i hguard
    obtain ⟨hnow,hfresh⟩ := hguard
    obtain ⟨v,hv,h⟩ := map_eq_some_iff.mp h
    rw [hs.canonicalize_file] at h
    dsimp only at h
    cases hr : reserveBucket text bounds s.file provider pool now amount ids handleId with
    | mk buckets out =>
      rw [hr] at h
      cases out with
      | error e =>
        subst h
        have hsaid := hs.reserveBucket_unspent hok hr fun _ h => by cases h
        have hheld : ∀ key b, buckets.get? key = some b → Held text bounds s key b := by
          intro key b hb
          obtain ⟨hground,hkeys⟩ := hsaid key
          obtain ⟨hc,ho⟩ := hkeys b hb
          refine ⟨hc,ho,?_⟩
          rw [← ground_of_get? text bounds hb,hground]
          exact hs.known key
        refine ⟨(hs.setView i hheld).tick hnow,.nothing,?_⟩
        intro j hj w hw key b hb id
        cases hj
        cases (update_self i _ s.views).symm.trans hw
        have hground : ground text bounds s.file key = content text b :=
          ((hsaid key).1.symm.trans (ground_of_get? text bounds hb))
        exact (congrFun (congrArg Content.tokens hground) id).symm
      | ok r =>
        cases r with
        | none =>
          simp only [Option.toList_none,List.append_nil] at h
          subst h
          have hsaid := hs.reserveBucket_unspent hok hr fun _ h => by cases h
          refine ⟨(hs.publish i ?_).tick hnow,.nothing,?_⟩
          · intro key
            obtain ⟨hground,hkeys⟩ := hsaid key
            rw [hground]
            exact ⟨Trims.refl bounds _,hkeys⟩
          · intro j hj
            cases hj
            exact current_publish s i buckets
        | some handle =>
          subst h
          cases hkey : bucketKey provider pool with
          | error e => simp [reserveBucket,hkey] at hr
          | ok key =>
            obtain ⟨hbk,hid,hreserved⟩ := hs.reserved hfresh hkey hr
            rw [← hid] at hfresh
            have hcanon : legacyPoolKey text handle.bucketKey = handle.bucketKey := by
              rw [hbk]
              exact hok key hkey
            refine ⟨hs.reserve i hfresh hnow hcanon hreserved,.reserve hfresh hnow hreserved,?_⟩
            intro j hj
            cases hj
            exact current_publish s i buckets
  · cases h

theorem Sound.after {a : Act} (hok : canonicalKeys text s a) (h : step text bounds s a = some s') :
    After text bounds s a s' := by
  cases a with
  | reopen i => exact after_reopen hs h
  | lookUp i provider pool => exact after_lookUp hs hok h
  | save i => exact after_save hs h
  | reload i othersChanged => exact after_reload hs h
  | reserve i provider pool now amount ids handleId => exact after_reserve hs hok h
  | release i handle unused => exact after_release hs h

end Calls

theorem Book.spent_reserve_eq (book : Book) (handle : BucketReservation) (key : String) :
    (book.reserve handle).spent key = book.spent key ++
      if handle.bucketKey = key then handle.tokenIds.map (fun id => (id,handle.reservedAt)) else [] := by
  unfold Book.spent Book.reserve
  rw [List.filter_append,List.flatMap_append]
  by_cases h : handle.bucketKey = key
  · simp [h]
  · simp [h]

variable {book : Book} {key id : String}

theorem Book.mem_spent {stamp : Time} : (id,stamp) ∈ book.spent key ↔ book.Spent key id stamp := by
  simp only [Book.spent,List.mem_flatMap,List.mem_filter,List.mem_map,Prod.mk.injEq,decide_eq_true_eq]
  constructor
  · rintro ⟨h,⟨hm,hk⟩,i,hi,rfl,rfl⟩
    exact ⟨h,hm,hk,hi,rfl⟩
  · rintro ⟨h,hm,hk,hi,rfl⟩
    exact ⟨h,⟨hm,hk⟩,id,hi,rfl,rfl⟩

theorem Book.Distinct.spent_nodup (hd : book.Distinct) (key : String) : (book.spent key).Nodup := by
  have hids : (book.spent key).map Prod.fst =
      (book.handles.filter fun h => h.bucketKey = key).flatMap BucketReservation.tokenIds := by
    unfold Book.spent
    rw [List.map_flatMap]
    simp [Function.comp_def]
  have hsub : ((book.spent key).map Prod.fst).Nodup := by
    rw [hids]
    exact hd.tokens.sublist (List.filter_sublist.flatMap _)
  exact hsub.of_map

variable {b : TokenBucket} {now : Time}

theorem Sound.outstanding_le_live (hs : Sound text bounds s) {t : Time}
    (hb : content text b = ground text bounds s.file key) (howned : b.Owned text) (hnow : s.clock ≤ now)
    (ht : now ≤ t) : (s.book.outstanding bounds.window key t).length ≤ (b.live now).length := by
  have hk := hs.known key
  have hset := hs.settled key
  have hclock := hs.clock key
  rw [← hb] at hk hset hclock
  have hw : b.window = bounds.window := hk.window
  have hlive : (b.live now).length = ((b.tokens text).entries.filter fun e => now - b.window < e.2).length := by
    rw [TokenBucket.live,howned.2,Dict.values,List.filter_map,List.length_map]
    rfl
  have hsub : s.book.outstanding bounds.window key t ⊆
      (b.tokens text).entries.filter fun e => now - b.window < e.2 := by
    rintro ⟨id,stamp⟩ he
    obtain ⟨hspent,hin⟩ := List.mem_filter.mp he
    simp only [decide_eq_true_eq] at hin
    obtain ⟨hfree,hlo,-⟩ := hin
    rw [Book.mem_spent] at hspent
    obtain ⟨l,hl,-⟩ := hset.covered_spent hspent
    have hrecent : now - bounds.window < stamp := lt_of_le_of_lt (Int.sub_le_sub_right ht _) hlo
    have hold : l - bounds.window < stamp :=
      lt_of_le_of_lt (Int.sub_le_sub_right ((hclock l hl).trans hnow) _) hrecent
    have hkept := hset.kept id stamp l hspent hfree hl hold
    rw [List.mem_filter]
    exact ⟨(Dict.mem_entries_iff _ id stamp).mpr hkept,by simpa [hw] using hrecent⟩
  rw [hlive]
  exact (List.subperm_of_subset ((hs.distinct.spent_nodup key).filter _) hsub).length_le

/-- The number of tokens outstanding at `t` is within the capacity of the bucket; a key
whose override is below one has no bucket and no tokens. -/
def WithinCapacity (bounds : Bounds) (book : Book) : Prop :=
  ∀ key t, ((book.outstanding bounds.window key t).length : ℤ) ≤ max 0 (bounds.capacityFor key)

theorem outstanding_release_le (book : Book) (handle : BucketReservation) (freed : List String) (window : ℤ)
    (key : String) (t : Time) :
    ((book.release handle freed).outstanding window key t).length ≤ (book.outstanding window key t).length := by
  apply List.Sublist.length_le
  apply List.monotone_filter_right
  intro e he
  simp only [Book.release,List.mem_append,not_or,decide_eq_true_eq] at he ⊢
  exact ⟨he.1.1,he.2⟩

variable {handle : BucketReservation}

theorem withinCapacity_reserve (hs : Sound text bounds s) {amount : ℕ} {ids : List String}
    {buckets : Buckets} (hfresh : s.book.fresh amount ids handle.id)
    (hnow : s.clock ≤ now) (hr : Reserved text bounds s buckets now amount ids handle)
    (hbound : WithinCapacity bounds s.book) : WithinCapacity bounds (s.book.reserve handle) := by
  intro key t
  have hsplit : (s.book.reserve handle).outstanding bounds.window key t = s.book.outstanding bounds.window key t ++
      (if handle.bucketKey = key then handle.tokenIds.map (fun id => (id,handle.reservedAt)) else []).filter
        (fun e => e.1 ∉ s.book.freed ∧ t - bounds.window < e.2 ∧ e.2 ≤ t) := by
    rw [Book.outstanding,Book.spent_reserve_eq,List.filter_append]
    rfl
  rw [hsplit]
  by_cases hkey : handle.bucketKey = key
  · by_cases ht : now ≤ t
    · obtain ⟨b,c,hb,howned,hc,-⟩ := hr.spend
      have hcap : b.capacity = bounds.capacityFor handle.bucketKey := by
        have hk := hs.known handle.bucketKey
        rw [← hb] at hk
        exact hk.capacity
      have hold := hs.outstanding_le_live hb howned hnow ht
      have hnew : handle.tokenIds.length ≤ amount := by
        rw [← hfresh.1]
        exact (List.subperm_of_subset hr.nodup fun id hid => (hr.tokens id).mp hid).length_le
      have hfilter := List.length_filter_le (fun e : String × Time => e.1 ∉ s.book.freed ∧ t - bounds.window < e.2 ∧ e.2 ≤ t)
        (handle.tokenIds.map fun id => (id,handle.reservedAt))
      have hroom := hc.room
      rw [List.length_map] at hfilter
      rw [hkey] at hold hcap
      rw [if_pos hkey,List.length_append]
      omega
    · -- an earlier instant does not see the new tokens
      have hnone : (handle.tokenIds.map fun id => (id,handle.reservedAt)).filter
          (fun e => e.1 ∉ s.book.freed ∧ t - bounds.window < e.2 ∧ e.2 ≤ t) = [] := by
        rw [List.filter_eq_nil_iff]
        intro e he hin
        obtain ⟨id,-,rfl⟩ := List.mem_map.mp he
        simp only [decide_eq_true_eq] at hin
        exact ht (hr.reservedAt ▸ hin.2.2)
      rw [if_pos hkey,hnone,List.append_nil]
      exact hbound key t
  · rw [if_neg hkey]
    simpa using hbound key t

theorem Entered.withinCapacity (hs : Sound text bounds s) (he : Entered text bounds s book)
    (hbound : WithinCapacity bounds s.book) : WithinCapacity bounds book := by
  cases he with
  | nothing => exact hbound
  | reserve hfresh hnow hr => exact withinCapacity_reserve hs hfresh hnow hr hbound
  | @release b handle hm hb unused =>
    intro key t
    have hle := outstanding_release_le s.book handle (freedBy text b handle unused) bounds.window key t
    have hold := hbound key t
    omega

theorem Sound.freedBy_released (hs : Sound text bounds s)
    (hm : handle ∈ s.book.handles) (hb : s.file.get? handle.bucketKey = some b)
    (hrel : handle.id ∈ s.book.released) (unused : ℕ) : freedBy text b handle unused = [] := by
  cases hc : b.released.contains handle.id with
  | true => exact freedBy_again unused hc
  | false =>
    have hset := hs.settled handle.bucketKey
    have hk := hs.known handle.bucketKey
    rw [ground_of_get? text bounds hb] at hset hk
    rw [List.eq_nil_iff_forall_not_mem]
    intro id hid
    obtain ⟨hid,stamp,hst⟩ := (mem_freedBy hc id).mp hid
    -- the token still counts, so its stamp is live and the mark of the release was kept
    have hspent := hk.tokens id stamp hst
    have hstamp : stamp = handle.reservedAt :=
      (hs.distinct.spent_unique hspent ⟨handle,hm,rfl,List.mem_of_mem_take hid,rfl⟩).2
    obtain ⟨l,hl,-⟩ := hset.covered_spent hspent
    have hlive := hset.tokens_live id stamp l hst hl
    have hmark : b.released.get? handle.id = some handle.reservedAt :=
      hset.marked handle hm rfl hrel l hl (hstamp ▸ hlive)
    have hhas := (Dict.contains_iff _ _).mpr ⟨_,hmark⟩
    rw [hc] at hhas
    cases hhas

theorem Sound.freed_gone (hs : Sound text bounds s) (hid : id ∈ s.book.freed) (key : String) :
    (ground text bounds s.file key).tokens id = none := (hs.settled key).gone id hid

theorem release_twice (hs : Sound text bounds s) {s' : State} {unused : ℕ}
    (hrel : handle.id ∈ s.book.released) (h : step text bounds s (.release i handle unused) = some s') :
    s'.book.freed = s.book.freed ∧ ∀ key id, (ground text bounds s'.file key).tokens id =
    (ground text bounds s.file key).tokens id := by
  unfold step at h
  dsimp only at h
  split at h
  · rename_i hm
    obtain ⟨v,-,h⟩ := map_eq_some_iff.mp h
    split at h
    · subst h
      exact ⟨rfl,fun _ _ => rfl⟩
    · rw [hs.canonicalize_file] at h
      dsimp only at h
      split at h
      · subst h
        exact ⟨rfl,fun _ _ => rfl⟩
      · rename_i b hb
        subst h
        have hfree := hs.freedBy_released hm hb hrel unused
        refine ⟨by simp [hfree],?_⟩
        intro key id
        have hset : ∀ k c, (s.file.set k c).get? k = some c := fun k c => Dict.get?_set_self _ _ _
        by_cases hkey : key = handle.bucketKey
        · subst hkey
          rw [ground_of_get? text bounds hb]
          refine (congrArg (fun c => c.tokens id) (ground_of_get? text bounds (hset _ _))).trans ?_
          cases hc : b.released.contains handle.id with
          | true =>
            rw [TokenBucket.release_again unused hc]
          | false =>
            have hr : TokenBucket.Released text b handle unused _ := TokenBucket.release_first unused hc
            apply ext
            intro stamp
            refine (hr.tokens id stamp).trans ⟨And.left,fun hst => ⟨hst,fun hid => ?_⟩⟩
            have hin := (mem_freedBy hc id).mpr ⟨hid,stamp,hst⟩
            rw [hfree] at hin
            cases hin
        · have hother : ground text bounds (s.file.set handle.bucketKey (b.release text handle unused)) key =
              ground text bounds s.file key := by
            rw [ground,ground,Dict.get?_set_ne _ _ hkey]
          exact congrArg (fun c => c.tokens id) hother
  · cases h

theorem run_sound {start : Time} {as : List Act}
    (hok : Run.AllSteps (step text bounds) (canonicalKeys text) (initial start) as)
    (h : Run.exec (step text bounds) (initial start) as = some s) :
    Sound text bounds s ∧ WithinCapacity bounds s.book := by
  refine Run.exec_invariant_of (I := fun s => Sound text bounds s ∧ WithinCapacity bounds s.book) ?_ hok h
    ⟨sound_initial start,?_⟩
  · intro s a s' hi hok hstep
    have hafter := hi.1.after hok hstep
    exact ⟨hafter.sound,hafter.entered.withinCapacity hi.1 hi.2⟩
  · intro key t
    exact le_max_left _ _

end Invariant

/-- In every run that names its buckets by canonical keys: at every instant the reserved
and not released tokens of the last window are within the capacity, no released token
counts in the file or in a memory that merged with it, and releasing a handle again
frees nothing. -/
theorem reservations_within_capacity (text : TextOps) (bounds : Bounds) (start : Time) (as : List Act) (s : State)
    (hok : Run.AllSteps (step text bounds) (canonicalKeys text) (initial start) as)
    (h : Run.exec (step text bounds) (initial start) as = some s) :
    (∀ key t, ((s.book.outstanding bounds.window key t).length : ℤ) ≤ max 0 (bounds.capacityFor key)) ∧
      (∀ id ∈ s.book.freed, ∀ key b, s.file.get? key = some b → (b.tokens text).get? id = none) ∧
      (∀ a s' i, canonicalKeys text s a → step text bounds s a = some s' → a.merges = some i →
        ∀ v, s'.views i = some v → ∀ key b, v.mem.get? key = some b →
          ∀ id ∈ s'.book.freed, (b.tokens text).get? id = none) ∧
      ∀ i handle unused s', handle.id ∈ s.book.released → step text bounds s (.release i handle unused) = some s' →
        s'.book.freed = s.book.freed ∧
          ∀ key id, (ground text bounds s'.file key).tokens id = (ground text bounds s.file key).tokens id := by
  obtain ⟨hs,hbound⟩ := run_sound hok h
  refine ⟨hbound,?_,?_,?_⟩
  · intro id hid key b hb
    have hgone := hs.freed_gone hid key
    rw [ground_of_get? text bounds hb] at hgone
    exact hgone
  · intro a s' i hok' hstep hmerge v hv key b hb id hid
    have hafter := hs.after hok' hstep
    rw [hafter.current i hmerge v hv key b hb id]
    exact hafter.sound.freed_gone hid key
  · intro i handle unused s' hrel hstep
    exact release_twice hs hrel hstep

def asciiText : TextOps where
  lower := String.toLower
  sha256 := fun text => text
  formatDatetime := fun stamp => toString stamp

def sharedRun : List Act :=
  let handle : BucketReservation := ⟨"r1","claude",["t1","t2"],5⟩
  [.reopen 0,.reserve 0 "cc" (some "claude") 5 2 ["t1","t2"] "r1",.reopen 1,.release 0 handle 1,.save 1,
    .release 1 handle 2,.reserve 1 "cc" (some "claude") 6 1 ["t3"] "r2",.reserve 0 "claude" none 7 1 ["t4"] "r3"]

theorem reservations_within_capacity_shared : ∃ s ∈ Run.exec (step asciiText {capacity := 2})
    (initial 0) sharedRun, s.book.freed = ["t1"] ∧ (s.book.outstanding (seconds 60) "claude" 7).map
    Prod.fst = ["t2","t3"] ∧
    (∀ key t, ((s.book.outstanding (seconds 60) key t).length : ℤ) ≤ max 0 (Bounds.capacityFor {capacity := 2} key))
    ∧ ∀ key b, s.file.get? key = some b → (b.tokens asciiText).get? "t1" = none := by
  obtain ⟨s,hs,hfreed,hout⟩ : ∃ s ∈ Run.exec (step asciiText {capacity := 2}) (initial 0) sharedRun,
      s.book.freed = ["t1"] ∧ (s.book.outstanding (seconds 60) "claude" 7).map Prod.fst = ["t2","t3"] := by
    decide +kernel
  obtain ⟨hbound,hgone,-⟩ := reservations_within_capacity asciiText {capacity := 2} 0 sharedRun s
    (by decide +kernel) hs
  exact ⟨s,hs,hfreed,hout,hbound,hgone "t1" (by simp [hfreed])⟩

/-- A key that the loader folds onto its pool is refilled by every load. -/
theorem legacy_key_overspends : ∃ s ∈ Run.exec (step asciiText {capacity := 1}) (initial 0)
    [.reopen 0,.reserve 0 "cc/claude" none 0 1 ["t1"] "r1",.reserve 0 "cc/claude" none 0 1 ["t2"] "r2"], ¬
    ((s.book.outstanding (seconds 60) "cc/claude" 0).length : ℤ) ≤ max 0
    (Bounds.capacityFor {capacity := 1} "cc/claude") := by
  decide +kernel

end Verdict.HealthCache.Budget

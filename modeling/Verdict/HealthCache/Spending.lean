import Verdict.HealthCache.Budget

/-! # No interleaving overspends the budget

`Sound` ties every object's memory and the file to the history of reservations and
releases. Saving and reloading keep it because folding a view changes nothing
(`Sound.fold`); a reservation or a release changes one bucket and the history
together (`Sound.commit`).
-/
namespace Verdict.HealthCache.Budget

open List (mem_append mem_append_left mem_singleton)

/-- A bucket of some object's memory: canonical key, own ids, and nothing made up. -/
structure Held (text : TextOps) (bounds : Bounds) (s : State) (key : String) (b : TokenBucket) : Prop where
  canonical : legacyPoolKey text key = key
  owned : b.Owned text
  known : Known bounds s.book key (ground text bounds s.file key).ledgerAt (content text b)

structure Sound (text : TextOps) (bounds : Bounds) (s : State) : Prop where
  file : ∀ key b, s.file.get? key = some b → legacyPoolKey text key = key ∧ b.Owned text
  views : ∀ i v, s.views i = some v → ∀ key b, v.mem.get? key = some b → Held text bounds s key b
  known : ∀ key, Known bounds s.book key (ground text bounds s.file key).ledgerAt (ground text bounds s.file key)
  settled : ∀ key, Settled bounds s.book key (ground text bounds s.file key)
  distinct : s.book.Distinct
  clock : ∀ key l, (ground text bounds s.file key).ledgerAt = some l → l ≤ s.clock
  freed : ∀ id ∈ s.book.freed, ∃ key stamp, s.book.Spent key id stamp
  released : ∀ id ∈ s.book.released, ∃ h ∈ s.book.handles, h.id = id

section Invariant
variable {text : TextOps} {bounds : Bounds} {s : State}

theorem sound_initial (start : Time) : Sound text bounds (State.initial start) where
  file := fun _ _ h => by cases h
  views := fun _ _ h => by cases h
  known := fun key => known_blank bounds {} key none
  settled := by
    intro key
    constructor
    · intro _ h
      cases h
    · intro _ _ _ h
      cases h
    · intro _ _ _ h
      cases h
    · rintro _ _ _ ⟨_,h,-⟩
      cases h
    · intro _ _
      rfl
    · rintro _ _ _ ⟨_,h,-⟩
      cases h
    · intro _ h
      cases h
  distinct := ⟨List.nodup_nil,List.nodup_nil⟩
  clock := fun _ _ h => by cases h
  freed := fun _ h => by cases h
  released := fun _ h => by cases h

theorem Sound.canonicalize_file (hs : Sound text bounds s) : canonicalizeBuckets text s.file = .ok s.file :=
  canonicalizeBuckets_of_canonical fun key b hb => (hs.file key b hb).1

variable {v : View}

theorem Sound.canonicalize_view (hs : Sound text bounds s) {i : ℕ} (hv : s.views i = some v) :
    canonicalizeBuckets text v.mem = .ok v.mem :=
  canonicalizeBuckets_of_canonical fun key b hb => (hs.views i v hv key b hb).canonical

theorem Sound.held_file (hs : Sound text bounds s) {key : String} {b : TokenBucket} (hb : s.file.get? key = some b) :
    Held text bounds s key b := by
  obtain ⟨hc,ho⟩ := hs.file key b hb
  refine ⟨hc,ho,?_⟩
  have hk := hs.known key
  rw [ground_of_get? text bounds hb] at hk ⊢
  exact hk

theorem Sound.blank_of_missing (hs : Sound text bounds s) {key : String} {b : TokenBucket}
    (hb : Held text bounds s key b) (hmiss : s.file.get? key = none) : content text b = blank bounds key := by
  have hground : ground text bounds s.file key = blank bounds key := by
    rw [ground,hmiss]
    rfl
  have hset := hs.settled key
  have hk := hb.known
  rw [hground] at hset hk
  have hnone : ∀ h ∈ s.book.handles, h.bucketKey ≠ key := by
    intro h hm hkey
    obtain ⟨l,hl,-⟩ := hset.covered h hm hkey
    cases hl
  have hnospent : ∀ id stamp, ¬ s.book.Spent key id stamp := by
    rintro id stamp ⟨h,hm,hkey,-⟩
    exact hnone h hm hkey
  unfold content at hk ⊢
  unfold blank
  congr 1
  · exact hk.capacity
  · exact hk.window
  · exact hk.zeroedUntil
  · rw [Option.eq_none_iff_forall_ne_some]
    intro l hl
    obtain ⟨m,hm,-⟩ := hk.ledgerAt l hl
    cases hm
  · funext id
    rw [Option.eq_none_iff_forall_ne_some]
    intro stamp h
    exact hnospent id stamp (hk.tokens id stamp h)
  · funext id
    rw [Option.eq_none_iff_forall_ne_some]
    intro stamp h
    exact hnospent id stamp (hk.removed id stamp h).1
  · funext id
    rw [Option.eq_none_iff_forall_ne_some]
    intro stamp h
    obtain ⟨-,handle,hm,hkey,-⟩ := hk.released id stamp h
    exact hnone handle hm hkey

theorem Sound.fold (hs : Sound text bounds s) {mine : Buckets}
    (hmine : ∀ key b, mine.get? key = some b → Held text bounds s key b) (key : String) :
    Trims bounds (ground text bounds s.file key)
        (ground text bounds (Dict.mergeWith (foldBucket text) mine s.file) key) ∧
      ∀ b, (Dict.mergeWith (foldBucket text) mine s.file).get? key = some b →
        legacyPoolKey text key = key ∧ b.Owned text := by
  have hget := Dict.get?_mergeWith (foldBucket text) mine s.file key
  cases hm : mine.get? key with
  | none =>
    rw [hm] at hget
    constructor
    · rw [show ground text bounds (Dict.mergeWith (foldBucket text) mine s.file) key =
          ground text bounds s.file key by rw [ground,ground,hget]]
      exact Trims.refl bounds _
    · intro b hb
      exact hs.file key b (hget.symm.trans hb)
  | some m =>
    have hheld := hmine key m hm
    cases hf : s.file.get? key with
    | none =>
      rw [hm,hf] at hget
      have hget : (Dict.mergeWith (foldBucket text) mine s.file).get? key = some m := hget
      constructor
      · rw [ground_of_get? text bounds hget,hs.blank_of_missing hheld hf,ground,hf]
        exact Trims.refl bounds _
      · intro b hb
        cases hget.symm.trans hb
        exact ⟨hheld.canonical,hheld.owned⟩
    | some f =>
      rw [hm,hf] at hget
      have hget : (Dict.mergeWith (foldBucket text) mine s.file).get? key = some (f.mergeFrom text m) := hget
      have hk := hs.known key
      have hset := hs.settled key
      have hv := hheld.known
      rw [ground_of_get? text bounds hf] at hk hset hv
      constructor
      · rw [ground_of_get? text bounds hget,ground_of_get? text bounds hf]
        exact mergeFrom_trims hs.distinct hk hset hv
      · intro b hb
        cases hget.symm.trans hb
        exact ⟨hheld.canonical,(TokenBucket.mergeFrom_lists f m).2⟩

theorem Sound.setView (hs : Sound text bounds s) (i : ℕ)
    (hv : ∀ key b, v.mem.get? key = some b → Held text bounds s key b) : Sound text bounds (s.setView i v) where
  file := hs.file
  views := by
    intro j w hw key b hb
    have hheld : Held text bounds s key b := by
      by_cases hj : j = i
      · subst hj
        simp only [State.setView,Function.update_self,Option.some.injEq] at hw
        subst hw
        exact hv key b hb
      · simp only [State.setView,Function.update_of_ne hj] at hw
        exact hs.views j w hw key b hb
    exact ⟨hheld.canonical,hheld.owned,hheld.known⟩
  known := hs.known
  settled := hs.settled
  distinct := hs.distinct
  clock := hs.clock
  freed := hs.freed
  released := hs.released

variable {now : Time}

theorem Sound.tick (hs : Sound text bounds s) (h : s.clock ≤ now) :
    Sound text bounds {s with clock := now} where
  file := hs.file
  views := fun i v hv key b hb =>
    have hheld := hs.views i v hv key b hb
    ⟨hheld.canonical,hheld.owned,hheld.known⟩
  known := hs.known
  settled := hs.settled
  distinct := hs.distinct
  clock := fun key l hl => (hs.clock key l hl).trans h
  freed := hs.freed
  released := hs.released

variable {buckets : Buckets}

theorem Sound.rewrite (hs : Sound text bounds s)
    (h : ∀ key, Trims bounds (ground text bounds s.file key) (ground text bounds buckets key) ∧
      ∀ b, buckets.get? key = some b → legacyPoolKey text key = key ∧ b.Owned text) :
    Sound text bounds {s with file := buckets} where
  file := fun key b hb => (h key).2 b hb
  views := by
    intro i v hv key b hb
    have hheld := hs.views i v hv key b hb
    refine ⟨hheld.canonical,hheld.owned,?_⟩
    rw [(h key).1.ledgerAt]
    exact hheld.known
  known := by
    intro key
    rw [(h key).1.ledgerAt]
    exact (hs.known key).trim (h key).1
  settled := fun key => (hs.settled key).trim (h key).1
  distinct := hs.distinct
  clock := by
    intro key l hl
    rw [(h key).1.ledgerAt] at hl
    exact hs.clock key l hl
  freed := hs.freed
  released := hs.released

theorem Sound.publish (hs : Sound text bounds s) (i : ℕ)
    (h : ∀ key, Trims bounds (ground text bounds s.file key) (ground text bounds buckets key) ∧
      ∀ b, buckets.get? key = some b → legacyPoolKey text key = key ∧ b.Owned text) :
    Sound text bounds (s.publish i buckets) := by
  have hw := hs.rewrite h
  exact hw.setView i fun key b hb => hw.held_file hb

structure Book.Grows (book after : Book) (key : String) : Prop where
  handles : ∀ h ∈ book.handles, h ∈ after.handles
  handles_new : ∀ h ∈ after.handles, h ∈ book.handles ∨ h.bucketKey = key
  released : ∀ id ∈ book.released, id ∈ after.released
  released_new : ∀ h ∈ after.handles, h.id ∈ after.released → h.id ∈ book.released ∨ h.bucketKey = key
  freed : ∀ id ∈ book.freed, id ∈ after.freed
  freed_new : ∀ id ∈ after.freed, id ∈ book.freed ∨ ∃ stamp, after.Spent key id stamp
  released_known : ∀ id ∈ after.released, ∃ h ∈ after.handles, h.id = id
  distinct : after.Distinct

section
variable {book after : Book} {key : String}
variable {k id : String} {stamp : Time}

theorem Book.Grows.spent (hg : book.Grows after key) (h : book.Spent k id stamp) :
    after.Spent k id stamp := by
  obtain ⟨handle,hm,hrest⟩ := h
  exact ⟨handle,hg.handles handle hm,hrest⟩

theorem Book.Grows.spent_other (hg : book.Grows after key) (hk : k ≠ key)
    (h : after.Spent k id stamp) : book.Spent k id stamp := by
  obtain ⟨handle,hm,hkey,hrest⟩ := h
  rcases hg.handles_new handle hm with hm | hm
  · exact ⟨handle,hm,hkey,hrest⟩
  · exact absurd (hkey.symm.trans hm) hk

theorem Book.Grows.freed_other (hg : book.Grows after key) (hk : k ≠ key)
    (h : after.Spent k id stamp) (hf : id ∈ after.freed) : id ∈ book.freed := by
  rcases hg.freed_new id hf with hf | ⟨st,hst⟩
  · exact hf
  · exact absurd (hg.distinct.spent_unique h hst).1 hk

variable {base : Option Time} {c : Content}

theorem Book.Grows.known (hg : book.Grows after key) {base' : Option Time}
    (hbase : ∀ l, base = some l → ∃ m, base' = some m ∧ l ≤ m) (h : Known bounds book k base c) :
    Known bounds after k base' c where
  capacity := h.capacity
  window := h.window
  zeroedUntil := h.zeroedUntil
  tokens := fun id stamp hi => hg.spent (h.tokens id stamp hi)
  removed := by
    intro id stamp hi
    obtain ⟨hspent,hfree⟩ := h.removed id stamp hi
    exact ⟨hg.spent hspent,hg.freed id hfree⟩
  released := by
    intro id stamp hi
    obtain ⟨hrel,handle,hm,hrest⟩ := h.released id stamp hi
    exact ⟨hg.released id hrel,handle,hg.handles handle hm,hrest⟩
  ledgerAt := by
    intro l hl
    obtain ⟨m,hm,hle⟩ := h.ledgerAt l hl
    obtain ⟨n,hn,hle'⟩ := hbase m hm
    exact ⟨n,hn,hle.trans hle'⟩

theorem Book.Grows.settled_other (hg : book.Grows after key)
    (hk : k ≠ key) (hknown : Known bounds book k base c) (h : Settled bounds book k c) :
    Settled bounds after k c where
  covered := by
    intro handle hm hkey
    rcases hg.handles_new handle hm with hm | hm
    · exact h.covered handle hm hkey
    · exact absurd (hkey.symm.trans hm) hk
  tokens_live := h.tokens_live
  removed_live := h.removed_live
  kept := by
    intro id stamp l hspent hfree
    exact h.kept id stamp l (hg.spent_other hk hspent) fun hf => hfree (hg.freed id hf)
  gone := by
    intro id hfree
    rw [Option.eq_none_iff_forall_ne_some]
    intro stamp hi
    have hspent := hknown.tokens id stamp hi
    have hnone := h.gone id (hg.freed_other hk (hg.spent hspent) hfree)
    rw [hi] at hnone
    cases hnone
  buried := by
    intro id stamp l hspent hfree
    exact h.buried id stamp l (hg.spent_other hk hspent) (hg.freed_other hk hspent hfree)
  marked := by
    intro handle hm hkey hrel
    rcases hg.handles_new handle hm with hm' | hm'
    · rcases hg.released_new handle hm hrel with hr | hr
      · exact h.marked handle hm' hkey hr
      · exact absurd (hkey.symm.trans hr) hk
    · exact absurd (hkey.symm.trans hm') hk

end

variable {c : TokenBucket}

theorem Sound.commit (hs : Sound text bounds s) (i : ℕ) {key : String}
    {book : Book} (hget : buckets.get? key = some c)
    (hother : ∀ k, k ≠ key → buckets.get? k = s.file.get? k) (hcanon : legacyPoolKey text key = key)
    (howned : c.Owned text) (hg : s.book.Grows book key) (hknown : Known bounds book key c.ledgerAt (content text c))
    (hset : Settled bounds book key (content text c))
    (hledger : ∀ l, (ground text bounds s.file key).ledgerAt = some l → ∃ m, c.ledgerAt = some m ∧ l ≤ m)
    (hclock : s.clock ≤ now) (hnow : ∀ l, c.ledgerAt = some l → l ≤ now) :
    Sound text bounds {s.publish i buckets with clock := now, book := book} := by
  have hkey : ground text bounds buckets key = content text c := ground_of_get? text bounds hget
  have helse : ∀ k, k ≠ key → ground text bounds buckets k = ground text bounds s.file k := by
    intro k hk
    rw [ground,ground,hother k hk]
  have hmono : ∀ k l, (ground text bounds s.file k).ledgerAt = some l →
      ∃ m, (ground text bounds buckets k).ledgerAt = some m ∧ l ≤ m := by
    intro k l hl
    by_cases hk : k = key
    · rw [hk] at hl ⊢
      rw [hkey]
      exact hledger l hl
    · rw [helse k hk]
      exact ⟨l,hl,le_rfl⟩
  have hfile : ∀ k b, buckets.get? k = some b → legacyPoolKey text k = k ∧ b.Owned text := by
    intro k b hb
    by_cases hk : k = key
    · subst hk
      cases hget.symm.trans hb
      exact ⟨hcanon,howned⟩
    · exact hs.file k b ((hother k hk).symm.trans hb)
  have hcore : Sound text bounds {s with file := buckets, clock := now, book := book} := by
    refine ⟨hfile,?_,?_,?_,hg.distinct,?_,?_,hg.released_known⟩
    · intro j v hv k b hb
      have hheld := hs.views j v hv k b hb
      exact ⟨hheld.canonical,hheld.owned,hg.known (hmono k) hheld.known⟩
    · intro k
      by_cases hk : k = key
      · rw [hk,hkey]
        exact hknown
      · rw [helse k hk]
        exact hg.known (fun l hl => ⟨l,hl,le_rfl⟩) (hs.known k)
    · intro k
      by_cases hk : k = key
      · rw [hk,hkey]
        exact hset
      · rw [helse k hk]
        exact hg.settled_other hk (hs.known k) (hs.settled k)
    · intro k l hl
      by_cases hk : k = key
      · rw [hk,hkey] at hl
        exact hnow l hl
      · rw [helse k hk] at hl
        exact (hs.clock k l hl).trans hclock
    · intro id hid
      rcases hg.freed_new id hid with hold | ⟨stamp,hst⟩
      · obtain ⟨k,stamp,hst⟩ := hs.freed id hold
        exact ⟨k,stamp,hg.spent hst⟩
      · exact ⟨key,stamp,hst⟩
  exact hcore.setView i fun k b hb => hcore.held_file hb

structure Reserved (text : TextOps) (bounds : Bounds) (s : State) (buckets : Buckets) (now : Time) (amount : ℕ)
    (ids : List String) (handle : BucketReservation) : Prop where
  spend : ∃ b c, content text b = ground text bounds s.file handle.bucketKey ∧ b.Owned text ∧
    TokenBucket.Consumed text b now amount ids c ∧ buckets.get? handle.bucketKey = some c
  other : ∀ k, k ≠ handle.bucketKey → buckets.get? k = s.file.get? k
  tokens : ∀ id, id ∈ handle.tokenIds ↔ id ∈ ids
  nodup : handle.tokenIds.Nodup
  reservedAt : handle.reservedAt = now

variable {id : String} {stamp : Time}

theorem Sound.spent_of_content (hs : Sound text bounds s) {key : String} {b : TokenBucket}
    (hb : content text b = ground text bounds s.file key)
    (h : (b.tokens text).get? id = some stamp) : s.book.Spent key id stamp := by
  have hk := hs.known key
  rw [← hb] at hk
  exact hk.tokens id stamp h

variable {amount : ℕ} {ids : List String} {handleId : String}

theorem Book.fresh.not_spent {book : Book}
    (hf : book.fresh amount ids handleId) {key : String} (hid : id ∈ ids) :
    ¬ book.Spent key id stamp := by
  rintro ⟨h,hm,-,hi,-⟩
  exact hf.2.2.1 h hm id hid hi

theorem Sound.reserved (hs : Sound text bounds s) {provider : String} {pool : Option String}
    {key : String} {handle : BucketReservation}
    (hfresh : s.book.fresh amount ids handleId) (hkey : bucketKey provider pool = .ok key)
    (h : reserveBucket text bounds s.file provider pool now amount ids handleId = (buckets,.ok (some handle))) :
    handle.bucketKey = key ∧ handle.id = handleId ∧ Reserved text bounds s buckets now amount ids handle := by
  unfold reserveBucket at h
  rw [hkey] at h
  dsimp only at h
  cases hb : bucketFor bounds s.file key with
  | error e =>
    rw [hb] at h
    simp at h
  | ok r =>
    obtain ⟨bucket,disk⟩ := r
    rw [hb] at h
    dsimp only at h
    obtain ⟨hget,hcontent,howned,hother⟩ :=
      bucketFor_content text bounds (fun b' hb' => (hs.file key b' hb').2) hb
    cases hc : bucket.consume text now amount ids with
    | error e =>
      rw [hc] at h
      simp at h
    | ok r =>
      cases r with
      | none =>
        rw [hc] at h
        simp at h
      | some spent =>
        rw [hc] at h
        simp only [Prod.mk.injEq,Except.ok.injEq,Option.some.injEq] at h
        obtain ⟨rfl,rfl⟩ := h
        have hspent := TokenBucket.consume_some hc
        refine ⟨rfl,rfl,⟨bucket,spent,hcontent,howned,hspent,Dict.get?_set_self _ _ _⟩,?_,?_,?_,rfl⟩
        · intro k hk
          rw [Dict.get?_set_ne _ _ hk]
          exact hother k hk
        · intro id
          rw [List.mem_filter,hspent.owned.1,Dict.mem_keys_iff,Bool.not_eq_true',Bool.eq_false_iff,ne_eq,
            Dict.contains_iff]
          constructor
          · rintro ⟨⟨stamp,hst⟩,hnot⟩
            rcases (hspent.tokens id stamp).mp hst with ⟨hid,-⟩ | ⟨-,hold,-⟩
            · exact hid
            · exact absurd ⟨stamp,hold⟩ hnot
          · intro hid
            refine ⟨⟨now,(hspent.tokens id now).mpr (.inl ⟨hid,rfl⟩)⟩,?_⟩
            rintro ⟨stamp,hst⟩
            exact hfresh.not_spent hid (hs.spent_of_content hcontent hst)
        · rw [hspent.owned.1]
          exact (spent.tokens text).nodup.filter _

def Book.reserve (book : Book) (handle : BucketReservation) : Book :=
  {book with handles := book.handles ++ [handle]}

theorem Sound.grows_reserve (hs : Sound text bounds s)
    {handle : BucketReservation} (hfresh : s.book.fresh amount ids handle.id)
    (hr : Reserved text bounds s buckets now amount ids handle) :
    s.book.Grows (s.book.reserve handle) handle.bucketKey where
  handles := fun h hm => mem_append_left _ hm
  handles_new := by
    intro h hm
    rcases mem_append.mp hm with hm | hm
    · exact .inl hm
    · rw [mem_singleton.mp hm]
      exact .inr rfl
  released := fun _ h => h
  released_new := fun _ _ h => .inl h
  freed := fun _ h => h
  freed_new := fun _ h => .inl h
  released_known := by
    intro id hid
    obtain ⟨h,hm,hh⟩ := hs.released id hid
    exact ⟨h,mem_append_left _ hm,hh⟩
  distinct := by
    constructor
    · rw [Book.reserve,List.flatMap_append,List.nodup_append]
      refine ⟨hs.distinct.tokens,by simpa using hr.nodup,?_⟩
      intro id hold id' hnew heq
      subst heq
      obtain ⟨h,hm,hi⟩ := List.mem_flatMap.mp hold
      have hi' : id ∈ handle.tokenIds := by simpa using hnew
      exact hfresh.2.2.1 h hm id ((hr.tokens id).mp hi') hi
    · rw [Book.reserve,List.map_append,List.nodup_append]
      refine ⟨hs.distinct.handles,by simp,?_⟩
      intro id hold id' hnew heq
      obtain ⟨h,hm,rfl⟩ := List.mem_map.mp hold
      rw [List.map_singleton,mem_singleton] at hnew
      exact hfresh.2.2.2 h hm (heq.trans hnew)

theorem Book.spent_reserve {book : Book} {handle : BucketReservation} {key : String} :
    (book.reserve handle).Spent key id stamp ↔ book.Spent key id stamp ∨
      handle.bucketKey = key ∧ id ∈ handle.tokenIds ∧ handle.reservedAt = stamp := by
  simp only [Book.Spent,Book.reserve,mem_append,mem_singleton]
  constructor
  · rintro ⟨h,hm | rfl,hrest⟩
    · exact .inl ⟨h,hm,hrest⟩
    · exact .inr hrest
  · rintro (⟨h,hm,hrest⟩ | hrest)
    · exact ⟨h,.inl hm,hrest⟩
    · exact ⟨handle,.inr rfl,hrest⟩

theorem Sound.known_reserve (hs : Sound text bounds s)
    {handle : BucketReservation} (hfresh : s.book.fresh amount ids handle.id)
    (hr : Reserved text bounds s buckets now amount ids handle) {b : TokenBucket}
    (hb : content text b = ground text bounds s.file handle.bucketKey)
    (hc : TokenBucket.Consumed text b now amount ids c) :
    Known bounds (s.book.reserve handle) handle.bucketKey c.ledgerAt (content text c) := by
  have hg := hs.grows_reserve hfresh hr
  have hk := hs.known handle.bucketKey
  rw [← hb] at hk
  have hold := hg.known (fun l hl => ⟨l,hl,le_rfl⟩) hk
  refine ⟨hc.capacity.trans hk.capacity,hc.window.trans hk.window,hc.zeroedUntil.trans hk.zeroedUntil,?_,?_,?_,
    fun l hl => ⟨l,hl,le_rfl⟩⟩
  · intro id stamp h
    rcases (hc.tokens id stamp).mp h with ⟨hid,rfl⟩ | ⟨-,h,-⟩
    · exact Book.spent_reserve.mpr (.inr ⟨rfl,(hr.tokens id).mpr hid,hr.reservedAt⟩)
    · exact hold.tokens id stamp h
  · intro id stamp h
    exact hold.removed id stamp ((hc.removed id stamp).mp h).1
  · intro id stamp h
    exact hold.released id stamp ((hc.released id stamp).mp h).1

theorem Sound.ledger_reserve (hs : Sound text bounds s) {key : String}
    (hnow : s.clock ≤ now) {b : TokenBucket} (hb : content text b = ground text bounds s.file key)
    (hc : TokenBucket.Consumed text b now amount ids c) : c.ledgerAt = some now := by
  rw [hc.ledgerAt]
  cases hl : b.ledgerAt with
  | none => simp
  | some l =>
    have hle : l ≤ s.clock := by
      apply hs.clock key
      rw [← hb]
      exact hl
    simp [max_eq_left (hle.trans hnow)]

theorem Sound.settled_reserve (hs : Sound text bounds s)
    {handle : BucketReservation} (hfresh : s.book.fresh amount ids handle.id)
    (hnow : s.clock ≤ now) (hr : Reserved text bounds s buckets now amount ids handle) {b : TokenBucket}
    (hb : content text b = ground text bounds s.file handle.bucketKey)
    (hc : TokenBucket.Consumed text b now amount ids c) :
    Settled bounds (s.book.reserve handle) handle.bucketKey (content text c) := by
  have hledger : (content text c).ledgerAt = some now := hs.ledger_reserve hnow hb hc
  have hk := hs.known handle.bucketKey
  have hset := hs.settled handle.bucketKey
  have hclock := hs.clock handle.bucketKey
  rw [← hb] at hk hset hclock
  have hw : b.window = bounds.window := hk.window
  -- a stamp inside the new window was inside the old one
  have hback : ∀ l stamp, (content text b).ledgerAt = some l → now - bounds.window < stamp →
      l - bounds.window < stamp := by
    intro l stamp hl hlive
    exact lt_of_le_of_lt (Int.sub_le_sub_right ((hclock l hl).trans hnow) _) hlive
  constructor
  · intro h hm hkey
    refine ⟨now,hledger,?_⟩
    rcases mem_append.mp hm with hm | hm
    · obtain ⟨l,hl,hle⟩ := hset.covered h hm hkey
      exact (hle.trans (hclock l hl)).trans hnow
    · rw [mem_singleton.mp hm,hr.reservedAt]
  · intro id stamp l h hl
    rw [hledger] at hl
    cases hl
    rcases (hc.tokens id stamp).mp h with ⟨-,rfl⟩ | ⟨-,-,hlive⟩
    · exact Int.sub_lt_self stamp bounds.window_pos
    · rw [← hw]
      exact hlive
  · intro id stamp l h hl
    rw [hledger] at hl
    cases hl
    rw [← hw]
    exact ((hc.removed id stamp).mp h).2
  · intro id stamp l hspent hfree hl hlive
    rw [hledger] at hl
    cases hl
    apply (hc.tokens id stamp).mpr
    rcases Book.spent_reserve.mp hspent with hold | ⟨-,hid,hst⟩
    · right
      obtain ⟨m,hm,-⟩ := hset.covered_spent hold
      refine ⟨fun hid => hfresh.not_spent hid hold,?_,by rw [hw]; exact hlive⟩
      exact hset.kept id stamp m hold hfree hm (hback m stamp hm hlive)
    · left
      exact ⟨(hr.tokens id).mp hid,hst.symm.trans hr.reservedAt⟩
  · intro id hfree
    rw [Option.eq_none_iff_forall_ne_some]
    intro stamp h
    rcases (hc.tokens id stamp).mp h with ⟨hid,-⟩ | ⟨-,h,-⟩
    · obtain ⟨k,st,hst⟩ := hs.freed id hfree
      exact hfresh.not_spent hid hst
    · have hnone : (b.tokens text).get? id = none := hset.gone id hfree
      rw [h] at hnone
      cases hnone
  · intro id stamp l hspent hfree hl hlive
    rw [hledger] at hl
    cases hl
    apply (hc.removed id stamp).mpr
    rw [hw]
    rcases Book.spent_reserve.mp hspent with hold | ⟨-,hid,-⟩
    · obtain ⟨m,hm,-⟩ := hset.covered_spent hold
      exact ⟨hset.buried id stamp m hold hfree hm (hback m stamp hm hlive),hlive⟩
    · obtain ⟨k,st,hst⟩ := hs.freed id hfree
      exact absurd hst (hfresh.not_spent ((hr.tokens id).mp hid))
  · intro h hm hkey hrel l hl hlive
    rw [hledger] at hl
    cases hl
    apply (hc.released h.id h.reservedAt).mpr
    rw [hw]
    rcases mem_append.mp hm with hm | hm
    · obtain ⟨m,hml,-⟩ := hset.covered h hm hkey
      exact ⟨hset.marked h hm hkey hrel m hml (hback m _ hml hlive),hlive⟩
    · rw [mem_singleton.mp hm] at hrel
      obtain ⟨h',hm',heq⟩ := hs.released handle.id hrel
      exact absurd heq (hfresh.2.2.2 h' hm')

theorem Sound.reserve (hs : Sound text bounds s) (i : ℕ)
    {handle : BucketReservation} (hfresh : s.book.fresh amount ids handle.id)
    (hnow : s.clock ≤ now) (hcanon : legacyPoolKey text handle.bucketKey = handle.bucketKey)
    (hr : Reserved text bounds s buckets now amount ids handle) :
    Sound text bounds {s.publish i buckets with clock := now, book := s.book.reserve handle} := by
  obtain ⟨b,c,hb,-,hc,hget⟩ := hr.spend
  have hledger := hs.ledger_reserve hnow hb hc
  refine hs.commit i hget hr.other hcanon hc.owned (hs.grows_reserve hfresh hr)
    (hs.known_reserve hfresh hr hb hc) (hs.settled_reserve hfresh hnow hr hb hc) ?_ hnow ?_
  · intro l hl
    exact ⟨now,hledger,(hs.clock _ l hl).trans hnow⟩
  · intro l hl
    rw [hledger] at hl
    cases hl
    exact le_rfl

def Book.release (book : Book) (handle : BucketReservation) (freed : List String) : Book :=
  {book with released := book.released ++ [handle.id], freed := book.freed ++ freed}

theorem mem_freedBy {b : TokenBucket} {handle : BucketReservation} {unused : ℕ}
    (h : b.released.contains handle.id = false) (id : String) :
    id ∈ freedBy text b handle unused ↔
      id ∈ handle.tokenIds.take unused ∧ ∃ stamp, (b.tokens text).get? id = some stamp := by
  rw [freedBy,if_neg (by simp [h]),List.mem_filter,Dict.contains_iff]

theorem freedBy_again {b : TokenBucket} {handle : BucketReservation} (unused : ℕ)
    (h : b.released.contains handle.id = true) : freedBy text b handle unused = [] := if_pos h

section Release
variable {b : TokenBucket} {handle : BucketReservation} (hs : Sound text bounds s)
  (hm : handle ∈ s.book.handles) (hb : s.file.get? handle.bucketKey = some b)
include hs hm hb

theorem Sound.grows_release (unused : ℕ) :
    s.book.Grows (s.book.release handle (freedBy text b handle unused)) handle.bucketKey where
  handles := fun _ h => h
  handles_new := fun _ h => .inl h
  released := fun _ h => mem_append_left _ h
  released_new := by
    intro h hh hrel
    rcases mem_append.mp hrel with hrel | hrel
    · exact .inl hrel
    · rw [hs.distinct.handle_unique hh hm (mem_singleton.mp hrel)]
      exact .inr rfl
  freed := fun _ h => mem_append_left _ h
  freed_new := by
    intro id hid
    rcases mem_append.mp hid with hid | hid
    · exact .inl hid
    · right
      cases hc : b.released.contains handle.id with
      | true =>
        rw [freedBy_again unused hc] at hid
        cases hid
      | false =>
        obtain ⟨-,stamp,hst⟩ := (mem_freedBy hc id).mp hid
        exact ⟨stamp,hs.spent_of_content (ground_of_get? text bounds hb).symm hst⟩
  released_known := by
    intro id hid
    rcases mem_append.mp hid with hid | hid
    · exact hs.released id hid
    · exact ⟨handle,hm,(mem_singleton.mp hid).symm⟩
  distinct := ⟨hs.distinct.tokens,hs.distinct.handles⟩

theorem Sound.release_again (unused : ℕ) (hc : b.released.contains handle.id = true) :
    Known bounds (s.book.release handle (freedBy text b handle unused)) handle.bucketKey b.ledgerAt (content text b) ∧
      Settled bounds (s.book.release handle (freedBy text b handle unused)) handle.bucketKey (content text b) := by
  have hg := hs.grows_release hm hb unused
  have hk := hs.known handle.bucketKey
  have hset := hs.settled handle.bucketKey
  rw [ground_of_get? text bounds hb] at hk hset
  refine ⟨hg.known (fun l hl => ⟨l,hl,le_rfl⟩) hk,?_⟩
  have hfreed : s.book.freed ++ freedBy text b handle unused = s.book.freed := by
    rw [freedBy_again unused hc,List.append_nil]
  have hrel : handle.id ∈ s.book.released := by
    obtain ⟨stamp,hst⟩ := (Dict.contains_iff _ _).mp hc
    exact (hk.released handle.id stamp hst).1
  refine ⟨hset.covered,hset.tokens_live,hset.removed_live,?_,?_,?_,?_⟩
  · rw [Book.release,hfreed]
    exact hset.kept
  · rw [Book.release,hfreed]
    exact hset.gone
  · rw [Book.release,hfreed]
    exact hset.buried
  · intro h hh hkey hr
    have hr' : h.id ∈ s.book.released := by
      rcases mem_append.mp hr with hr | hr
      · exact hr
      · rw [mem_singleton.mp hr]
        exact hrel
    exact hset.marked h hh hkey hr'

theorem Sound.release_first {c : TokenBucket} (unused : ℕ) (hc : b.released.contains handle.id = false)
    (hr : TokenBucket.Released text b handle unused c) :
    Known bounds (s.book.release handle (freedBy text b handle unused)) handle.bucketKey c.ledgerAt (content text c) ∧
      Settled bounds (s.book.release handle (freedBy text b handle unused)) handle.bucketKey (content text c) := by
  have hg := hs.grows_release hm hb unused
  have hk := hs.known handle.bucketKey
  have hset := hs.settled handle.bucketKey
  rw [ground_of_get? text bounds hb] at hk hset
  have hledger : (content text c).ledgerAt = (content text b).ledgerAt := hr.ledgerAt
  have hfreed : ∀ id stamp, (b.tokens text).get? id = some stamp → id ∈ handle.tokenIds.take unused →
      id ∈ (s.book.release handle (freedBy text b handle unused)).freed := by
    intro id stamp hst hid
    exact List.mem_append_right _ ((mem_freedBy hc id).mpr ⟨hid,stamp,hst⟩)
  -- a tombstone is an old one or one this release makes
  have hremoved : ∀ id stamp, c.removed.get? id = some stamp →
      (b.tokens text).get? id = some stamp ∧ id ∈ handle.tokenIds.take unused ∨ b.removed.get? id = some stamp := by
    intro id stamp h
    rw [hr.removed id] at h
    split at h
    · rename_i hid
      cases ht : (b.tokens text).get? id with
      | some st =>
        rw [ht] at h
        exact .inl ⟨h,hid⟩
      | none =>
        rw [ht] at h
        exact .inr h
    · exact .inr h
  refine ⟨⟨hr.capacity.trans hk.capacity,hr.window.trans hk.window,hr.zeroedUntil.trans hk.zeroedUntil,?_,?_,?_,
    fun l hl => ⟨l,hl,le_rfl⟩⟩,?_⟩
  · intro id stamp h
    exact hk.tokens id stamp ((hr.tokens id stamp).mp h).1
  · intro id stamp h
    rcases hremoved id stamp h with ⟨hst,hid⟩ | h
    · exact ⟨hk.tokens id stamp hst,hfreed id stamp hst hid⟩
    · obtain ⟨hspent,hfree⟩ := hk.removed id stamp h
      exact ⟨hspent,hg.freed id hfree⟩
  · intro id stamp h
    have h : c.released.get? id = some stamp := h
    rw [hr.released id] at h
    split at h
    · rename_i hid
      cases h
      exact ⟨by rw [hid]; exact List.mem_append_right _ (by simp),handle,hm,rfl,hid.symm,rfl⟩
    · obtain ⟨hrel,hrest⟩ := hk.released id stamp h
      exact ⟨hg.released id hrel,hrest⟩
  constructor
  · rw [hledger]
    exact hset.covered
  · intro id stamp l h hl
    rw [hledger] at hl
    exact hset.tokens_live id stamp l ((hr.tokens id stamp).mp h).1 hl
  · intro id stamp l h hl
    rw [hledger] at hl
    rcases hremoved id stamp h with ⟨hst,-⟩ | h
    · exact hset.tokens_live id stamp l hst hl
    · exact hset.removed_live id stamp l h hl
  · intro id stamp l hspent hfree hl hlive
    rw [hledger] at hl
    have hst := hset.kept id stamp l hspent (fun hf => hfree (hg.freed id hf)) hl hlive
    exact (hr.tokens id stamp).mpr ⟨hst,fun hid => hfree (hfreed id stamp hst hid)⟩
  · intro id hfree
    rw [Option.eq_none_iff_forall_ne_some]
    intro stamp h
    obtain ⟨hst,hnot⟩ := (hr.tokens id stamp).mp h
    rcases mem_append.mp hfree with hfree | hfree
    · have hnone : (b.tokens text).get? id = none := hset.gone id hfree
      rw [hst] at hnone
      cases hnone
    · exact hnot ((mem_freedBy hc id).mp hfree).1
  · intro id stamp l hspent hfree hl hlive
    rw [hledger] at hl
    have hspent : s.book.Spent handle.bucketKey id stamp := hspent
    have hgoal : c.removed.get? id = some stamp := by
      rw [hr.removed id]
      by_cases hold : id ∈ s.book.freed
      · have hst : b.removed.get? id = some stamp := hset.buried id stamp l hspent hold hl hlive
        have hnone : (b.tokens text).get? id = none := hset.gone id hold
        rw [hnone,hst]
        split <;> rfl
      · rcases mem_append.mp hfree with hf | hf
        · exact absurd hf hold
        · rw [if_pos ((mem_freedBy hc id).mp hf).1]
          have hst : (b.tokens text).get? id = some stamp := hset.kept id stamp l hspent hold hl hlive
          rw [hst]
          rfl
    exact hgoal
  · intro h hh hkey hrel l hl hlive
    rw [hledger] at hl
    have hgoal : c.released.get? h.id = some h.reservedAt := by
      rw [hr.released h.id]
      by_cases heq : h.id = handle.id
      · rw [if_pos heq,hs.distinct.handle_unique hh hm heq]
      · rw [if_neg heq]
        rcases mem_append.mp hrel with hrel | hrel
        · exact hset.marked h hh hkey hrel l hl hlive
        · exact absurd (mem_singleton.mp hrel) heq
    exact hgoal

theorem Sound.release (i unused : ℕ) :
    Sound text bounds { s.publish i (s.file.set handle.bucketKey (b.release text handle unused)) with
      book := s.book.release handle (freedBy text b handle unused) } := by
  obtain ⟨hcanon,howned⟩ := hs.file handle.bucketKey b hb
  have hground := ground_of_get? text bounds hb
  have hother : ∀ k, k ≠ handle.bucketKey →
      (s.file.set handle.bucketKey (b.release text handle unused)).get? k = s.file.get? k :=
    fun k hk => Dict.get?_set_ne _ _ hk
  have hmono : ∀ l, (ground text bounds s.file handle.bucketKey).ledgerAt = some l →
      ∃ m, b.ledgerAt = some m ∧ l ≤ m := by
    intro l hl
    rw [hground] at hl
    exact ⟨l,hl,le_rfl⟩
  have hclock : ∀ l, b.ledgerAt = some l → l ≤ s.clock := by
    intro l hl
    apply hs.clock handle.bucketKey
    rw [hground]
    exact hl
  have hg := hs.grows_release hm hb unused
  cases hc : b.released.contains handle.id with
  | true =>
    obtain ⟨hk,hset⟩ := hs.release_again hm hb unused hc
    rw [TokenBucket.release_again unused hc] at hother ⊢
    exact hs.commit i (Dict.get?_set_self _ _ _) hother hcanon howned hg hk hset hmono le_rfl hclock
  | false =>
    have hr : TokenBucket.Released text b handle unused _ := TokenBucket.release_first unused hc
    obtain ⟨hk,hset⟩ := hs.release_first hm hb unused hc hr
    refine hs.commit i (Dict.get?_set_self _ _ _) hother hcanon hr.owned hg hk hset ?_ le_rfl ?_
    · rw [hr.ledgerAt]
      exact hmono
    · rw [hr.ledgerAt]
      exact hclock

end Release

end Invariant
end Verdict.HealthCache.Budget

import Verdict.Basics.Run
import Verdict.HealthCache.Bucket

/-! # The shared request budget

Several `HealthCache` objects spend from the same buckets. A reservation and a release are locked
read-modify-writes of the file; in between the objects save and reload from views that may be
stale. The history of handles and freed tokens is kept beside the file, and folding any view into
the file changes nothing the file says about it (`mergeFrom_content`).
-/
namespace Verdict.HealthCache.Budget

open TokenBucket (get?_mergedTokens laterStamps_contains laterStamps_some mergeFrom same survives)

structure View where
  (mem loaded : Buckets)

structure Book where
  handles : List BucketReservation := []
  released : List String := []
  freed : List String := []

structure State where
  file : Buckets
  views : ℕ → Option View
  clock : Time
  book : Book

inductive Act
  | reopen (i : ℕ)
  | lookUp (i : ℕ) (provider : String) (pool : Option String)
  | save (i : ℕ)
  | reload (i : ℕ) (othersChanged : Bool)
  | reserve (i : ℕ) (provider : String) (pool : Option String) (now : Time) (amount : ℕ) (ids : List String)
      (handleId : String)
  | release (i : ℕ) (handle : BucketReservation) (unused : ℕ)

section System
variable (text : TextOps) (bounds : Bounds)

def State.initial (start : Time) : State where
  file := .empty
  views := fun _ => none
  clock := start
  book := {}

variable (s : State)

def State.setView (i : ℕ) (v : View) : State := {s with views := Function.update s.views i (some v)}

def State.publish (i : ℕ) (buckets : Buckets) : State :=
  {s.setView i ⟨buckets,buckets⟩ with file := buckets}

def foldBucket (_ : String) (mine : TokenBucket) : Option TokenBucket → Option TokenBucket
  | none => some mine
  | some disk => some (disk.mergeFrom text mine)

def View.changed (v : View) : Buckets :=
  v.mem.filter fun key b => !(v.loaded.get? key).any fun known => b.same text known

def View.unsaved (v : View) (othersChanged : Bool) : Bool :=
  othersChanged || !v.mem.sameBy (same text) v.loaded

/-- `uuid4` never repeats an id. -/
def Book.fresh (book : Book) (amount : ℕ) (ids : List String) (handleId : String) : Prop :=
  ids.length = amount ∧ ids.Nodup ∧ (∀ h ∈ book.handles, ∀ id ∈ ids, id ∉ h.tokenIds) ∧
    ∀ h ∈ book.handles, h.id ≠ handleId

instance (book : Book) (amount : ℕ) (ids : List String) (handleId : String) :
    Decidable (book.fresh amount ids handleId) := by
  unfold Book.fresh
  infer_instance

/-- The mutation of `reserve_bucket` on the loaded buckets: what is in memory when it ends,
and the handle, or the error that keeps it from being written. -/
def reserveBucket (disk : Buckets) (provider : String) (pool : Option String) (now : Time) (amount : ℕ)
    (ids : List String) (handleId : String) : Buckets × Except BucketError (Option BucketReservation) :=
  match bucketKey provider pool with
  | .error e => (disk,.error e)
  | .ok key => match bucketFor bounds disk key with
    | .error e => (disk,.error e)
    | .ok (bucket,buckets) => match bucket.consume text now amount ids with
      | .error e => (buckets,.error e)
      | .ok none => (buckets,.ok none)
      | .ok (some spent) => (buckets.set key spent,.ok (some {
          id := handleId
          bucketKey := key
          tokenIds := spent.tokenIds.filter fun id => !(bucket.tokens text).contains id
          reservedAt := now }))

def freedBy (bucket : TokenBucket) (handle : BucketReservation) (unused : ℕ) : List String :=
  if bucket.released.contains handle.id then []
  else (handle.tokenIds.take unused).filter fun id => (bucket.tokens text).contains id

/-- One call on object `i`. A call that raises leaves the file alone. -/
def step : Act → Option State
  | .reopen i => some (match canonicalizeBuckets text s.file with
    | .error _ => s
    | .ok disk => s.setView i ⟨disk,disk⟩)
  | .lookUp i provider pool => (s.views i).map (fun v => match bucketKey provider pool with
    | .error _ => s
    | .ok key => match bucketFor bounds v.mem key with
      | .error _ => s
      | .ok (_,mem) => s.setView i {v with mem := mem})
  | .save i => (s.views i).map (fun v =>
    match canonicalizeBuckets text v.mem, canonicalizeBuckets text s.file with
    | .ok mine, .ok disk => s.publish i (Dict.mergeWith (foldBucket text) mine disk)
    | _, _ => s)
  | .reload i othersChanged => (s.views i).map (fun v => match canonicalizeBuckets text s.file with
    | .error _ => s
    | .ok disk =>
      if v.unsaved text othersChanged then
        s.setView i ⟨Dict.mergeWith (foldBucket text) (v.changed text) disk,disk⟩
      else s.setView i ⟨disk,disk⟩)
  | .reserve i provider pool now amount ids handleId =>
    if s.clock ≤ now ∧ s.book.fresh amount ids handleId then
      (s.views i).map (fun _ => match canonicalizeBuckets text s.file with
        | .error _ => {s with clock := now}
        | .ok disk => match reserveBucket text bounds disk provider pool now amount ids handleId with
          | (mem,.error _) => {s.setView i ⟨mem,disk⟩ with clock := now}
          | (mem,.ok handle) => { s.publish i mem with
              clock := now
              book := {s.book with handles := s.book.handles ++ handle.toList} })
    else none
  | .release i handle unused =>
    if handle ∈ s.book.handles then
      (s.views i).map (fun _ =>
        if handle.tokenIds.length < unused then s
        else match canonicalizeBuckets text s.file with
          | .error _ => s
          | .ok disk => match disk.get? handle.bucketKey with
            | none => s.publish i disk
            | some bucket => { s.publish i (disk.set handle.bucketKey (bucket.release text handle unused)) with
                book := { s.book with
                  released := s.book.released ++ [handle.id]
                  freed := s.book.freed ++ freedBy text bucket handle unused } })
    else none

def Book.spent (book : Book) (key : String) : List (String × Time) :=
  (book.handles.filter fun h => h.bucketKey = key).flatMap fun h => h.tokenIds.map fun id => (id,h.reservedAt)

/-- Reserved and not released tokens stamped inside the window that ends at `t`. -/
def Book.outstanding (book : Book) (window : ℤ) (key : String) (t : Time) : List (String × Time) :=
  (book.spent key).filter fun e => e.1 ∉ book.freed ∧ t - window < e.2 ∧ e.2 ≤ t

def canonicalKeys (_ : State) : Act → Prop
  | .lookUp _ provider pool => ∀ key, bucketKey provider pool = .ok key → legacyPoolKey text key = key
  | .reserve _ provider pool _ _ _ _ => ∀ key, bucketKey provider pool = .ok key → legacyPoolKey text key = key
  | _ => True

instance decidableCanonicalKeys (s : State) (a : Act) : Decidable (canonicalKeys text s a) :=
  have named (provider : String) (pool : Option String) :
      Decidable (∀ key, bucketKey provider pool = .ok key → legacyPoolKey text key = key) :=
    match bucketKey provider pool with
    | .error _ => isTrue fun _ h => nomatch h
    | .ok key => decidable_of_iff (legacyPoolKey text key = key)
        ⟨fun h _ hk => Except.ok.inj hk ▸ h,fun h => h key rfl⟩
  match a with
  | .lookUp _ provider pool => named provider pool
  | .reserve _ provider pool _ _ _ _ => named provider pool
  | .reopen _ => isTrue trivial
  | .save _ => isTrue trivial
  | .reload _ _ => isTrue trivial
  | .release _ _ _ => isTrue trivial

end System

structure Content where
  (capacity window : ℤ)
  (zeroedUntil ledgerAt : Option Time)
  (tokens removed released : String → Option Time)

section
variable (text : TextOps) (bounds : Bounds)

def content (b : TokenBucket) : Content where
  capacity := b.capacity
  window := b.window
  zeroedUntil := b.zeroedUntil
  ledgerAt := b.ledgerAt
  tokens := (b.tokens text).get?
  removed := b.removed.get?
  released := b.released.get?

@[simp] theorem content_ledgerAt (b : TokenBucket) : (content text b).ledgerAt = b.ledgerAt := rfl
@[simp] theorem content_tokens (b : TokenBucket) (id : String) : (content text b).tokens id = (b.tokens text).get? id := rfl
@[simp] theorem content_removed (b : TokenBucket) (id : String) : (content text b).removed id = b.removed.get? id := rfl
@[simp] theorem content_released (b : TokenBucket) (id : String) : (content text b).released id = b.released.get? id := rfl

def blank (key : String) : Content where
  capacity := bounds.capacityFor key
  window := bounds.window
  zeroedUntil := none
  ledgerAt := none
  tokens := fun _ => none
  removed := fun _ => none
  released := fun _ => none

def ground (file : Buckets) (key : String) : Content := (file.get? key).elim (blank bounds key) (content text)

variable {b : TokenBucket}

theorem ground_of_get? {file : Buckets} {key : String} (h : file.get? key = some b) :
    ground text bounds file key = content text b := by
  rw [ground,h]
  rfl

theorem newBucket_content {key : String} (h : bounds.newBucket key = .ok b) :
    content text b = blank bounds key ∧ b.Owned text := by
  unfold Bounds.newBucket at h
  split at h
  · simp only [Except.ok.injEq] at h
    rw [← h]
    refine ⟨?_,rfl,rfl⟩
    unfold content blank
    congr 1
  · cases h

/-- `bucket_for` adds at most a blank bucket. -/
theorem bucketFor_content {buckets after : Buckets} {key : String}
    (howned : ∀ b', buckets.get? key = some b' → b'.Owned text) (h : bucketFor bounds buckets key = .ok (b,after)) :
    after.get? key = some b ∧ content text b = ground text bounds buckets key ∧ b.Owned text ∧
      ∀ k, k ≠ key → after.get? k = buckets.get? k := by
  unfold bucketFor at h
  cases hb : buckets.get? key with
  | some found =>
    rw [hb] at h
    cases h
    exact ⟨hb,(ground_of_get? text bounds hb).symm,howned b hb,fun _ _ => rfl⟩
  | none =>
    rw [hb] at h
    cases hn : bounds.newBucket key with
    | error e => rw [hn] at h; cases h
    | ok nb =>
      rw [hn] at h
      cases h
      obtain ⟨hc,ho⟩ := newBucket_content text bounds hn
      refine ⟨Dict.get?_set_self _ _ _,?_,ho,fun k hk => Dict.get?_set_ne _ _ hk⟩
      rw [hc,ground,hb]
      rfl

end

def Book.Spent (book : Book) (key id : String) (stamp : Time) : Prop :=
  ∃ h ∈ book.handles, h.bucketKey = key ∧ id ∈ h.tokenIds ∧ h.reservedAt = stamp

structure Book.Distinct (book : Book) : Prop where
  tokens : (book.handles.flatMap BucketReservation.tokenIds).Nodup
  handles : (book.handles.map BucketReservation.id).Nodup

/-- A view of a bucket says nothing that did not happen, and has seen nothing later
than the file's high-water mark `base`. -/
structure Known (bounds : Bounds) (book : Book) (key : String) (base : Option Time) (c : Content) : Prop where
  capacity : c.capacity = bounds.capacityFor key
  window : c.window = bounds.window
  zeroedUntil : c.zeroedUntil = none
  tokens : ∀ id stamp, c.tokens id = some stamp → book.Spent key id stamp
  removed : ∀ id stamp, c.removed id = some stamp → book.Spent key id stamp ∧ id ∈ book.freed
  released : ∀ id stamp, c.released id = some stamp →
    id ∈ book.released ∧ ∃ h ∈ book.handles, h.bucketKey = key ∧ h.id = id ∧ h.reservedAt = stamp
  ledgerAt : ∀ l, c.ledgerAt = some l → ∃ m, base = some m ∧ l ≤ m

/-- The file's bucket has forgotten nothing that is still inside the window of its
high-water mark. -/
structure Settled (bounds : Bounds) (book : Book) (key : String) (c : Content) : Prop where
  covered : ∀ h ∈ book.handles, h.bucketKey = key → ∃ l, c.ledgerAt = some l ∧ h.reservedAt ≤ l
  tokens_live : ∀ id stamp l, c.tokens id = some stamp → c.ledgerAt = some l → l - bounds.window < stamp
  removed_live : ∀ id stamp l, c.removed id = some stamp → c.ledgerAt = some l → l - bounds.window < stamp
  kept : ∀ id stamp l, book.Spent key id stamp → id ∉ book.freed → c.ledgerAt = some l →
    l - bounds.window < stamp → c.tokens id = some stamp
  gone : ∀ id, id ∈ book.freed → c.tokens id = none
  buried : ∀ id stamp l, book.Spent key id stamp → id ∈ book.freed → c.ledgerAt = some l →
    l - bounds.window < stamp → c.removed id = some stamp
  marked : ∀ h ∈ book.handles, h.bucketKey = key → h.id ∈ book.released → ∀ l, c.ledgerAt = some l →
    l - bounds.window < h.reservedAt → c.released h.id = some h.reservedAt

theorem known_blank (bounds : Bounds) (book : Book) (key : String) (base : Option Time) :
    Known bounds book key base (blank bounds key) := by
  refine ⟨rfl,rfl,rfl,?_,?_,?_,?_⟩
  · intro _ _ h
    cases h
  · intro _ _ h
    cases h
  · intro _ _ h
    cases h
  · intro _ h
    cases h

structure Trims (bounds : Bounds) (c d : Content) : Prop where
  capacity : d.capacity = c.capacity
  window : d.window = c.window
  zeroedUntil : d.zeroedUntil = c.zeroedUntil
  ledgerAt : d.ledgerAt = c.ledgerAt
  tokens : ∀ id, d.tokens id = c.tokens id
  removed : ∀ id, d.removed id = c.removed id
  released_sub : ∀ id stamp, d.released id = some stamp → c.released id = some stamp
  released_live : ∀ id stamp, c.released id = some stamp → (∀ l, c.ledgerAt = some l → l - bounds.window < stamp) →
    d.released id = some stamp

theorem Trims.refl (bounds : Bounds) (c : Content) : Trims bounds c c :=
  ⟨rfl,rfl,rfl,rfl,fun _ => rfl,fun _ => rfl,fun _ _ h => h,fun _ _ h _ => h⟩

variable {c d : Content}

theorem Known.trim {bounds : Bounds} {book : Book} {key : String} {base : Option Time}
    (ht : Trims bounds c d) (h : Known bounds book key base c) : Known bounds book key base d where
  capacity := ht.capacity.trans h.capacity
  window := ht.window.trans h.window
  zeroedUntil := ht.zeroedUntil.trans h.zeroedUntil
  tokens := fun id stamp hi => h.tokens id stamp ((ht.tokens id).symm.trans hi)
  removed := fun id stamp hi => h.removed id stamp ((ht.removed id).symm.trans hi)
  released := fun id stamp hi => h.released id stamp (ht.released_sub id stamp hi)
  ledgerAt := fun l hl => h.ledgerAt l (ht.ledgerAt.symm.trans hl)

theorem Settled.trim {bounds : Bounds} {book : Book} {key : String}
    (ht : Trims bounds c d) (h : Settled bounds book key c) : Settled bounds book key d where
  covered := by rw [ht.ledgerAt]; exact h.covered
  tokens_live := by simp only [ht.ledgerAt,ht.tokens]; exact h.tokens_live
  removed_live := by simp only [ht.ledgerAt,ht.removed]; exact h.removed_live
  kept := by simp only [ht.ledgerAt,ht.tokens]; exact h.kept
  gone := by simp only [ht.tokens]; exact h.gone
  buried := by simp only [ht.ledgerAt,ht.removed]; exact h.buried
  marked := by
    rw [ht.ledgerAt]
    intro handle hm hk hr l hl hlive
    refine ht.released_live _ _ (h.marked handle hm hk hr l hl hlive) ?_
    intro m hm'
    rw [hl] at hm'
    cases hm'
    exact hlive

theorem Book.Distinct.spent_unique {book : Book} (hd : book.Distinct) {key key' id : String} {st st' : Time}
    (h : book.Spent key id st) (h' : book.Spent key' id st') : key = key' ∧ st = st' := by
  obtain ⟨a,ha,rfl,hia,rfl⟩ := h
  obtain ⟨b,hb,rfl,hib,rfl⟩ := h'
  have hab : a = b := by
    by_contra hne
    obtain ⟨-,hpair⟩ := List.nodup_flatMap.mp hd.tokens
    have : Std.Symm (Function.onFun List.Disjoint BucketReservation.tokenIds) := ⟨fun _ _ h _ hx hy => h hy hx⟩
    exact hpair.forall ha hb hne hia hib
  rw [hab]
  exact ⟨rfl,rfl⟩

theorem Book.Distinct.handle_unique {book : Book} (hd : book.Distinct) {a b : BucketReservation}
    (ha : a ∈ book.handles) (hb : b ∈ book.handles) (h : a.id = b.id) : a = b :=
  List.inj_on_of_nodup_map hd.handles ha hb h

theorem survives_iff {ledger : Option Time} {window : ℤ} {stamp : Time} :
    survives ledger window stamp = true ↔ ∀ l, ledger = some l → l - window < stamp := by
  cases ledger <;> simp [survives]

section Merge
variable {text : TextOps} {bounds : Bounds} {book : Book} {key : String} {base : Option Time}
variable {id : String} {stamp : Time}

theorem Settled.covered_spent {c : Content} (hs : Settled bounds book key c)
    (h : book.Spent key id stamp) : ∃ l, c.ledgerAt = some l ∧ stamp ≤ l := by
  obtain ⟨handle,hm,hk,-,rfl⟩ := h
  exact hs.covered handle hm hk

theorem laterStamps_eq {mine theirs : Dict String Time} (h : mine.get? id = some stamp)
    (hagree : ∀ other, theirs.get? id = some other → other = stamp) :
    (TokenBucket.laterStamps mine theirs).get? id = some stamp := by
  rw [TokenBucket.get?_laterStamps,h]
  cases ht : theirs.get? id with
  | none => rfl
  | some other =>
    rw [hagree other ht]
    simp

variable {f v : TokenBucket} (hd : book.Distinct) (hf : Known bounds book key base (content text f))
  (hs : Settled bounds book key (content text f)) (hv : Known bounds book key f.ledgerAt (content text v))
include hf hs hv

theorem mergedLedger_known : f.mergedLedger text v = f.ledgerAt := by
  apply TokenBucket.mergedLedger_eq
  · intro id stamp h
    rw [get?_mergedTokens] at h
    cases ht : (f.tokens text).get? id with
    | some st =>
      rw [ht] at h
      cases h
      exact hs.covered_spent (hf.tokens id stamp ht)
    | none =>
      rw [ht] at h
      exact hs.covered_spent (hv.tokens id stamp h)
  · intro id stamp h
    rcases laterStamps_some h with h | h
    · exact hs.covered_spent (hf.removed id stamp h).1
    · exact hs.covered_spent (hv.removed id stamp h).1
  · intro id stamp h
    rcases laterStamps_some h with h | h
    · obtain ⟨-,handle,hm,hk,-,rfl⟩ := hf.released id stamp h
      exact hs.covered handle hm hk
    · obtain ⟨-,handle,hm,hk,-,rfl⟩ := hv.released id stamp h
      exact hs.covered handle hm hk
  · exact hv.ledgerAt

theorem survives_known :
    survives (f.mergedLedger text v) (max f.window v.window) stamp = true ↔
      ∀ l, f.ledgerAt = some l → l - bounds.window < stamp := by
  have hw : max f.window v.window = bounds.window := by
    rw [show f.window = bounds.window from hf.window,show v.window = bounds.window from hv.window,max_self]
  rw [mergedLedger_known hf hs hv,hw,survives_iff]

theorem mergeFrom_tokens_known (id : String) :
    ((f.mergeFrom text v).tokens text).get? id = (f.tokens text).get? id := by
  apply Option.ext
  intro stamp
  rw [TokenBucket.mergeFrom_tokens,survives_known hf hs hv,get?_mergedTokens]
  constructor
  · rintro ⟨htoken,hburied,hlive⟩
    cases ht : (f.tokens text).get? id with
    | some st =>
      rw [ht] at htoken
      exact htoken
    | none =>
      -- a token only the view holds is either freed, hence buried on disk, or kept on disk
      rw [ht] at htoken
      have hspent := hv.tokens id stamp htoken
      obtain ⟨l,hl,-⟩ := hs.covered_spent hspent
      by_cases hfree : id ∈ book.freed
      · have hr : f.removed.get? id = some stamp := hs.buried id stamp l hspent hfree hl (hlive l hl)
        have hc := (laterStamps_contains f.removed v.removed id).mpr
          (.inl ((Dict.contains_iff _ _).mpr ⟨stamp,hr⟩))
        rw [hburied] at hc
        cases hc
      · have hkept : (f.tokens text).get? id = some stamp := hs.kept id stamp l hspent hfree hl (hlive l hl)
        rw [ht] at hkept
        cases hkept
  · intro h
    refine ⟨by rw [h]; rfl,?_,fun l hl => hs.tokens_live id stamp l h hl⟩
    rw [Bool.eq_false_iff]
    intro hc
    have hfree : id ∈ book.freed := by
      rcases (laterStamps_contains f.removed v.removed id).mp hc with hc | hc
      · obtain ⟨st,hst⟩ := (Dict.contains_iff _ _).mp hc
        exact (hf.removed id st hst).2
      · obtain ⟨st,hst⟩ := (Dict.contains_iff _ _).mp hc
        exact (hv.removed id st hst).2
    have hnone : (f.tokens text).get? id = none := hs.gone id hfree
    rw [hnone] at h
    cases h

include hd

theorem mergeFrom_removed_known (id : String) : (f.mergeFrom text v).removed.get? id = f.removed.get? id := by
  apply Option.ext
  intro stamp
  rw [TokenBucket.mergeFrom_removed,survives_known hf hs hv]
  constructor
  · rintro ⟨h,hlive⟩
    rcases laterStamps_some h with h | h
    · exact h
    · obtain ⟨hspent,hfree⟩ := hv.removed id stamp h
      obtain ⟨l,hl,-⟩ := hs.covered_spent hspent
      exact hs.buried id stamp l hspent hfree hl (hlive l hl)
  · intro h
    refine ⟨laterStamps_eq h ?_,fun l hl => hs.removed_live id stamp l h hl⟩
    intro other ho
    exact (hd.spent_unique (hv.removed id other ho).1 (hf.removed id stamp h).1).2

theorem mergeFrom_released_known (id : String) (stamp : Time) :
    (f.mergeFrom text v).released.get? id = some stamp ↔
      f.released.get? id = some stamp ∧ ∀ l, f.ledgerAt = some l → l - bounds.window < stamp := by
  rw [TokenBucket.mergeFrom_released,survives_known hf hs hv]
  constructor
  · rintro ⟨h,hlive⟩
    rcases laterStamps_some h with h | h
    · exact ⟨h,hlive⟩
    · obtain ⟨hrel,handle,hm,hk,rfl,rfl⟩ := hv.released id stamp h
      obtain ⟨l,hl,-⟩ := hs.covered handle hm hk
      exact ⟨hs.marked handle hm hk hrel l hl (hlive l hl),hlive⟩
  · rintro ⟨h,hlive⟩
    refine ⟨laterStamps_eq h ?_,hlive⟩
    intro other ho
    obtain ⟨-,a,ha,-,haid,rfl⟩ := hv.released id other ho
    obtain ⟨-,b,hb,-,hbid,rfl⟩ := hf.released id stamp h
    rw [hd.handle_unique ha hb (haid.trans hbid.symm)]

theorem mergeFrom_trims : Trims bounds (content text f) (content text (f.mergeFrom text v)) where
  capacity := by
    have h : v.capacity = f.capacity := hv.capacity.trans hf.capacity.symm
    simp [content,mergeFrom,h]
  window := by
    have h : v.window = f.window := hv.window.trans hf.window.symm
    simp [content,mergeFrom,h]
  zeroedUntil := by
    have h : v.zeroedUntil = none := hv.zeroedUntil
    simp [content,mergeFrom,h]
  ledgerAt := by
    rw [content_ledgerAt,content_ledgerAt,TokenBucket.mergeFrom_ledgerAt]
    exact mergedLedger_known hf hs hv
  tokens := by
    intro id
    rw [content_tokens,content_tokens]
    exact mergeFrom_tokens_known hf hs hv id
  removed := by
    intro id
    rw [content_removed,content_removed]
    exact mergeFrom_removed_known hd hf hs hv id
  released_sub := by
    intro id stamp h
    rw [content_released] at h ⊢
    exact ((mergeFrom_released_known hd hf hs hv id stamp).mp h).1
  released_live := by
    intro id stamp h hlive
    rw [content_released] at h ⊢
    exact (mergeFrom_released_known hd hf hs hv id stamp).mpr ⟨h,hlive⟩

end Merge

end Verdict.HealthCache.Budget

import Verdict.Catalog.Pools
import Verdict.HealthCache.Entry

/-! # Token buckets

A sliding-window request counter that several processes share through the cache
file. Each spent request is a token with an id of its own, so two views of a bucket
merge as the union of their tokens minus the tombstones of the released ones.
Tokens and tombstones are pruned only against `ledgerAt`, the latest instant the
bucket has seen.
-/
namespace Verdict.HealthCache

open Dict (get?_filter get?_pop get?_set keys ofList values)

structure TextOps where
  (lower sha256 : String → String)
  formatDatetime : Time → String

inductive BucketError
  | capacity | window | amount | emptyProvider | ambiguousTombstones | ambiguousIdentity

structure TokenBucket where
  (capacity window : ℤ)
  timestamps : List Time := []
  zeroedUntil : Option Time := none
  tokenIds : List String := []
  removed : Dict String Time := .empty
  released : Dict String Time := .empty
  ledgerAt : Option Time := none
  capacity_pos : 1 ≤ capacity := by decide
  window_pos : 0 < window := by decide

structure BucketReservation where
  (id bucketKey : String)
  tokenIds : List String
  reservedAt : Time
  deriving DecidableEq

def legacyIds (text : TextOps) : List String → List Time → List String
  | _, [] => []
  | seen, stamp :: rest =>
    let key := text.formatDatetime stamp
    text.sha256 (key ++ ":" ++ toString (seen.count key)) :: legacyIds text (key :: seen) rest

namespace TokenBucket
variable (text : TextOps)

/-- The id list that `_tokens` leaves behind. -/
def ownedIds (b : TokenBucket) : List String :=
  if b.tokenIds.length ≠ b.timestamps.length then legacyIds text [] b.timestamps else b.tokenIds

def tokens (b : TokenBucket) : Dict String Time := ofList ((b.ownedIds text).zip b.timestamps)

def setTokens (b : TokenBucket) (tokens : Dict String Time) : TokenBucket :=
  {b with tokenIds := tokens.keys, timestamps := tokens.values}

def live (b : TokenBucket) (now : Time) : List Time := b.timestamps.filter fun stamp => now - b.window < stamp

def remaining (b : TokenBucket) (now : Time) : ℤ :=
  if b.zeroedUntil.any (fun z => now < z) then 0 else max 0 (b.capacity - (b.live now).length)

/-- Record `amount` requests under the ids `fresh`; `none` when the bucket is empty. -/
def consume (b : TokenBucket) (now : Time) (amount : ℕ) (fresh : List String) :
    Except BucketError (Option TokenBucket) :=
  if amount < 1 then .error .amount
  else if b.remaining now < amount then .ok none
  else
    let recent (_ : String) (stamp : Time) : Bool := now - b.window < stamp
    .ok (some { b.setTokens (((b.tokens text).filter recent).union (ofList (fresh.map fun id => (id,now)))) with
      ledgerAt := some (max now (b.ledgerAt.getD now))
      removed := b.removed.filter recent
      released := b.released.filter recent })

def laterStamps (mine other : Dict String Time) : Dict String Time :=
  Dict.mergeWith (fun _ stamp known => some (max stamp (known.getD stamp))) other mine

def mergedTokens (b other : TokenBucket) : Dict String Time := (other.tokens text).union (b.tokens text)

/-- The high-water mark `merge_from` leaves behind. -/
def mergedLedger (b other : TokenBucket) : Option Time :=
  ((b.mergedTokens text other).values ++ (laterStamps b.removed other.removed).values ++
    (laterStamps b.released other.released).values ++ b.ledgerAt.toList ++ other.ledgerAt.toList).max?

/-- Whether a stamp survives the pruning of `merge_from`. -/
def survives (ledger : Option Time) (window : ℤ) (stamp : Time) : Bool :=
  ledger.all fun l => l - window < stamp

/-- Fold another view of the bucket into this one. -/
def mergeFrom (b other : TokenBucket) : TokenBucket :=
  let window := max b.window other.window
  let removed := laterStamps b.removed other.removed
  let released := laterStamps b.released other.released
  let ledger := b.mergedLedger text other
  { b.setTokens ((b.mergedTokens text other).filter (fun id stamp =>
      !removed.contains id && survives ledger window stamp)) with
    capacity := min b.capacity other.capacity
    window := window
    removed := removed.filter fun _ stamp => survives ledger window stamp
    released := released.filter fun _ stamp => survives ledger window stamp
    ledgerAt := ledger
    zeroedUntil := other.zeroedUntil.elim b.zeroedUntil fun z => some (max z (b.zeroedUntil.getD z))
    capacity_pos := le_min b.capacity_pos other.capacity_pos
    window_pos := lt_of_lt_of_le b.window_pos (le_max_left _ _) }

def bury (held : Dict String Time × Dict String Time) (id : String) : Dict String Time × Dict String Time :=
  match held.1.get? id with
  | some stamp => (held.1.pop id,held.2.set id stamp)
  | none => held

/-- The mutation of `release_bucket` on the bucket of the handle. -/
def release (b : TokenBucket) (handle : BucketReservation) (unused : ℕ) : TokenBucket :=
  if b.released.contains handle.id then b
  else
    let held := (handle.tokenIds.take unused).foldl bury (b.tokens text,b.removed)
    { b.setTokens held.1 with
      removed := held.2
      released := b.released.set handle.id handle.reservedAt }

def same (b other : TokenBucket) : Bool :=
  b.capacity = other.capacity && b.window = other.window && b.timestamps = other.timestamps &&
    b.zeroedUntil = other.zeroedUntil && (b.tokens text).keys = (other.tokens text).keys &&
    b.removed.same other.removed && b.released.same other.released && b.ledgerAt = other.ledgerAt

end TokenBucket

abbrev Buckets := Dict String TokenBucket

def legacyPoolKey (text : TextOps) (key : String) : String :=
  match Catalog.segments key with
  | [provider,pool] =>
    let regular := Catalog.poolOf text.lower (provider ++ "/_bucket_identity_")
    let free := Catalog.backendPool text.lower (provider ++ "/_bucket_identity_:free")
    if pool = "" then key
    else if pool = regular ∧ (regular ≠ provider ∨ (Catalog.aliasFamilies.lookup provider).isSome) then pool
    else if pool = free ∧ free ≠ provider then pool
    else key
  | _ => key

def namespaceLegacy (text : TextOps) (key : String) (b : TokenBucket) : Except BucketError TokenBucket :=
  if legacyPoolKey text key ≠ key ∧ b.tokenIds = [] ∧ b.timestamps ≠ [] then
    if b.removed.entries ≠ [] ∨ b.released.entries ≠ [] then .error .ambiguousTombstones
    else .ok {b with tokenIds := (b.ownedIds text).map (fun token => text.sha256 (key ++ ":" ++ token))}
  else .ok b

/-- One turn of the loop of `_canonicalize_buckets`. -/
def foldLegacy (text : TextOps) (migrating : List String) (canonical : Buckets) (e : String × TokenBucket) :
    Except BucketError Buckets := do
  let target := legacyPoolKey text e.1
  let bucket ← namespaceLegacy text e.1 e.2
  if (target ≠ e.1 ∨ e.1 ∈ migrating) ∧
      (bucket.tokenIds.length ∉ [0,bucket.timestamps.length] ∨ ¬ bucket.tokenIds.Nodup) then
    .error .ambiguousIdentity
  else match canonical.get? target with
    | some known => .ok (canonical.set target (known.mergeFrom text bucket))
    | none => .ok (canonical.set target bucket)

def canonicalizeBuckets (text : TextOps) (buckets : Buckets) : Except BucketError Buckets :=
  let migrating := (buckets.keys.filter fun key => legacyPoolKey text key ≠ key).map (legacyPoolKey text)
  buckets.entries.foldlM (foldLegacy text migrating) .empty

def bucketKey (provider : String) (pool : Option String) : Except BucketError String :=
  if Path.strip provider.toList = [] then .error .emptyProvider
  else .ok (match pool with
    | some name => if name = "" then provider else name
    | none => provider)

/-- The bounds the `HealthCache` objects of one file are opened with. -/
structure Bounds where
  capacity : ℤ := 10
  window : ℤ := seconds 60
  overrides : Dict String ℤ := .empty
  capacity_pos : 1 ≤ capacity := by decide
  window_pos : 0 < window := by decide

variable (bounds : Bounds)

/-- `_bucket_capacity_for`. -/
def Bounds.capacityFor (key : String) : ℤ :=
  match bounds.overrides.get? key with
  | some capacity => capacity
  | none => (bounds.overrides.get? ((Catalog.segments key).headD "")).getD bounds.capacity

def Bounds.newBucket (key : String) : Except BucketError TokenBucket :=
  if h : 1 ≤ bounds.capacityFor key then
    .ok {capacity := bounds.capacityFor key, window := bounds.window, capacity_pos := h, window_pos := bounds.window_pos}
  else .error .capacity

/-- The bucket, creating it from the default or the override. -/
def bucketFor (buckets : Buckets) (key : String) : Except BucketError (TokenBucket × Buckets) :=
  match buckets.get? key with
  | some found => .ok (found,buckets)
  | none => (bounds.newBucket key).map fun b => (b,buckets.set key b)

namespace TokenBucket
variable {text : TextOps} {b other : TokenBucket}

@[simp] theorem tokens_setTokens (b : TokenBucket) (d : Dict String Time) : (b.setTokens d).tokens text = d := by
  have hzip : d.keys.zip d.values = d.entries := by
    rw [keys,values,List.zip_map',List.map_id']
  have hids : (b.setTokens d).ownedIds text = d.keys := by
    simp [ownedIds,setTokens,keys,values]
  rw [tokens,hids]
  exact (congrArg ofList hzip).trans (Dict.ofList_entries d)

def Owned (text : TextOps) (b : TokenBucket) : Prop :=
  b.tokenIds = (b.tokens text).keys ∧ b.timestamps = (b.tokens text).values

variable {c : TokenBucket}

theorem owned_of_lists {d : Dict String Time} (hids : c.tokenIds = d.keys)
    (hstamps : c.timestamps = d.values) : c.tokens text = d ∧ c.Owned text := by
  have hsame : c.ownedIds text = (c.setTokens d).ownedIds text := by
    unfold ownedIds
    rw [hids,hstamps]
    rfl
  have htokens : c.tokens text = d := by
    rw [tokens,hsame,hstamps]
    exact tokens_setTokens c d
  refine ⟨htokens,?_⟩
  rw [Owned,htokens]
  exact ⟨hids,hstamps⟩

/-- Everything a successful `consume` does. -/
structure Consumed (text : TextOps) (b : TokenBucket) (now : Time) (amount : ℕ) (fresh : List String)
    (c : TokenBucket) : Prop where
  amount_pos : 0 < amount
  room : ((b.live now).length : ℤ) + amount ≤ b.capacity
  owned : c.Owned text
  capacity : c.capacity = b.capacity
  window : c.window = b.window
  zeroedUntil : c.zeroedUntil = b.zeroedUntil
  ledgerAt : c.ledgerAt = some (max now (b.ledgerAt.getD now))
  tokens : ∀ id stamp, (c.tokens text).get? id = some stamp ↔
    id ∈ fresh ∧ stamp = now ∨ id ∉ fresh ∧ (b.tokens text).get? id = some stamp ∧ now - b.window < stamp
  removed : ∀ id stamp, c.removed.get? id = some stamp ↔ b.removed.get? id = some stamp ∧ now - b.window < stamp
  released : ∀ id stamp, c.released.get? id = some stamp ↔ b.released.get? id = some stamp ∧ now - b.window < stamp

variable {now : Time} {amount : ℕ}

theorem room_of_remaining (hpos : 0 < amount) (h : ¬ b.remaining now < amount) :
    ((b.live now).length : ℤ) + amount ≤ b.capacity := by
  unfold remaining at h
  split at h <;> omega

theorem consume_some {fresh : List String}
    (h : b.consume text now amount fresh = .ok (some c)) : Consumed text b now amount fresh c := by
  unfold consume at h
  split at h
  · cases h
  split at h
  · cases h
  rename_i hpos hroom
  simp only [Except.ok.injEq,Option.some.injEq] at h
  obtain ⟨htokens,howned⟩ : c.tokens text = ((b.tokens text).filter fun _ stamp => decide (now - b.window < stamp)).union
      (ofList (fresh.map fun id => (id,now))) ∧ c.Owned text := by
    rw [← h]
    exact owned_of_lists rfl rfl
  refine ⟨by omega,room_of_remaining (by omega) hroom,howned,by rw [← h]; rfl,by rw [← h]; rfl,by rw [← h]; rfl,
    by rw [← h],?_,?_,?_⟩
  · intro id stamp
    rw [htokens,Dict.get?_union,Dict.get?_ofList_const]
    by_cases hf : id ∈ fresh
    · simp [hf,eq_comm]
    · simp [hf,get?_filter]
  · intro id stamp
    rw [← h,get?_filter,decide_eq_true_eq]
  · intro id stamp
    rw [← h,get?_filter,decide_eq_true_eq]

variable (mine theirs : Dict String Time)

theorem get?_laterStamps (id : String) : (laterStamps mine theirs).get? id
    = (theirs.get? id).elim (mine.get? id) fun stamp => some (max stamp ((mine.get? id).getD stamp)) := by
  rw [laterStamps,Dict.get?_mergeWith]
  cases theirs.get? id <;> rfl

theorem laterStamps_contains (id : String) :
    (laterStamps mine theirs).contains id = true ↔ mine.contains id = true ∨ theirs.contains id = true := by
  simp only [Dict.contains,get?_laterStamps]
  cases theirs.get? id <;> simp

theorem laterStamps_some {mine theirs : Dict String Time} {id : String} {stamp : Time}
    (h : (laterStamps mine theirs).get? id = some stamp) :
    mine.get? id = some stamp ∨ theirs.get? id = some stamp := by
  rw [get?_laterStamps] at h
  cases ht : theirs.get? id with
  | none =>
    rw [ht] at h
    exact .inl h
  | some t =>
    rw [ht] at h
    cases hm : mine.get? id with
    | none =>
      rw [hm] at h
      right
      simpa using h
    | some m =>
      rw [hm] at h
      simp only [Option.elim_some,Option.getD_some,Option.some.injEq] at h
      rcases le_total t m with hle | hle
      · left
        rw [← h,max_eq_right hle]
      · right
        rw [← h,max_eq_left hle]

theorem get?_mergedTokens (b other : TokenBucket) (id : String) :
    (b.mergedTokens text other).get? id = ((b.tokens text).get? id).orElse fun _ => (other.tokens text).get? id :=
  Dict.get?_union _ _ id

theorem mergeFrom_lists (b other : TokenBucket) :
    (b.mergeFrom text other).tokens text = (b.mergedTokens text other).filter (fun id stamp =>
        !(laterStamps b.removed other.removed).contains id &&
          survives (b.mergedLedger text other) (max b.window other.window) stamp) ∧
      (b.mergeFrom text other).Owned text := owned_of_lists rfl rfl

theorem mergeFrom_ledgerAt (b other : TokenBucket) :
    (b.mergeFrom text other).ledgerAt = b.mergedLedger text other := rfl

theorem mergeFrom_tokens (b other : TokenBucket) (id : String) (stamp : Time) :
    ((b.mergeFrom text other).tokens text).get? id = some stamp ↔ (b.mergedTokens text other).get? id = some
    stamp ∧ (laterStamps b.removed other.removed).contains id = false ∧ survives (b.mergedLedger text other)
    (max b.window other.window) stamp = true := by
  rw [(mergeFrom_lists b other).1,get?_filter,Bool.and_eq_true,Bool.not_eq_true']

theorem mergeFrom_removed (b other : TokenBucket) (id : String) (stamp : Time) :
    (b.mergeFrom text other).removed.get? id = some stamp ↔
      (laterStamps b.removed other.removed).get? id = some stamp ∧
        survives (b.mergedLedger text other) (max b.window other.window) stamp = true := get?_filter _ _ _ _

theorem mergeFrom_released (b other : TokenBucket) (id : String) (stamp : Time) :
    (b.mergeFrom text other).released.get? id = some stamp ↔
      (laterStamps b.released other.released).get? id = some stamp ∧
        survives (b.mergedLedger text other) (max b.window other.window) stamp = true := get?_filter _ _ _ _

theorem mergedLedger_eq
    (htokens : ∀ id stamp, (b.mergedTokens text other).get? id = some stamp → ∃ l, b.ledgerAt = some l ∧ stamp ≤ l)
    (hremoved : ∀ id stamp, (laterStamps b.removed other.removed).get? id = some stamp →
      ∃ l, b.ledgerAt = some l ∧ stamp ≤ l)
    (hreleased : ∀ id stamp, (laterStamps b.released other.released).get? id = some stamp →
      ∃ l, b.ledgerAt = some l ∧ stamp ≤ l)
    (hledger : ∀ stamp, other.ledgerAt = some stamp → ∃ l, b.ledgerAt = some l ∧ stamp ≤ l) :
    b.mergedLedger text other = b.ledgerAt := by
  have hvalues : ∀ (d : Dict String Time) (stamp : Time), stamp ∈ d.values → ∃ id, d.get? id = some stamp := by
    intro d stamp h
    obtain ⟨e,he,rfl⟩ := List.mem_map.mp h
    exact ⟨e.1,(Dict.mem_entries_iff d e.1 e.2).mp he⟩
  have hbelow : ∀ stamp ∈ (b.mergedTokens text other).values ++ (laterStamps b.removed other.removed).values ++
      (laterStamps b.released other.released).values ++ b.ledgerAt.toList ++ other.ledgerAt.toList,
      ∃ l, b.ledgerAt = some l ∧ stamp ≤ l := by
    intro stamp h
    simp only [List.mem_append,Option.mem_toList] at h
    rcases h with (((h | h) | h) | h) | h
    · obtain ⟨id,hid⟩ := hvalues _ _ h
      exact htokens id stamp hid
    · obtain ⟨id,hid⟩ := hvalues _ _ h
      exact hremoved id stamp hid
    · obtain ⟨id,hid⟩ := hvalues _ _ h
      exact hreleased id stamp hid
    · exact ⟨stamp,h,le_rfl⟩
    · exact hledger stamp h
  unfold mergedLedger
  cases hl : b.ledgerAt with
  | none =>
    rw [List.max?_eq_none_iff,List.eq_nil_iff_forall_not_mem]
    intro stamp h
    obtain ⟨l,hl',-⟩ := hbelow stamp (by rw [hl]; exact h)
    rw [hl] at hl'
    cases hl'
  | some l =>
    rw [List.max?_eq_some_iff]
    refine ⟨by simp,?_⟩
    intro stamp h
    obtain ⟨l',hl',hle⟩ := hbelow stamp (by rw [hl]; exact h)
    rw [hl] at hl'
    cases hl'
    exact hle

theorem bury_foldl (ids : List String) (held : Dict String Time × Dict String Time) :
    (∀ id stamp, (ids.foldl bury held).1.get? id = some stamp ↔ held.1.get? id = some stamp ∧ id ∉ ids) ∧
      ∀ id, (ids.foldl bury held).2.get? id =
        if id ∈ ids then (held.1.get? id).orElse (fun _ => held.2.get? id) else held.2.get? id := by
  induction ids generalizing held with
  | nil => simp
  | cons i rest ih =>
    rw [List.foldl_cons]
    obtain ⟨hfst,hsnd⟩ := ih (bury held i)
    cases hi : held.1.get? i with
    | none =>
      have hb : bury held i = held := by simp [bury,hi]
      rw [hb] at hfst hsnd ⊢
      constructor
      · intro id stamp
        rw [hfst]
        by_cases h : id = i
        · subst h
          simp [hi]
        · simp [h]
      · intro id
        rw [hsnd]
        by_cases h : id = i
        · subst h
          simp [hi]
        · simp [h]
    | some st =>
      have hb : bury held i = (held.1.pop i,held.2.set i st) := by simp [bury,hi]
      rw [hb] at hfst hsnd ⊢
      constructor
      · intro id stamp
        rw [hfst,get?_pop]
        by_cases h : id = i
        · simp [h]
        · simp [h]
      · intro id
        rw [hsnd]
        by_cases h : id = i
        · subst h
          have hgone : (held.1.pop id).get? id = none := by
            rw [Option.eq_none_iff_forall_ne_some]
            intro stamp hs
            exact ((get?_pop held.1 id id stamp).mp hs).2 rfl
          simp [hi,hgone]
        · have hkeep : (held.1.pop i).get? id = held.1.get? id := by
            apply Option.ext
            intro stamp
            rw [get?_pop]
            simp [h]
          simp [h,hkeep,get?_set]

structure Released (text : TextOps) (b : TokenBucket) (handle : BucketReservation) (unused : ℕ)
    (c : TokenBucket) : Prop where
  owned : c.Owned text
  capacity : c.capacity = b.capacity
  window : c.window = b.window
  zeroedUntil : c.zeroedUntil = b.zeroedUntil
  ledgerAt : c.ledgerAt = b.ledgerAt
  tokens : ∀ id stamp, (c.tokens text).get? id = some stamp ↔
    (b.tokens text).get? id = some stamp ∧ id ∉ handle.tokenIds.take unused
  removed : ∀ id, c.removed.get? id = if id ∈ handle.tokenIds.take unused
    then ((b.tokens text).get? id).orElse (fun _ => b.removed.get? id) else b.removed.get? id
  released : ∀ id, c.released.get? id = if id = handle.id then some handle.reservedAt else b.released.get? id

theorem release_first {handle : BucketReservation} (unused : ℕ) (h : b.released.contains handle.id = false) :
    Released text b handle unused (b.release text handle unused) := by
  obtain ⟨hfst,hsnd⟩ := bury_foldl (handle.tokenIds.take unused) (b.tokens text,b.removed)
  have hc : b.release text handle unused =
      { b.setTokens ((handle.tokenIds.take unused).foldl bury (b.tokens text,b.removed)).1 with
        removed := ((handle.tokenIds.take unused).foldl bury (b.tokens text,b.removed)).2
        released := b.released.set handle.id handle.reservedAt } := by
    rw [release,if_neg (by simp [h])]
  obtain ⟨htokens,howned⟩ : (b.release text handle unused).tokens text =
      ((handle.tokenIds.take unused).foldl bury (b.tokens text,b.removed)).1 ∧
        (b.release text handle unused).Owned text := by
    rw [hc]
    exact owned_of_lists rfl rfl
  refine ⟨howned,by rw [hc]; rfl,by rw [hc]; rfl,by rw [hc]; rfl,by rw [hc]; rfl,?_,?_,?_⟩
  · intro id stamp
    rw [htokens]
    exact hfst id stamp
  · intro id
    rw [hc]
    exact hsnd id
  · intro id
    rw [hc]
    exact get?_set _ _ _ _

theorem release_again {handle : BucketReservation} (unused : ℕ) (h : b.released.contains handle.id = true) :
    b.release text handle unused = b := if_pos h

end TokenBucket

theorem foldLegacy_of_canonical {text : TextOps} (e : String × TokenBucket) (canonical : Buckets)
    (h : legacyPoolKey text e.1 = e.1) (hnew : canonical.get? e.1 = none) :
    foldLegacy text [] canonical e = .ok (canonical.set e.1 e.2) := by
  have hname : namespaceLegacy text e.1 e.2 = .ok e.2 := by
    rw [namespaceLegacy,if_neg fun hc => hc.1 h]
  simp only [foldLegacy,hname,h,ne_eq,not_true_eq_false,List.not_mem_nil,or_self,false_and,if_false,hnew,
    bind,Except.bind]

theorem canonicalizeBuckets_of_canonical {text : TextOps} {buckets : Buckets}
    (h : ∀ key b, buckets.get? key = some b → legacyPoolKey text key = key) :
    canonicalizeBuckets text buckets = .ok buckets := by
  have hkeys : ∀ key ∈ buckets.keys, legacyPoolKey text key = key := by
    intro key hk
    obtain ⟨b,hb⟩ := (Dict.mem_keys_iff buckets key).mp hk
    exact h key b hb
  have hmig : (buckets.keys.filter fun key => legacyPoolKey text key ≠ key).map (legacyPoolKey text) = [] := by
    rw [List.map_eq_nil_iff,List.filter_eq_nil_iff]
    intro key hk
    simp [hkeys key hk]
  -- the loop writes each entry once, behind the entries already written
  have hfold : ∀ (xs : List (String × TokenBucket)) (acc : Buckets),
      ((acc.entries ++ xs).map Prod.fst).Nodup → (∀ e ∈ xs, legacyPoolKey text e.1 = e.1) →
      xs.foldlM (foldLegacy text []) acc = .ok (xs.foldl (fun d e => d.set e.1 e.2) acc) := by
    intro xs
    induction xs with
    | nil => intro acc _ _; rfl
    | cons e rest ih =>
      intro acc hn hc
      have hfresh : e.1 ∉ acc.entries.map Prod.fst := by
        intro hm
        rw [List.map_append,List.nodup_append] at hn
        exact hn.2.2 e.1 hm e.1 (by simp) rfl
      have hnew : acc.get? e.1 = none := Dict.lookup_eq_none_of_not_mem hfresh
      have hset : (acc.set e.1 e.2).entries = acc.entries ++ [e] := Dict.put_eq_append hfresh
      rw [List.foldlM_cons,foldLegacy_of_canonical e acc (hc e (by simp)) hnew]
      refine ih (acc.set e.1 e.2) ?_ fun e' he' => hc e' (by simp [he'])
      rw [hset]
      simpa using hn
  unfold canonicalizeBuckets
  rw [hmig]
  have hrun := hfold buckets.entries .empty (by simpa [Dict.empty] using buckets.nodup) (fun e he =>
    hkeys e.1 (List.mem_map_of_mem he))
  exact hrun.trans (congrArg Except.ok (Dict.ofList_entries buckets))

end Verdict.HealthCache

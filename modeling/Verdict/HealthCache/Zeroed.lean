import Mathlib.Algebra.Order.Ring.Int
import Verdict.HealthCache.Allowance

/-! # Buckets under 429s

A 429 zeroes a bucket: it sets the deadline and buries every token the bucket still counts. A
block stands, and the sliding window counts every request, as long as no call moves the deadline
back and nothing that was spent and not released is buried before it has left the window.
-/
namespace Verdict.HealthCache

open Budget (asciiText)
open Option (filter_some getD_some)
namespace TokenBucket
variable (text : TextOps)

def zero (b : TokenBucket) (deadline : Time) : TokenBucket :=
  {b.setTokens .empty with
    zeroedUntil := some deadline
    removed := b.removed.union (b.tokens text)}

end TokenBucket

/-- A bucket as the cache file holds it. Instants and the window are printed with all their
digits, so they stand for their printed forms; a missing field is `none`. -/
structure BucketPayload where
  (capacity windowSeconds : Option ℤ)
  timestamps : List Time
  tokenIds : List String
  (removed released : Dict String Time)
  (ledgerAt zeroedUntil : Option Time)

namespace TokenBucket
variable (text : TextOps)

def toDict (b : TokenBucket) : BucketPayload where
  capacity := some b.capacity
  windowSeconds := some b.window
  timestamps := b.timestamps
  tokenIds := (b.tokens text).keys
  removed := b.removed
  released := b.released
  ledgerAt := b.ledgerAt
  zeroedUntil := b.zeroedUntil

def fromDict (value : BucketPayload) : Except BucketError TokenBucket :=
  let capacity := (value.capacity.filter (· ≠ 0)).getD 10
  let window := (value.windowSeconds.filter (· ≠ 0)).getD (seconds 60)
  if hcapacity : 1 ≤ capacity then
    if hwindow : 0 < window then
      .ok {
        capacity := capacity
        window := window
        timestamps := value.timestamps
        tokenIds := value.tokenIds
        removed := value.removed
        released := value.released
        ledgerAt := value.ledgerAt
        zeroedUntil := value.zeroedUntil
        capacity_pos := hcapacity
        window_pos := hwindow }
    else .error .window
  else .error .capacity

end TokenBucket

/-- A bucket, the requests it has admitted with the ids they got, and the ids of those whose
spend was given back. -/
structure Meter where
  bucket : TokenBucket
  spent : List (String × Time) := []
  released : List String := []

/-- The calls on one bucket. A merge brings another view, which may have given back some of the
tokens it has buried. -/
inductive BucketCall
  | consume (now : Time) (amount : ℕ) (fresh : List String)
  | zero (deadline : Time)
  | mergeFrom (other : TokenBucket) (givenBack : List String)
  | release (handle : BucketReservation) (unused : ℕ)
  | roundTrip

namespace Meter
variable (text : TextOps)

def ofBounds (capacity window : ℤ) (hcapacity : 1 ≤ capacity) (hwindow : 0 < window) : Meter where
  bucket := {
    capacity := capacity
    window := window
    capacity_pos := hcapacity
    window_pos := hwindow }

def call (m : Meter) : BucketCall → Meter
  | .consume now amount fresh => match m.bucket.consume text now amount fresh with
    | .ok (some b) => {m with bucket := b, spent := m.spent ++ fresh.map (fun id => (id,now))}
    | _ => m
  | .zero deadline => {m with bucket := m.bucket.zero text deadline}
  | .mergeFrom other givenBack =>
    {m with bucket := m.bucket.mergeFrom text other, released := m.released ++ givenBack}
  | .release handle unused => {m with
    bucket := m.bucket.release text handle unused
    released := if m.bucket.released.contains handle.id then m.released else m.released ++ handle.tokenIds.take unused}
  | .roundTrip => match TokenBucket.fromDict (m.bucket.toDict text) with
    | .ok b => {m with bucket := b}
    | .error _ => m

def step (m : Meter) (c : BucketCall) : Option Meter := some (m.call text c)

def Counts (m : Meter) (id : String) (stamp : Time) : Prop :=
  (id,stamp) ∈ m.spent ∧ id ∉ m.released ∧ (m.bucket.tokens text).get? id = some stamp

/-- No request comes before an instant the bucket has seen, and every request gets an id that no
one has used. -/
def Genuine (m : Meter) : BucketCall → Prop
  | .consume now amount fresh => (∀ l, m.bucket.ledgerAt = some l → l ≤ now) ∧ fresh.Nodup ∧ fresh.length = amount ∧
    ∀ id ∈ fresh, id ∉ m.spent.map Prod.fst ∧ m.bucket.removed.contains id = false
  | _ => True

/-- A zero does not come with an earlier deadline than the one in force, and what a zero or a
merge buries has been given back or leaves the window before the deadline that comes with it. -/
def Covered (window : ℤ) (m : Meter) : BucketCall → Prop
  | .zero deadline => (∀ z, m.bucket.zeroedUntil = some z → z ≤ deadline) ∧
    ∀ id stamp, m.Counts text id stamp → stamp + window ≤ deadline
  | .mergeFrom other givenBack => ∀ id stamp, m.Counts text id stamp → other.removed.contains id = true →
    id ∈ givenBack ∨ ∃ z, other.zeroedUntil = some z ∧ stamp + window ≤ z
  | _ => True

/-- The requests of the window that ends at `x`, without those given back. -/
def within (m : Meter) (window : ℤ) (x : Time) : List (String × Time) :=
  m.spent.filter fun e => decide (e.1 ∉ m.released ∧ x - window < e.2 ∧ e.2 ≤ x)

/-- The bucket is blocked until `d` or longer. -/
def BlockedUntil (m : Meter) (d : Time) : Prop := ∃ z, m.bucket.zeroedUntil = some z ∧ d ≤ z

def Left (m : Meter) (window : ℤ) (stamp : Time) : Prop :=
  (∃ l, m.bucket.ledgerAt = some l ∧ stamp + window ≤ l) ∨ ∃ z, m.bucket.zeroedUntil = some z ∧ stamp + window ≤ z

structure Sound (text : TextOps) (most span : ℤ) (m : Meter) : Prop where
  owned : m.bucket.Owned text
  capacity : m.bucket.capacity ≤ most
  window : span ≤ m.bucket.window
  nodup : (m.spent.map Prod.fst).Nodup
  unburied : ∀ id stamp, (m.bucket.tokens text).get? id = some stamp → m.bucket.removed.contains id = false
  seen : ∀ e ∈ m.spent, ∃ l, m.bucket.ledgerAt = some l ∧ e.2 ≤ l
  counted : ∀ id stamp, (id,stamp) ∈ m.spent → id ∉ m.released →
    (m.bucket.tokens text).get? id = some stamp ∨ m.Left span stamp
  bounded : ∀ x, ((m.within span x).length : ℤ) ≤ most

end Meter

namespace TokenBucket
variable {text : TextOps} {b other : TokenBucket}

@[simp] theorem tokens_zero (b : TokenBucket) (deadline : Time) : (b.zero text deadline).tokens text = .empty ∧ (b.zero text deadline).Owned text :=
  owned_of_lists rfl rfl

theorem fromDict_toDict (h : b.Owned text) : fromDict (b.toDict text) = .ok b := by
  have hcapacity : ((some b.capacity).filter (· ≠ 0)).getD 10 = b.capacity := by
    rw [filter_some,if_pos (by have := b.capacity_pos; simp; omega),getD_some]
  have hwindow : ((some b.window).filter (· ≠ 0)).getD (seconds 60) = b.window := by
    rw [filter_some,if_pos (by have := b.window_pos; simp; omega),getD_some]
  simp only [fromDict,toDict,hcapacity,hwindow,dif_pos b.capacity_pos,dif_pos b.window_pos,← h.1]

theorem consume_unblocked {now : Time} {amount : ℕ} {fresh : List String} {c : TokenBucket}
    (h : b.consume text now amount fresh = .ok (some c)) {z : Time} (hz : b.zeroedUntil = some z) : z ≤ now := by
  by_contra hlt
  have hnone : b.remaining now = 0 := by
    rw [remaining,hz,Option.any_some,if_pos (by simpa using hlt)]
  unfold consume at h
  split at h
  · cases h
  · rename_i hpos
    rw [hnone,if_pos (by omega)] at h
    cases h

theorem ledger_le_mergedLedger {l : Time} (h : b.ledgerAt = some l) : ∃ l', b.mergedLedger text other = some l' ∧ l ≤ l' := by
  have hmem : l ∈ (b.mergedTokens text other).values ++ (laterStamps b.removed other.removed).values ++
      (laterStamps b.released other.released).values ++ b.ledgerAt.toList ++ other.ledgerAt.toList := by
    simp [h]
  cases hmax : b.mergedLedger text other with
  | none =>
    rw [mergedLedger,List.max?_eq_none_iff] at hmax
    rw [hmax] at hmem
    exact absurd hmem List.not_mem_nil
  | some l' => exact ⟨l',rfl,(List.max?_eq_some_iff.mp hmax).2 l hmem⟩

theorem zeroedUntil_mergeFrom (b other : TokenBucket) {z : Time} (h : b.zeroedUntil = some z ∨ other.zeroedUntil = some z) :
    ∃ z', (b.mergeFrom text other).zeroedUntil = some z' ∧ z ≤ z' := by
  simp only [mergeFrom]
  cases ho : other.zeroedUntil with
  | none =>
    rcases h with h | h
    · exact ⟨z,h,le_rfl⟩
    · rw [ho] at h
      cases h
  | some y =>
    refine ⟨_,rfl,?_⟩
    rcases h with h | h
    · rw [h,getD_some]
      exact le_max_right y z
    · obtain rfl : y = z := Option.some.inj (ho.symm.trans h)
      exact le_max_left y _

end TokenBucket

namespace Meter
variable {text : TextOps} {most span : ℤ} {m : Meter}
variable {x : Time}

theorem mem_within {e : String × Time} :
    e ∈ m.within span x ↔ e ∈ m.spent ∧ e.1 ∉ m.released ∧ x - span < e.2 ∧ e.2 ≤ x := by
  rw [within,List.mem_filter,decide_eq_true_eq]

theorem within_mono {n : Meter} (hspent : n.spent = m.spent) (hreleased : m.released ⊆ n.released) (x : Time) :
    (n.within span x).length ≤ (m.within span x).length := by
  rw [within,within,hspent]
  refine (List.monotone_filter_right m.spent fun e he => ?_).length_le
  obtain ⟨hid,hwindow⟩ := of_decide_eq_true he
  exact decide_eq_true ⟨fun h => hid (hreleased h),hwindow⟩

variable {n : Meter} {stamp : Time}

theorem Left.later (h : m.Left span stamp)
    (hledger : ∀ l, m.bucket.ledgerAt = some l → ∃ l', n.bucket.ledgerAt = some l' ∧ l ≤ l')
    (hdeadline : ∀ z, m.bucket.zeroedUntil = some z → ∃ z', n.bucket.zeroedUntil = some z' ∧ z ≤ z') : n.Left span stamp := by
  rcases h with ⟨l,hl,hle⟩ | ⟨z,hz,hle⟩
  · obtain ⟨l',hl',hlater⟩ := hledger l hl
    exact .inl ⟨l',hl',hle.trans hlater⟩
  · obtain ⟨z',hz',hlater⟩ := hdeadline z hz
    exact .inr ⟨z',hz',hle.trans hlater⟩

theorem sound_ofBounds (hmost : 1 ≤ most) (hspan : 0 < span) : Sound text most span (ofBounds most span hmost hspan) where
  owned := ⟨rfl,rfl⟩
  capacity := le_rfl
  window := le_rfl
  nodup := List.nodup_nil
  unburied := fun _ _ h => nomatch h
  seen := fun _ h => nomatch h
  counted := fun _ _ h => nomatch h
  bounded := fun _ => zero_le_one.trans hmost

variable {now : Time}

theorem Sound.counts_at (hs : Sound text most span m) (hseen : ∀ l, m.bucket.ledgerAt = some l → l ≤ now)
    (hopen : ∀ z, m.bucket.zeroedUntil = some z → z ≤ now) {id : String} (hspent : (id,stamp) ∈ m.spent)
    (hkept : id ∉ m.released) (hin : now - span < stamp) : (m.bucket.tokens text).get? id = some stamp := by
  rcases hs.counted id stamp hspent hkept with hcounted | ⟨l,hl,hle⟩ | ⟨z,hz,hle⟩
  · exact hcounted
  · have hlate := hle.trans (hseen l hl)
    exact absurd hin (not_lt.mpr (le_sub_iff_add_le.mpr hlate))
  · have hlate := hle.trans (hopen z hz)
    exact absurd hin (not_lt.mpr (le_sub_iff_add_le.mpr hlate))

theorem Sound.within_le_live (hs : Sound text most span m) (hseen : ∀ l, m.bucket.ledgerAt = some l → l ≤ now)
    (hopen : ∀ z, m.bucket.zeroedUntil = some z → z ≤ now) (hx : now ≤ x) :
    (m.within span x).length ≤ (m.bucket.live now).length := by
  have hnodup : (m.within span x).Nodup := hs.nodup.of_map.filter _
  have hsub : m.within span x ⊆ (m.bucket.tokens text).entries.filter fun e => now - m.bucket.window < e.2 := by
    rintro ⟨id,stamp⟩ he
    obtain ⟨hspent,hkept,hin,-⟩ := mem_within.mp he
    have hnow : now - span < stamp := (sub_le_sub_right hx span).trans_lt hin
    refine List.mem_filter.mpr ⟨?_,decide_eq_true ((sub_le_sub_left hs.window now).trans_lt hnow)⟩
    exact (Dict.mem_entries_iff _ id stamp).mpr (hs.counts_at hseen hopen hspent hkept hnow)
  have hlive : (m.bucket.live now).length
      = ((m.bucket.tokens text).entries.filter fun e => now - m.bucket.window < e.2).length := by
    rw [TokenBucket.live,hs.owned.2,Dict.values,List.filter_map,List.length_map]
    rfl
  rw [hlive]
  exact (hnodup.subperm hsub).length_le

theorem Sound.consume (hs : Sound text most span m) {amount : ℕ} {fresh : List String}
    (hreal : m.Genuine (.consume now amount fresh)) : Sound text most span (m.call text (.consume now amount fresh)) := by
  obtain ⟨hseen,hnew,hlength,hfresh⟩ := hreal
  simp only [call]
  split
  · rename_i b hb
    obtain ⟨-,hroom,howned,hcapacity,hwindow,hzeroed,hledger,htokens,hremoved,-⟩ := TokenBucket.consume_some hb
    have hopen : ∀ z, m.bucket.zeroedUntil = some z → z ≤ now := fun z hz => TokenBucket.consume_unblocked hb hz
    have hids : (fresh.map fun id => (id,now)).map Prod.fst = fresh := by
      rw [List.map_map]
      exact List.map_id fresh
    refine ⟨howned,hcapacity ▸ hs.capacity,hwindow ▸ hs.window,?_,?_,?_,?_,?_⟩
    · rw [List.map_append,hids]
      refine List.nodup_append'.mpr ⟨hs.nodup,hnew,?_⟩
      intro id hold hid
      exact (hfresh id hid).1 hold
    · intro id stamp hid
      rw [← Bool.not_eq_true,Dict.contains_iff]
      rintro ⟨t,ht⟩
      have hburied : m.bucket.removed.contains id = true := (Dict.contains_iff _ _).mpr ⟨t,((hremoved id t).mp ht).1⟩
      rcases (htokens id stamp).mp hid with ⟨hf,-⟩ | ⟨-,hold,-⟩
      · exact absurd hburied (Bool.eq_false_iff.mp (hfresh id hf).2)
      · exact absurd hburied (Bool.eq_false_iff.mp (hs.unburied id stamp hold))
    · intro e he
      refine ⟨_,hledger,?_⟩
      rcases List.mem_append.mp he with hold | hnew
      · obtain ⟨l,hl,hle⟩ := hs.seen e hold
        rw [hl,getD_some]
        exact hle.trans (le_max_right now l)
      · obtain ⟨id,-,rfl⟩ := List.mem_map.mp hnew
        exact le_max_left now _
    · intro id stamp he hkept
      rcases List.mem_append.mp he with hold | hnew
      · have hother : id ∉ fresh := fun hf => (hfresh id hf).1 (List.mem_map_of_mem hold)
        by_cases hin : now - m.bucket.window < stamp
        · rcases hs.counted id stamp hold hkept with hcounted | hleft
          · exact .inl ((htokens id stamp).mpr (.inr ⟨hother,hcounted,hin⟩))
          · refine .inr (hleft.later (fun l hl => ⟨_,hledger,?_⟩) fun z hz => ⟨z,hzeroed.trans hz,le_rfl⟩)
            rw [hl,getD_some]
            exact le_max_right now l
        · refine .inr (.inl ⟨_,hledger,?_⟩)
          have hout : stamp + m.bucket.window ≤ now := le_sub_iff_add_le.mp (not_lt.mp hin)
          exact ((add_le_add_right hs.window stamp).trans hout).trans (le_max_left now _)
      · obtain ⟨id,hid,⟨⟩⟩ := List.mem_map.mp hnew
        exact .inl ((htokens id now).mpr (.inl ⟨hid,rfl⟩))
    · intro x
      have hsplit : within {m with bucket := b, spent := m.spent ++ fresh.map (fun id => (id,now))} span x
          = m.within span x ++ (fresh.map fun id => (id,now)).filter
            (fun e => decide (e.1 ∉ m.released ∧ x - span < e.2 ∧ e.2 ≤ x)) := List.filter_append _ _
      rw [hsplit,List.length_append]
      rcases lt_or_ge x now with hbefore | hx
      · have hnone : (fresh.map fun id => (id,now)).filter
            (fun e => decide (e.1 ∉ m.released ∧ x - span < e.2 ∧ e.2 ≤ x)) = [] := by
          rw [List.filter_eq_nil_iff]
          intro e he hin
          obtain ⟨id,-,rfl⟩ := List.mem_map.mp he
          exact absurd (of_decide_eq_true hin).2.2 (not_le.mpr hbefore)
        rw [hnone,List.length_nil,Nat.add_zero]
        exact hs.bounded x
      · have hold := hs.within_le_live hseen hopen hx
        have hfew : ((fresh.map fun id => (id,now)).filter
            (fun e => decide (e.1 ∉ m.released ∧ x - span < e.2 ∧ e.2 ≤ x))).length ≤ amount := by
          refine (List.length_filter_le _ _).trans ?_
          rw [List.length_map,hlength]
        have hmost := hs.capacity
        push_cast
        omega
  · exact hs

theorem Sound.zero (hs : Sound text most span m) {deadline : Time} (hcover : m.Covered text span (.zero deadline)) :
    Sound text most span (m.call text (.zero deadline)) := by
  obtain ⟨hlate,hleave⟩ := hcover
  obtain ⟨htokens,howned⟩ := @TokenBucket.tokens_zero text m.bucket deadline
  refine ⟨howned,hs.capacity,hs.window,hs.nodup,?_,hs.seen,?_,hs.bounded⟩
  · intro id stamp hid
    rw [call,htokens] at hid
    cases hid
  · intro id stamp hspent hkept
    rcases hs.counted id stamp hspent hkept with hcounted | hleft
    · exact .inr (.inr ⟨deadline,rfl,hleave id stamp ⟨hspent,hkept,hcounted⟩⟩)
    · exact .inr (hleft.later (fun l hl => ⟨l,hl,le_rfl⟩) fun z hz => ⟨deadline,rfl,hlate z hz⟩)

theorem Sound.mergeFrom (hs : Sound text most span m) {other : TokenBucket} {givenBack : List String}
    (hcover : m.Covered text span (.mergeFrom other givenBack)) :
    Sound text most span (m.call text (.mergeFrom other givenBack)) := by
  have hledger : ∀ l, m.bucket.ledgerAt = some l → ∃ l', (m.bucket.mergeFrom text other).ledgerAt = some l' ∧ l ≤ l' :=
    fun l hl => TokenBucket.ledger_le_mergedLedger hl
  have hdeadline : ∀ z, m.bucket.zeroedUntil = some z →
      ∃ z', (m.bucket.mergeFrom text other).zeroedUntil = some z' ∧ z ≤ z' :=
    fun z hz => TokenBucket.zeroedUntil_mergeFrom m.bucket other (.inl hz)
  refine ⟨(TokenBucket.mergeFrom_lists m.bucket other).2,(min_le_left _ _).trans hs.capacity,
    hs.window.trans (le_max_left _ _),hs.nodup,?_,?_,?_,?_⟩
  · intro id stamp hid
    obtain ⟨-,hburied,-⟩ := (TokenBucket.mergeFrom_tokens m.bucket other id stamp).mp hid
    rw [← Bool.not_eq_true,Dict.contains_iff]
    rintro ⟨t,ht⟩
    have hcontains : (TokenBucket.laterStamps m.bucket.removed other.removed).contains id = true :=
      (Dict.contains_iff _ _).mpr ⟨t,((TokenBucket.mergeFrom_removed m.bucket other id t).mp ht).1⟩
    exact absurd hcontains (Bool.eq_false_iff.mp hburied)
  · intro e he
    obtain ⟨l,hl,hle⟩ := hs.seen e he
    obtain ⟨l',hl',hlater⟩ := hledger l hl
    exact ⟨l',hl',hle.trans hlater⟩
  · intro id stamp hspent hkept
    have hheld : id ∉ m.released := fun h => hkept (List.mem_append_left _ h)
    rcases hs.counted id stamp hspent hheld with hcounted | hleft
    · have hmerged : (m.bucket.mergedTokens text other).get? id = some stamp := by
        rw [TokenBucket.get?_mergedTokens,hcounted]
        rfl
      cases hburied : (TokenBucket.laterStamps m.bucket.removed other.removed).contains id with
      | true =>
        rcases (TokenBucket.laterStamps_contains _ _ id).mp hburied with hmine | htheirs
        · exact absurd hmine (Bool.eq_false_iff.mp (hs.unburied id stamp hcounted))
        · rcases hcover id stamp ⟨hspent,hheld,hcounted⟩ htheirs with hback | ⟨z,hz,hle⟩
          · exact absurd (List.mem_append_right _ hback) hkept
          · obtain ⟨z',hz',hlater⟩ := @TokenBucket.zeroedUntil_mergeFrom text m.bucket other _ (.inr hz)
            exact .inr (.inr ⟨z',hz',hle.trans hlater⟩)
      | false =>
        cases hsurvives : TokenBucket.survives (m.bucket.mergedLedger text other) (max m.bucket.window other.window) stamp with
        | true => exact .inl ((TokenBucket.mergeFrom_tokens m.bucket other id stamp).mpr ⟨hmerged,hburied,hsurvives⟩)
        | false =>
          obtain ⟨l,hl,-⟩ := hs.seen _ hspent
          obtain ⟨l',hl',-⟩ := @TokenBucket.ledger_le_mergedLedger text _ other _ hl
          rw [TokenBucket.survives,hl',Option.all_some,decide_eq_false_iff_not,not_lt,le_sub_iff_add_le] at hsurvives
          exact .inr (.inl ⟨l',hl',(add_le_add_right (hs.window.trans (le_max_left _ _)) stamp).trans hsurvives⟩)
    · exact .inr (hleft.later hledger hdeadline)
  · intro x
    have hfewer : ((m.call text (.mergeFrom other givenBack)).within span x).length ≤ (m.within span x).length :=
      @within_mono span m (m.call text (.mergeFrom other givenBack)) rfl (fun _ h => List.mem_append_left _ h) x
    exact (Int.ofNat_le.mpr hfewer).trans (hs.bounded x)

theorem Sound.release (hs : Sound text most span m) (handle : BucketReservation) (unused : ℕ) :
    Sound text most span (m.call text (.release handle unused)) := by
  cases hagain : m.bucket.released.contains handle.id with
  | true =>
    have hsame : m.call text (.release handle unused) = m := by
      rw [call,TokenBucket.release_again unused hagain,if_pos hagain]
    rw [hsame]
    exact hs
  | false =>
    obtain ⟨howned,hcapacity,hwindow,hzeroed,hledger,htokens,hremoved,-⟩ :=
      @TokenBucket.release_first text m.bucket handle unused hagain
    have hcall : m.call text (.release handle unused) = {m with
        bucket := m.bucket.release text handle unused
        released := m.released ++ handle.tokenIds.take unused} := by
      rw [call,if_neg (Bool.eq_false_iff.mp hagain)]
    rw [hcall]
    refine ⟨howned,hcapacity ▸ hs.capacity,hwindow ▸ hs.window,hs.nodup,?_,?_,?_,?_⟩
    · intro id stamp hid
      obtain ⟨hold,hkept⟩ := (htokens id stamp).mp hid
      rw [Dict.contains,hremoved id,if_neg hkept]
      exact hs.unburied id stamp hold
    · intro e he
      obtain ⟨l,hl,hle⟩ := hs.seen e he
      exact ⟨l,hledger.trans hl,hle⟩
    · intro id stamp hspent hkept
      rw [List.mem_append,not_or] at hkept
      rcases hs.counted id stamp hspent hkept.1 with hcounted | hleft
      · exact .inl ((htokens id stamp).mpr ⟨hcounted,hkept.2⟩)
      · exact .inr (hleft.later (fun l hl => ⟨l,hledger.trans hl,le_rfl⟩) fun z hz => ⟨z,hzeroed.trans hz,le_rfl⟩)
    · intro x
      refine (Int.ofNat_le.mpr (within_mono (m := m) (n := {m with
        bucket := m.bucket.release text handle unused
        released := m.released ++ handle.tokenIds.take unused}) rfl ?_ x)).trans (hs.bounded x)
      exact List.subset_append_left _ _

theorem Sound.roundTrip (hs : Sound text most span m) : m.call text .roundTrip = m := by
  rw [call,TokenBucket.fromDict_toDict hs.owned]

variable {c : BucketCall}

theorem Sound.call (hs : Sound text most span m) (hreal : m.Genuine c) (hcover : m.Covered text span c) :
    Sound text most span (m.call text c) := by
  cases c with
  | consume now amount fresh => exact hs.consume hreal
  | zero deadline => exact hs.zero hcover
  | mergeFrom other givenBack => exact hs.mergeFrom hcover
  | release handle unused => exact hs.release handle unused
  | roundTrip => exact hs.roundTrip.symm ▸ hs

variable {d : Time}

theorem BlockedUntil.call (h : m.BlockedUntil d) (hs : Sound text most span m)
    (hcover : m.Covered text span c) : (m.call text c).BlockedUntil d := by
  obtain ⟨z,hz,hle⟩ := h
  cases c with
  | consume now amount fresh =>
    simp only [Meter.call]
    split
    · rename_i b hb
      exact ⟨z,(TokenBucket.consume_some hb).zeroedUntil.trans hz,hle⟩
    · exact ⟨z,hz,hle⟩
  | zero deadline => exact ⟨deadline,rfl,hle.trans (hcover.1 z hz)⟩
  | mergeFrom other givenBack =>
    obtain ⟨z',hz',hlater⟩ := @TokenBucket.zeroedUntil_mergeFrom text m.bucket other _ (.inl hz)
    exact ⟨z',hz',hle.trans hlater⟩
  | release handle unused =>
    refine ⟨z,?_,hle⟩
    simp only [Meter.call,TokenBucket.release]
    split <;> exact hz
  | roundTrip => exact hs.roundTrip.symm ▸ ⟨z,hz,hle⟩

theorem BlockedUntil.refused (h : m.BlockedUntil d) (hnow : now < d) (amount : ℕ) (fresh : List String)
    (b : TokenBucket) : m.bucket.consume text now amount fresh ≠ .ok (some b) := by
  obtain ⟨z,hz,hle⟩ := h
  intro hb
  exact absurd (TokenBucket.consume_unblocked hb hz) (not_le.mpr (hnow.trans_le hle))

variable {calls : List BucketCall}

theorem run_sound (hs : Sound text most span m)
    (hok : Run.AllSteps (step text) (fun m c => m.Genuine c ∧ m.Covered text span c) m calls)
    (h : Run.exec (step text) m calls = some n) : Sound text most span n :=
  Run.exec_invariant_of (fun _ _ _ hp hc hq => Option.some.inj hq ▸ hp.call hc.1 hc.2) hok h hs

theorem run_blocked (hs : Sound text most span m) (hd : m.BlockedUntil d)
    (hok : Run.AllSteps (step text) (fun m c => m.Genuine c ∧ m.Covered text span c) m calls)
    (h : Run.exec (step text) m calls = some n) : n.BlockedUntil d := by
  refine (Run.exec_invariant_of (I := fun p => Sound text most span p ∧ p.BlockedUntil d) ?_ hok h ⟨hs,hd⟩).2
  intro p c q hp hc hq
  cases hq
  exact ⟨hp.1.call hc.1 hc.2,hp.2.call hp.1 hc.2⟩

end Meter

/-- Let no zero come with an earlier deadline than the one in force, and let whatever a zero or a
merge buries have been given back or leave the window before the deadline that comes with it. Then
nothing is admitted before the deadline of an earlier zero, and in every window the requests
admitted and not given back are within the capacity. -/
theorem block_stands {text : TextOps} {capacity window : ℤ} (hcapacity : 1 ≤ capacity) (hwindow : 0 < window)
    {calls : List BucketCall} {m : Meter}
    (hrun : Run.exec (Meter.step text) (Meter.ofBounds capacity window hcapacity hwindow) calls = some m)
    (hreal : Run.AllSteps (Meter.step text) (fun m c => m.Genuine c) (Meter.ofBounds capacity window hcapacity hwindow) calls)
    (hcover : Run.AllSteps (Meter.step text) (fun m c => m.Covered text window c)
      (Meter.ofBounds capacity window hcapacity hwindow) calls) :
    (∀ before d after, calls = before ++ .zero d :: after → ∀ now amount fresh b, now < d →
        m.bucket.consume text now amount fresh ≠ .ok (some b))
      ∧ ∀ x, ((m.within window x).length : ℤ) ≤ capacity := by
  have hstart : Meter.Sound text capacity window (Meter.ofBounds capacity window hcapacity hwindow) :=
    Meter.sound_ofBounds hcapacity hwindow
  have hok := hreal.and hcover
  constructor
  · rintro before d after rfl now amount fresh b hnow
    obtain ⟨p,hp,hrest⟩ := Option.bind_eq_some_iff.mp ((Run.exec_append _ _ _).symm.trans hrun)
    obtain ⟨q,hq,hafter⟩ := Run.exec_cons hrest
    have hmid := Run.AllSteps.drop hok hp
    have hps := Meter.run_sound hstart hok.take hp
    cases hq
    have hblocked : (p.call text (.zero d)).BlockedUntil d := ⟨d,rfl,le_rfl⟩
    exact (Meter.run_blocked (hps.call hmid.1.1 hmid.1.2) hblocked (hmid.2 _ rfl) hafter).refused hnow amount fresh b
  · exact (Meter.run_sound hstart hok hrun).bounded

def twoAMinute : Meter := .ofBounds 2 (seconds 60) (by decide) (by decide)

def blockedRun : List BucketCall := [.consume 0 1 ["a"],.zero (seconds 90),.consume (seconds 90) 2 ["b","c"],.roundTrip]

theorem block_stands_blocked :
    ∃ m, Run.exec (Meter.step asciiText) twoAMinute blockedRun = some m
      ∧ (∀ now amount fresh b, now < seconds 90 → m.bucket.consume asciiText now amount fresh ≠ .ok (some b))
      ∧ ∀ x, ((m.within (seconds 60) x).length : ℤ) ≤ 2 := by
  have hreal : Run.AllSteps (Meter.step asciiText) (fun m c => m.Genuine c) twoAMinute blockedRun := by
    refine ⟨⟨fun _ hl => (nomatch hl),by decide,rfl,by decide⟩,?_⟩
    rintro _ ⟨⟩
    refine ⟨trivial,?_⟩
    rintro _ ⟨⟩
    refine ⟨⟨?_,by decide,rfl,by decide⟩,?_⟩
    · rintro l ⟨⟩
      decide
    · rintro _ ⟨⟩
      exact ⟨trivial,fun _ _ => trivial⟩
  have hcover : Run.AllSteps (Meter.step asciiText) (fun m c => m.Covered asciiText (seconds 60) c) twoAMinute blockedRun := by
    refine ⟨trivial,?_⟩
    rintro _ ⟨⟩
    refine ⟨⟨fun _ hz => (nomatch hz),?_⟩,?_⟩
    · rintro id stamp ⟨hspent,-,-⟩
      cases List.mem_singleton.mp hspent
      decide
    · rintro _ ⟨⟩
      exact ⟨trivial,fun _ _ => ⟨trivial,fun _ _ => trivial⟩⟩
  obtain ⟨hblock,hwindow⟩ := block_stands (by decide) (by decide) rfl hreal hcover
  exact ⟨_,rfl,hblock [.consume 0 1 ["a"]] (seconds 90) _ rfl,hwindow⟩

/-- A shorter 429 follows a longer one, and a request is admitted at 20 s though the first block
lasts until 100 s. Over a second bucket a 429 of one second buries two requests, and two more are
admitted in the same window of 60 s. -/
theorem block_shortened :
    (∃ m b, Run.exec (Meter.step asciiText) twoAMinute
          [.zero (seconds 100),.zero (seconds 10)] = some m
        ∧ m.bucket.consume asciiText (seconds 20) 1 ["a"] = .ok (some b))
      ∧ ∃ m, Run.exec (Meter.step asciiText) twoAMinute
          [.consume 0 2 ["a","b"],.zero (seconds 1),.consume (seconds 1) 2 ["c","d"]] = some m
        ∧ 2 < (m.within (seconds 60) (seconds 1)).length := by
  refine ⟨⟨_,_,rfl,rfl⟩,_,rfl,?_⟩
  decide

end Verdict.HealthCache

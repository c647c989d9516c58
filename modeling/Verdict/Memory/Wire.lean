import Verdict.Memory.Event

/-! # Lifecycle events on the wire

What the digests of an event depend on, and what reading its JSON form gives. Unknown fields,
the order of fields and the clocks leave the digest and the derived key alone; a constructed
event comes back as it was.
-/
namespace Verdict.Memory
open JsonCodec
open Raising
open Json (canon canonFields obj)
variable {sha : Sha}

/-! ### What the digests depend on -/

theorem canonicalize_congr {a b : Json} (h : a.canon = b.canon) : canonicalize a = canonicalize b := by
  rw [canonicalize,canonicalize,← Json.allFinite_canon a,← Json.allFinite_canon b,h]

theorem canonFields_idem (fs : Fields) : canonFields (canonFields fs) = canonFields fs :=
  obj.inj (Json.canon_canon (.obj fs))

def EventArgs.logic (a : EventArgs) : EventArgs :=
  {a with
    provenance := canonFields a.provenance
    payload := canonFields a.payload
    metadata := canonFields a.metadata
    observedAt := none
    deadlineAt := none
    idempotencyKey := "" }

def SameLogic (a b : EventArgs) : Prop := a.logic = b.logic

theorem sameFields_logic (a : EventArgs) : Json.SameFields a.logic.digestPayload a.digestPayload := by
  refine .cons ⟨rfl,rfl⟩ (.cons ⟨rfl,rfl⟩ (.cons ⟨rfl,rfl⟩ (.cons ⟨rfl,rfl⟩ (.cons ⟨rfl,rfl⟩ (.cons ⟨rfl,rfl⟩
    (.cons ⟨rfl,rfl⟩ (.cons ⟨rfl,rfl⟩ (.cons ⟨rfl,rfl⟩ (.cons ⟨rfl,rfl⟩ (.cons ⟨rfl,rfl⟩ (.cons ⟨rfl,rfl⟩
    (.cons ⟨rfl,rfl⟩ (.cons ⟨rfl,?_⟩ (.cons ⟨rfl,?_⟩ (.cons ⟨rfl,?_⟩ .nil)))))))))))))))
  · exact Json.canon_obj_canonFields a.provenance
  · exact Json.canon_obj_canonFields a.payload
  · exact Json.canon_obj_canonFields a.metadata

variable {fs gs : Fields}

theorem sameFields_filter (h : Json.SameFields fs gs) (keep : String → Bool) :
    Json.SameFields (fs.filter fun e => keep e.1) (gs.filter fun e => keep e.1) := by
  induction h with
  | nil => exact .nil
  | @cons e f fs gs hhead _ ih =>
    cases hkeep : keep e.1 with
    | false =>
      rw [List.filter_cons_of_neg (by rw [hkeep]; exact Bool.false_ne_true),
        List.filter_cons_of_neg (by rw [← hhead.1,hkeep]; exact Bool.false_ne_true)]
      exact ih
    | true =>
      rw [List.filter_cons_of_pos (by rw [hkeep]),List.filter_cons_of_pos (by rw [← hhead.1,hkeep])]
      exact .cons hhead ih

theorem eventDigest_congr (h : Json.SameFields fs gs) : eventDigest sha fs = eventDigest sha gs := by
  rw [eventDigest,eventDigest,canonicalize_congr (show canon (.obj fs) = canon (.obj gs) from ?_)]
  rw [canon,canon,Json.canonFields_congr h]

theorem digest_logic (a : EventArgs) : a.logic.digest sha = a.digest sha := eventDigest_congr (sameFields_logic a)

theorem contentFingerprint_logic (a : EventArgs) : a.logic.contentFingerprint sha = a.contentFingerprint sha := by
  have hid : a.logic.sourceId = a.sourceId := rfl
  rw [EventArgs.contentFingerprint,EventArgs.contentFingerprint,hid]
  split
  · exact eventDigest_congr (sameFields_filter (sameFields_logic a) fun key => decide (key ≠ "created_at"))
  · exact eventDigest_congr (sameFields_logic a)

theorem derivedKey_logic (a : EventArgs) : a.logic.derivedKey sha = a.derivedKey sha := by
  have hid : a.logic.sourceId = a.sourceId := rfl
  rw [EventArgs.derivedKey,EventArgs.derivedKey,hid]
  cases a.sourceId with
  | none => exact digest_logic a
  | some id => rfl

section
variable {a b : EventArgs} (h : SameLogic a b)
include h

theorem SameLogic.digest : a.digest sha = b.digest sha := by rw [← digest_logic,show a.logic = b.logic from h,digest_logic]

theorem SameLogic.contentFingerprint : a.contentFingerprint sha = b.contentFingerprint sha := by
  rw [← contentFingerprint_logic,show a.logic = b.logic from h,contentFingerprint_logic]

theorem SameLogic.derivedKey : a.derivedKey sha = b.derivedKey sha := by
  rw [← derivedKey_logic,show a.logic = b.logic from h,derivedKey_logic]

end

/-! ### Constructing again -/

theorem canonKind_allowed {kind : String} (h : Allowed kind) : canonKind kind = kind := by
  obtain ⟨k,-,rfl⟩ := List.mem_map.mp h
  cases k <;> decide

theorem check_event (e : LifecycleEvent sha) : check sha e.toEventArgs = .ok e := by
  have hkind := canonKind_allowed e.allowed
  have hallowed : ¬¬Allowed (canonKind e.kind) := not_not.mpr (hkind.symm ▸ e.allowed)
  have hhash : ¬(e.contentHash ≠ "" ∧ e.contentHash ≠ sha.text e.content) := fun h => h.2 e.hashed
  rw [check,dif_neg hallowed,dif_neg (not_not.mpr e.schema),dif_neg (not_not.mpr e.protocol),
    dif_neg (not_not.mpr e.required),dif_neg (not_not.mpr e.classified),if_neg hhash]
  obtain ⟨a,hallowed,hschema,hprotocol,hrequired,hclassified,hhashed⟩ := e
  simp only [hkind,← hhashed]

variable {e : LifecycleEvent sha}

theorem construct_key {a : EventArgs} (h : construct sha a = .ok e) :
    e.idempotencyKey ≠ "" ∨ e.derivedKey sha = .ok e.idempotencyKey := by
  obtain ⟨e',-,hkey⟩ := bind_ok.mp h
  rw [withKey] at hkey
  split at hkey
  · rename_i hgiven
    cases hkey
    exact .inl hgiven
  · obtain ⟨key,hderived,rfl⟩ := map_ok.mp hkey
    exact .inr hderived

theorem construct_event (h : e.idempotencyKey ≠ "" ∨ e.derivedKey sha = .ok e.idempotencyKey) :
    construct sha e.toEventArgs = .ok e := by
  rw [construct,check_event]
  show withKey sha e = .ok e
  rw [withKey]
  split
  · rfl
  · rename_i hempty
    rcases h with hgiven | hderived
    · exact absurd hgiven hempty
    · rw [hderived]
      rfl

/-! ### Round trip -/

def settledEvent (e : LifecycleEvent sha) : LifecycleEvent sha :=
  {e with
    provenance := canonFields e.provenance
    payload := canonFields e.payload
    metadata := canonFields e.metadata }

theorem settledEvent_logic (e : LifecycleEvent sha) : SameLogic (settledEvent e).toEventArgs e.toEventArgs := by
  rw [SameLogic,EventArgs.logic,EventArgs.logic]
  simp only [settledEvent,canonFields_idem]

section
variable {α : Type} {es : List (String × Option Json)} (hnodup : (es.map Prod.fst).Nodup)
include hnodup

variable {c : Codec α} {key : String}
variable (i : ℕ)

theorem need_written {a : α} (h : es[i]? = some (field key c a)) :
    typed (need c key (canonFields (record es))) = .ok (c.settled a) := by
  rw [need_canonFields (lookup_record hnodup (List.mem_of_getElem? h))]
  rfl

theorem find_written {a : α} (h : es[i]? = some (field key c a)) :
    find c key (canonFields (record es)) = some (some (c.settled a)) := by
  have hfield : (record es).lookup key = (some a).map c.encode := lookup_record hnodup (List.mem_of_getElem? h)
  rw [find_canonFields hfield]
  rfl

theorem needText_written {a : String} (h : es[i]? = some (field key string a)) :
    needText key (canonFields (record es)) = .ok a := need_written hnodup i h

theorem readText_written {default : String} {a : String} (h : es[i]? = some (field key string a)) :
    readText key default (canonFields (record es)) = .ok a := by
  rw [readText,find_written hnodup i h]
  rfl

theorem readId_written {a : Option String} (h : es[i]? = some (field key nullableString a)) :
    readId key (canonFields (record es)) = .ok a := by
  rw [readId,find_written hnodup i h]
  rfl

theorem readClock_written {a : Option Number} (h : es[i]? = some (field key clock a)) :
    readClock key (canonFields (record es)) = .ok a := by
  rw [readClock,find_written hnodup i h,settled_clock]
  rfl

theorem readObject_written {a : Fields} (h : es[i]? = some (field key object a)) :
    readObject key (canonFields (record es)) = .ok (canonFields a) := by
  rw [readObject,find_written hnodup i h]
  rfl

end

theorem readIdentity_toDict (i : EventIdentity) : readIdentity (canonFields i.toDict) = .ok i := by
  have hnodup : (i.entries.map Prod.fst).Nodup := by
    show ["source_harness","project","session_id","parent_session_id","attempt_id","source_event_id","tenant","workspace",
      "source_agent"].Nodup
    decide
  rw [readIdentity,EventIdentity.toDict]
  simp only [bind,Except.bind,needText_written hnodup 0 rfl,needText_written hnodup 1 rfl,needText_written hnodup 2 rfl,
    readId_written hnodup 3 rfl,readId_written hnodup 4 rfl,readId_written hnodup 5 rfl,readText_written hnodup 6 rfl,
    readText_written hnodup 7 rfl,readText_written hnodup 8 rfl]
  rfl

theorem readArgs_toDict (e : LifecycleEvent sha) : readArgs (canonFields e.toDict) = .ok (settledEvent e).toEventArgs := by
  have hnodup : (e.entries.map Prod.fst).Nodup := by
    show ["schema_version","protocol_version","kind","content","content_hash","identity","created_at","observed_at","scope",
      "memory_kind","sensitivity","trust","classification","derived_from","provenance","payload","metadata","revision",
      "idempotency_key","deadline_at"].Nodup
    decide
  have hderived : readDerivedFrom (canonFields e.toDict) = .ok e.derivedFrom := by
    have hlist : (JsonCodec.list string).decode (canon ((JsonCodec.list string).encode e.derivedFrom)) = some e.derivedFrom :=
      ((JsonCodec.list string).roundTrip e.derivedFrom).trans (congrArg some (List.map_id _))
    rw [readDerivedFrom,Json.lookup_canonFields,EventArgs.toDict,
      lookup_record hnodup (List.mem_of_getElem? (show e.entries[13]? = some (field "derived_from" _ e.derivedFrom) from rfl))]
    exact congrArg typed hlist
  rw [readArgs,hderived,EventArgs.toDict]
  simp only [bind,Except.bind,need_written hnodup 5 rfl,settled_object,readIdentity_toDict,needText_written hnodup 2 rfl,
    needText_written hnodup 3 rfl,need_written hnodup 6 rfl,readText_written hnodup 4 rfl,readClock_written hnodup 7 rfl,
    readText_written hnodup 8 rfl,readText_written hnodup 9 rfl,readText_written hnodup 10 rfl,
    readText_written hnodup 11 rfl,readText_written hnodup 12 rfl,readObject_written hnodup 14 rfl,
    readObject_written hnodup 15 rfl,readObject_written hnodup 16 rfl,readText_written hnodup 17 rfl,
    readText_written hnodup 0 rfl,readText_written hnodup 1 rfl,readText_written hnodup 18 rfl,
    readClock_written hnodup 19 rfl]
  rfl

theorem fromDict_toDict (h : e.idempotencyKey ≠ "" ∨ e.derivedKey sha = .ok e.idempotencyKey) :
    fromDict sha (canonFields e.toDict) = .ok (settledEvent e) := by
  rw [fromDict,readArgs_toDict]
  refine construct_event (h.imp id fun hderived => ?_)
  rw [(settledEvent_logic e).derivedKey]
  exact hderived

end Verdict.Memory

import Verdict.Memory.Wire

/-! # Variants of an event's JSON form

Objects that differ in unknown fields, in the order of fields, in the clocks or in an alias of
the kind are read field by field in step, so that the events agree in all that the digests
look at.
-/
namespace Verdict.Memory
open JsonCodec
open Raising
open Dict (lookup_put put)
open Json (allFiniteFields canon canonFields pyEq)
open Option (map_id map_some)
variable {sha : Sha}

def textFields : List String :=
  ["content_hash","scope","memory_kind","sensitivity","trust","classification","revision","schema_version",
    "protocol_version","idempotency_key"]

def objectFields : List String := ["provenance","payload","metadata"]
def clockFields : List String := ["observed_at","deadline_at"]

/-- `LIFECYCLE_EVENT_KNOWN_FIELDS`. -/
def knownFields : List String :=
  ["kind","content","created_at","derived_from","identity"] ++ textFields ++ objectFields ++ clockFields

/-- `EVENT_IDENTITY_KNOWN_FIELDS`. -/
def identityFields : List String :=
  ["source_harness","project","session_id","parent_session_id","attempt_id","source_event_id","tenant","workspace",
    "source_agent"]

/-! ### Reading in step -/

/-- What two objects give for each known field, the kind, the dictionaries and the clocks up to relations. -/
structure ReadAlike (K : String → String → Prop) (O : Fields → Fields → Prop) (T : Option Number → Option Number → Prop)
    (fs gs : Fields) : Prop where
  identity : Related Eq (typed (need object "identity" fs) >>= readIdentity) (typed (need object "identity" gs) >>= readIdentity)
  derivedFrom : Related Eq (readDerivedFrom fs) (readDerivedFrom gs)
  kind : Related K (needText "kind" fs) (needText "kind" gs)
  content : Related Eq (needText "content" fs) (needText "content" gs)
  createdAt : Related Eq (typed (need numberCodec "created_at" fs)) (typed (need numberCodec "created_at" gs))
  texts : ∀ key ∈ textFields, ∀ default, Related Eq (readText key default fs) (readText key default gs)
  objects : ∀ key ∈ objectFields, Related O (readObject key fs) (readObject key gs)
  clocks : ∀ key ∈ clockFields, Related T (readClock key fs) (readClock key gs)

structure ArgsAlike (K : String → String → Prop) (O : Fields → Fields → Prop) (T : Option Number → Option Number → Prop)
    (a b : EventArgs) : Prop where
  same : b = {a with
    kind := b.kind, provenance := b.provenance, payload := b.payload, metadata := b.metadata
    observedAt := b.observedAt, deadlineAt := b.deadlineAt }
  kind : K a.kind b.kind
  provenance : O a.provenance b.provenance
  payload : O a.payload b.payload
  metadata : O a.metadata b.metadata
  observedAt : T a.observedAt b.observedAt
  deadlineAt : T a.deadlineAt b.deadlineAt

theorem readArgs_alike {K : String → String → Prop} {O : Fields → Fields → Prop} {T : Option Number → Option Number → Prop}
    {fs gs : Fields} (h : ReadAlike K O T fs gs) : Related (ArgsAlike K O T) (readArgs fs) (readArgs gs) := by
  refine .bind h.identity ?_
  rintro identity _ rfl
  refine .bind h.derivedFrom ?_
  rintro derivedFrom _ rfl
  refine .bind h.kind fun kind kind' hkind => .bind h.content ?_
  rintro content _ rfl
  refine .bind h.createdAt ?_
  rintro createdAt _ rfl
  refine .bind (h.texts "content_hash" (by decide) "") ?_
  rintro contentHash _ rfl
  refine .bind (h.clocks "observed_at" (by decide)) fun observedAt observedAt' hobserved =>
    .bind (h.texts "scope" (by decide) "default") ?_
  rintro scope _ rfl
  refine .bind (h.texts "memory_kind" (by decide) "memory") ?_
  rintro memoryKind _ rfl
  refine .bind (h.texts "sensitivity" (by decide) "standard") ?_
  rintro sensitivity _ rfl
  refine .bind (h.texts "trust" (by decide) "remote-advisory") ?_
  rintro trust _ rfl
  refine .bind (h.texts "classification" (by decide) "source") ?_
  rintro classification _ rfl
  refine .bind (h.objects "provenance" (by decide)) fun provenance provenance' hprovenance =>
    .bind (h.objects "payload" (by decide)) fun payload payload' hpayload =>
    .bind (h.objects "metadata" (by decide)) fun metadata metadata' hmetadata =>
    .bind (h.texts "revision" (by decide) "1") ?_
  rintro revision _ rfl
  refine .bind (h.texts "schema_version" (by decide) LIFECYCLE_EVENT_SCHEMA) ?_
  rintro schemaVersion _ rfl
  refine .bind (h.texts "protocol_version" (by decide) SHARED_MEMORY_PROTOCOL_VERSION) ?_
  rintro protocolVersion _ rfl
  refine .bind (h.texts "idempotency_key" (by decide) "") ?_
  rintro idempotencyKey _ rfl
  exact .bind (h.clocks "deadline_at" (by decide)) fun deadlineAt deadlineAt' hdeadline =>
    .ok ⟨rfl,hkind,hprovenance,hpayload,hmetadata,hobserved,hdeadline⟩

/-! ### Fields that print the same -/

theorem typed_related {α : Type} {f : α → α} {o o' : Option α} (h : o.map f = o'.map f) :
    Related (fun a b => f a = f b) (typed o) (typed o') := by
  intro a ha
  cases o with
  | none => cases ha
  | some x =>
    cases ha
    obtain ⟨b,hb,hab⟩ := Option.map_eq_some_iff.mp (h.symm.trans (map_some _ f))
    rw [hb]
    exact ⟨b,rfl,hab.symm⟩

section
variable {key : String} {fs gs : Fields} (h : SameAt key fs gs)
include h

theorem needText_same : Related Eq (needText key fs) (needText key gs) := typed_related (f := id) (need_same string_stable h)

theorem readText_same (default : String) : Related Eq (readText key default fs) (readText key default gs) := by
  have hfind : find string key fs = find string key gs := by
    have hsame := find_same string_stable h
    rwa [settled_string,map_id,map_id] at hsame
  rw [readText,readText,hfind]
  exact fun a ha => ⟨a,ha,rfl⟩

theorem readId_same : Related Eq (readId key fs) (readId key gs) := by
  have hfind : find nullableString key fs = find nullableString key gs := by
    have hsame := find_same nullableString_stable h
    rwa [settled_nullableString,map_id,map_id] at hsame
  rw [readId,readId,hfind]
  exact fun a ha => ⟨a,ha,rfl⟩

theorem readObject_same :
    Related (fun a b => canonFields a = canonFields b) (readObject key fs) (readObject key gs) := by
  have hsame := find_same object_stable h
  rw [settled_object] at hsame
  intro a ha
  obtain ⟨o,ho,rfl⟩ := map_ok.mp ha
  obtain ⟨o',ho',hoo'⟩ := typed_related hsame o ho
  refine ⟨o'.getD [],by rw [readObject,ho']; rfl,?_⟩
  have hgetD : ∀ x : Option Fields, canonFields (x.getD []) = (x.map canonFields).getD [] := by
    rintro (_ | x) <;> rfl
  exact (hgetD o).trans ((congrArg (fun x => x.getD []) hoo').trans (hgetD o').symm)

end

/-- `derived_from` as it is read from a sorted form. -/
def derivedFrom : Option Json → Except EventError (List String)
  | none | some (.scalar .null) => .ok []
  | some j => typed ((JsonCodec.list string).decode j)

theorem readDerivedFrom_same {fs gs : Fields} (h : SameAt "derived_from" fs gs) :
    Related Eq (readDerivedFrom fs) (readDerivedFrom gs) := by
  have hread : ∀ hs : Fields, readDerivedFrom hs = derivedFrom ((hs.lookup "derived_from").map canon) := by
    intro hs
    rw [readDerivedFrom]
    cases hs.lookup "derived_from" with
    | none => rfl
    | some j =>
      cases j with
      | scalar s => cases s <;> rfl
      | obj fs => rfl
      | arr xs =>
        have hsettled : (JsonCodec.list string).settled = id := List.map_id_fun
        have hdecode := list_stable string_stable (.arr xs)
        rw [hsettled,map_id] at hdecode
        exact congrArg typed hdecode.symm
  rw [hread,hread,h]
  exact fun a ha => ⟨a,ha,rfl⟩

theorem readIdentity_same {is js : Fields} (h : ∀ key ∈ identityFields, SameAt key is js) :
    Related Eq (readIdentity is) (readIdentity js) := by
  refine .bind (needText_same (h "source_harness" (by decide))) ?_
  rintro sourceHarness _ rfl
  refine .bind (needText_same (h "project" (by decide))) ?_
  rintro project _ rfl
  refine .bind (needText_same (h "session_id" (by decide))) ?_
  rintro sessionId _ rfl
  refine .bind (readId_same (h "parent_session_id" (by decide))) ?_
  rintro parentSessionId _ rfl
  refine .bind (readId_same (h "attempt_id" (by decide))) ?_
  rintro attemptId _ rfl
  refine .bind (readId_same (h "source_event_id" (by decide))) ?_
  rintro sourceEventId _ rfl
  refine .bind (readText_same (h "tenant" (by decide)) "default") ?_
  rintro tenant _ rfl
  refine .bind (readText_same (h "workspace" (by decide)) "default") ?_
  rintro workspace _ rfl
  refine .bind (readText_same (h "source_agent" (by decide)) "unknown") ?_
  rintro sourceAgent _ rfl
  exact .ok rfl

/-! ### Edits of the JSON form -/

/-- The JSON form with unknown fields added at the top or in the identity, with its fields in another
order at any depth, or with other clocks. -/
inductive Edited : Fields → Fields → Prop
  | reordered {fs gs : Fields} : Json.Reordered (.obj fs) (.obj gs) → Edited fs gs
  | unknown {fs : Fields} {key : String} {v : Json} : key ∉ knownFields → Edited fs (put key v fs)
  | unknownIdentity {fs identity : Fields} {key : String} {v : Json} : fs.lookup "identity" = some (.obj identity) →
    key ∉ identityFields → Edited fs (put "identity" (.obj (put key v identity)) fs)
  | clocked {fs : Fields} {key : String} {time : Option Number} : key ∈ clockFields →
    Edited fs (put key (clock.encode time) fs)
  | trans {fs gs hs : Fields} : Edited fs gs → Edited gs hs → Edited fs hs

structure Varied (fs gs : Fields) : Prop where
  same : ∀ key ∈ knownFields, key ∉ "identity" :: clockFields → SameAt key fs gs
  identity : ∀ is, fs.lookup "identity" = some (.obj is) →
    ∃ js, gs.lookup "identity" = some (.obj js) ∧ ∀ key ∈ identityFields, SameAt key is js
  clocks : ∀ key ∈ clockFields, ∀ time, readClock key fs = .ok time → ∃ time', readClock key gs = .ok time'

variable {key' : String}

theorem sameAt_put {key : String} (hne : key ≠ key') (v : Json) (fs : Fields) : SameAt key fs (put key' v fs) := by
  rw [SameAt,lookup_put,if_neg hne]

theorem sameAt_of_canon {fs gs : Fields} (h : canonFields fs = canonFields gs) (key : String) : SameAt key fs gs := by
  rw [SameAt,← Json.lookup_canonFields,← Json.lookup_canonFields,h]

theorem readClock_put {key : String} (v : Json) (fs : Fields) (hne : key ≠ key') :
    readClock key (put key' v fs) = readClock key fs := by
  rw [readClock,readClock,find,find,lookup_put,if_neg hne]

theorem clock_stable : clock.Stable := by
  intro j
  cases j with
  | scalar s =>
    rw [settled_clock,map_id]
    rfl
  | arr xs => rfl
  | obj fs => rfl

theorem Edited.varied {fs gs : Fields} (h : Edited fs gs) : Varied fs gs := by
  induction h with
  | @reordered fs gs hre =>
    have hcanon : canonFields fs = canonFields gs := Json.obj.inj hre.canon
    refine ⟨fun key _ _ => sameAt_of_canon hcanon key,fun is his => ?_,fun key _ time htime => ?_⟩
    · have hsame : SameAt "identity" fs gs := sameAt_of_canon hcanon "identity"
      rw [SameAt,his] at hsame
      obtain ⟨j,hj,hcanonj⟩ := Option.map_eq_some_iff.mp hsame.symm
      cases j with
      | scalar s => cases hcanonj
      | arr xs => cases hcanonj
      | obj js => exact ⟨js,hj,fun key _ => sameAt_of_canon (Json.obj.inj hcanonj).symm key⟩
    · have hfind := find_same clock_stable (sameAt_of_canon hcanon key)
      rw [settled_clock,map_id,map_id] at hfind
      rw [readClock] at htime ⊢
      rw [← show find clock key fs = find clock key gs from hfind]
      exact ⟨time,htime⟩
  | @unknown fs key v hkey =>
    refine ⟨fun k hk _ => sameAt_put (ne_of_mem_of_not_mem hk hkey) v fs,fun is his => ⟨is,?_,fun k _ => rfl⟩,
      fun k hk time htime => ⟨time,?_⟩⟩
    · have hidentity : "identity" ∈ knownFields := by decide
      rw [lookup_put,if_neg (ne_of_mem_of_not_mem hidentity hkey),his]
    · rw [readClock_put v fs (ne_of_mem_of_not_mem (List.mem_append_right _ hk) hkey),htime]
  | @unknownIdentity fs identity key v hidentity hkey =>
    refine ⟨fun k _ hnot => sameAt_put (ne_of_mem_of_not_mem List.mem_cons_self hnot).symm _ fs,fun is his => ?_,
      fun k hk time htime => ⟨time,?_⟩⟩
    · cases hidentity.symm.trans his
      exact ⟨put key v identity,by rw [lookup_put,if_pos rfl],
        fun k hk => sameAt_put (ne_of_mem_of_not_mem hk hkey) v identity⟩
    · have hclock : "identity" ∉ clockFields := by decide
      rw [readClock_put _ fs (ne_of_mem_of_not_mem hk hclock),htime]
  | @clocked fs key time hkey =>
    refine ⟨fun k _ hnot => sameAt_put (ne_of_mem_of_not_mem (List.mem_cons_of_mem _ hkey) hnot).symm _ fs,
      fun is his => ⟨is,?_,fun k _ => rfl⟩,fun k _ time' htime => ?_⟩
    · have hclock : "identity" ∉ clockFields := by decide
      rw [lookup_put,if_neg (ne_of_mem_of_not_mem hkey hclock).symm,his]
    · by_cases hk : k = key
      · refine ⟨time,?_⟩
        have hdecode : clock.decode (clock.encode time) = some time := by
          have hround := clock.roundTrip time
          rwa [clock_stable,settled_clock,map_id] at hround
        rw [readClock,find,lookup_put,if_pos hk]
        simp only [hdecode,map_some]
        rfl
      · exact ⟨time',by rw [readClock_put _ fs hk,htime]⟩
  | trans _ _ hfirst hsecond =>
    refine ⟨fun key hkey hnot => (hfirst.same key hkey hnot).trans (hsecond.same key hkey hnot),fun is his => ?_,
      fun key hkey time htime => ?_⟩
    · obtain ⟨js,hjs,hij⟩ := hfirst.identity is his
      obtain ⟨ks,hks,hjk⟩ := hsecond.identity js hjs
      exact ⟨ks,hks,fun key hkey => (hij key hkey).trans (hjk key hkey)⟩
    · obtain ⟨time',htime'⟩ := hfirst.clocks key hkey time htime
      exact hsecond.clocks key hkey time' htime'

theorem Varied.readAlike {fs gs : Fields} (h : Varied fs gs) :
    ReadAlike Eq (fun a b => canonFields a = canonFields b) (fun _ _ => True) fs gs where
  identity := by
    intro i hi
    obtain ⟨is,his,hread⟩ := bind_ok.mp hi
    have hlookup : fs.lookup "identity" = some (.obj is) := by
      rw [need] at his
      cases hfs : fs.lookup "identity" with
      | none =>
        rw [hfs] at his
        cases his
      | some j =>
        rw [hfs] at his
        cases j with
        | scalar s => cases his
        | arr xs => cases his
        | obj fields =>
          cases his
          rfl
    obtain ⟨js,hjs,hsame⟩ := h.identity is hlookup
    obtain ⟨i',hi',rfl⟩ := readIdentity_same hsame i hread
    refine ⟨i,?_,rfl⟩
    rw [need,hjs]
    exact hi'
  derivedFrom := readDerivedFrom_same (h.same "derived_from" (by decide) (by decide))
  kind := needText_same (h.same "kind" (by decide) (by decide))
  content := needText_same (h.same "content" (by decide) (by decide))
  createdAt := typed_related (f := id) (need_same (by
    rintro (s | xs | fields)
    · simp only [canon,numberCodec]
      split <;> rfl
    · rfl
    · rfl) (h.same "created_at" (by decide) (by decide)))
  texts key hkey default := by
    have hknown : key ∈ knownFields :=
      List.mem_append_left _ (List.mem_append_left _ (List.mem_append_right _ hkey))
    have hnot : key ∉ "identity" :: clockFields := by
      revert hkey key
      decide
    exact readText_same (h.same key hknown hnot) default
  objects key hkey := by
    have hknown : key ∈ knownFields := List.mem_append_left _ (List.mem_append_right _ hkey)
    have hnot : key ∉ "identity" :: clockFields := by
      revert hkey key
      decide
    exact readObject_same (h.same key hknown hnot)
  clocks key hkey := by
    intro time htime
    obtain ⟨time',htime'⟩ := h.clocks key hkey time htime
    exact ⟨time',htime',trivial⟩

/-! ### Constructing in step -/

structure Checks (sha : Sha) (a : EventArgs) : Prop where
  allowed : Allowed (canonKind a.kind)
  schema : a.schemaVersion = LIFECYCLE_EVENT_SCHEMA
  protocol : a.protocolVersion = SHARED_MEMORY_PROTOCOL_VERSION
  required : a.content ≠ "" ∧ a.identity.project ≠ "" ∧ a.identity.sessionId ≠ ""
  classified : a.classification = "source" ∨ a.classification = "derived"
  hashed : ¬(a.contentHash ≠ "" ∧ a.contentHash ≠ sha.text a.content)

def normalized (sha : Sha) (a : EventArgs) : EventArgs := {a with kind := canonKind a.kind, contentHash := sha.text a.content}

variable {e : LifecycleEvent sha}

theorem event_ext {e' : LifecycleEvent sha} (h : e.toEventArgs = e'.toEventArgs) : e = e' := by
  obtain ⟨a,_,_,_,_,_,_⟩ := e
  obtain ⟨a',_,_,_,_,_,_⟩ := e'
  cases h
  rfl

variable {a : EventArgs}

theorem check_ok :
    check sha a = .ok e ↔ Checks sha a ∧ e.toEventArgs = normalized sha a := by
  constructor
  · intro h
    rw [check] at h
    split at h
    · cases h
    · rename_i hallowed
      split at h
      · cases h
      · rename_i hschema
        split at h
        · cases h
        · rename_i hprotocol
          split at h
          · cases h
          · rename_i hrequired
            split at h
            · cases h
            · rename_i hclassified
              split at h
              · cases h
              · rename_i hhash
                cases h
                exact ⟨⟨not_not.mp hallowed,not_not.mp hschema,not_not.mp hprotocol,not_not.mp hrequired,
                  not_not.mp hclassified,hhash⟩,rfl⟩
  · rintro ⟨h,heq⟩
    rw [check,dif_neg (not_not.mpr h.allowed),dif_neg (not_not.mpr h.schema),dif_neg (not_not.mpr h.protocol),
      dif_neg (not_not.mpr h.required),dif_neg (not_not.mpr h.classified),if_neg h.hashed]
    exact congrArg Except.ok (event_ext heq.symm)

variable {b : EventArgs}

theorem construct_sameLogic (h : SameLogic a b) (hkey : a.idempotencyKey = b.idempotencyKey) :
    Related (fun e e' => SameLogic e.toEventArgs e'.toEventArgs ∧ e.idempotencyKey = e'.idempotencyKey)
      (construct sha a) (construct sha b) := by
  have hcheck : Related (fun e e' : LifecycleEvent sha => SameLogic e.toEventArgs e'.toEventArgs ∧
      e.idempotencyKey = e'.idempotencyKey) (check sha a) (check sha b) := by
    intro e he
    obtain ⟨hchecks,heq⟩ := check_ok.mp he
    have hlogicChecks : Checks sha a.logic := ⟨hchecks.allowed,hchecks.schema,hchecks.protocol,hchecks.required,
      hchecks.classified,hchecks.hashed⟩
    rw [show a.logic = b.logic from h] at hlogicChecks
    have hchecks' : Checks sha b := ⟨hlogicChecks.allowed,hlogicChecks.schema,hlogicChecks.protocol,hlogicChecks.required,
      hlogicChecks.classified,hlogicChecks.hashed⟩
    refine ⟨{normalized sha b with
      allowed := hchecks'.allowed, schema := hchecks'.schema, protocol := hchecks'.protocol
      required := hchecks'.required, classified := hchecks'.classified, hashed := rfl},check_ok.mpr ⟨hchecks',rfl⟩,?_,?_⟩
    · rw [heq]
      exact congrArg (normalized sha) h
    · rw [heq]
      exact hkey
  refine .bind hcheck fun e e' hboth => ?_
  obtain ⟨hlogic,hsame⟩ := hboth
  intro c hc
  rw [withKey] at hc ⊢
  rw [← hsame,← hlogic.derivedKey]
  split at hc
  · rename_i hgiven
    cases hc
    rw [if_pos hgiven]
    exact ⟨e',rfl,hlogic,hsame⟩
  · rename_i hempty
    obtain ⟨key,hderived,rfl⟩ := map_ok.mp hc
    rw [if_neg hempty,hderived]
    exact ⟨_,rfl,hlogic,rfl⟩

theorem ArgsAlike.sameLogic (h : ArgsAlike Eq (fun a b => canonFields a = canonFields b) (fun _ _ => True) a b) :
    SameLogic a b ∧ a.idempotencyKey = b.idempotencyKey := by
  obtain ⟨hsame,hkind,hprovenance,hpayload,hmetadata,-,-⟩ := h
  rw [hsame]
  constructor
  · rw [SameLogic,EventArgs.logic,EventArgs.logic]
    simp only [hkind,show canonFields a.provenance = canonFields b.provenance from hprovenance,
      show canonFields a.payload = canonFields b.payload from hpayload,
      show canonFields a.metadata = canonFields b.metadata from hmetadata]
  · rfl

theorem fromDict_edited {fs gs : Fields} (h : Edited fs gs) :
    Related (fun e e' => SameLogic e.toEventArgs e'.toEventArgs ∧ e.idempotencyKey = e'.idempotencyKey)
      (fromDict sha fs) (fromDict sha gs) := by
  refine .bind (readArgs_alike h.varied.readAlike) fun a b hab => ?_
  obtain ⟨hlogic,hkey⟩ := hab.sameLogic
  exact construct_sameLogic hlogic hkey

/-! ### Aliases of a kind -/

theorem lookup_kind {key : String} (h : key ≠ "kind") (v w : Json) (fs : Fields) :
    (("kind",v) :: fs).lookup key = (("kind",w) :: fs).lookup key := by
  rw [Dict.lookup_cons_ite,Dict.lookup_cons_ite,if_neg h,if_neg h]

theorem readAlike_kind (kind kind' : String) (fs : Fields) :
    ReadAlike (fun a b => a = kind ∧ b = kind') Eq Eq (("kind",.str kind) :: fs) (("kind",.str kind') :: fs) where
  identity := by
    rw [need,need,lookup_kind (by decide) (.str kind) (.str kind')]
    exact fun a ha => ⟨a,ha,rfl⟩
  derivedFrom := by
    rw [readDerivedFrom,readDerivedFrom,lookup_kind (by decide) (.str kind) (.str kind')]
    exact fun a ha => ⟨a,ha,rfl⟩
  kind := .ok ⟨rfl,rfl⟩
  content := by
    rw [needText,needText,need,need,lookup_kind (by decide) (.str kind) (.str kind')]
    exact fun a ha => ⟨a,ha,rfl⟩
  createdAt := by
    rw [need,need,lookup_kind (by decide) (.str kind) (.str kind')]
    exact fun a ha => ⟨a,ha,rfl⟩
  texts key hkey default := by
    have hother : "kind" ∉ textFields := by decide
    rw [readText,readText,find,find,lookup_kind (ne_of_mem_of_not_mem hkey hother) (.str kind) (.str kind')]
    exact fun a ha => ⟨a,ha,rfl⟩
  objects key hkey := by
    have hother : "kind" ∉ objectFields := by decide
    rw [readObject,readObject,find,find,lookup_kind (ne_of_mem_of_not_mem hkey hother) (.str kind) (.str kind')]
    exact fun a ha => ⟨a,ha,rfl⟩
  clocks key hkey := by
    have hother : "kind" ∉ clockFields := by decide
    rw [readClock,readClock,find,find,lookup_kind (ne_of_mem_of_not_mem hkey hother) (.str kind) (.str kind')]
    exact fun a ha => ⟨a,ha,rfl⟩

theorem fromDict_kind {kind kind' : String} (h : canonKind kind = canonKind kind') (fs : Fields) :
    Related Eq (fromDict sha (("kind",.str kind) :: fs)) (fromDict sha (("kind",.str kind') :: fs)) := by
  refine .bind (readArgs_alike (readAlike_kind kind kind' fs)) fun a b hab => ?_
  obtain ⟨hsame,⟨hkind,hkind'⟩,hprovenance,hpayload,hmetadata,hobserved,hdeadline⟩ := hab
  have hcanon : canonKind a.kind = canonKind b.kind := by rw [hkind,hkind',h]
  have hb : b = {a with kind := b.kind} := by
    rw [hsame]
    simp only [hprovenance,hpayload,hmetadata,hobserved,hdeadline]
  have hcheck : Related Eq (check sha a) (check sha b) := by
    intro e he
    obtain ⟨hchecks,heq⟩ := check_ok.mp he
    refine ⟨e,check_ok.mpr ⟨?_,heq.trans ?_⟩,rfl⟩
    · rw [hb]
      exact ⟨hcanon ▸ hchecks.allowed,hchecks.schema,hchecks.protocol,hchecks.required,hchecks.classified,hchecks.hashed⟩
    · rw [hb,normalized,normalized]
      simp only [hcanon]
  refine .bind hcheck ?_
  rintro e _ rfl
  exact fun e' he' => ⟨e',he',rfl⟩

/-! ### Surviving the wire -/

/-- Two events are equal in every field; dictionaries compare without their order. -/
structure SameEvent (e e' : LifecycleEvent sha) : Prop where
  fields : e'.toEventArgs = {e.toEventArgs with provenance := e'.provenance, payload := e'.payload, metadata := e'.metadata}
  provenance : pyEq (.obj e.provenance) (.obj e'.provenance) = true
  payload : pyEq (.obj e.payload) (.obj e'.payload) = true
  metadata : pyEq (.obj e.metadata) (.obj e'.metadata) = true

structure FiniteData (e : EventArgs) : Prop where
  provenance : allFiniteFields e.provenance = true
  payload : allFiniteFields e.payload = true
  metadata : allFiniteFields e.metadata = true

structure FiniteClocks (e : EventArgs) : Prop where
  createdAt : Json.Scalar.isFinite e.createdAt.scalar = true
  observedAt : ∀ time, e.observedAt = some time → Json.Scalar.isFinite time.scalar = true
  deadlineAt : ∀ time, e.deadlineAt = some time → Json.Scalar.isFinite time.scalar = true

theorem clock_finite {o : Option Number} (h : ∀ time, o = some time → Json.Scalar.isFinite time.scalar = true) :
    (clock.encode o).allFinite = true := by
  cases o with
  | none => rfl
  | some time => exact h time rfl

theorem identity_finite (i : EventIdentity) : allFiniteFields i.toDict = true := by
  have hid : ∀ o : Option String, (nullableString.encode o).allFinite = true := by
    rintro (_ | s) <;> rfl
  simp only [EventIdentity.toDict,EventIdentity.entries,record,field,List.filterMap_cons,map_some,
    List.filterMap_nil,allFiniteFields,hid,Bool.true_and,Bool.and_true]
  rfl

theorem derivedFrom_finite (ids : List String) : Json.allFiniteList (ids.map string.encode) = true := by
  induction ids with
  | nil => rfl
  | cons id ids ih => exact ih

theorem toCanonicalJson_ok (hdata : FiniteData e.toEventArgs) (hclocks : FiniteClocks e.toEventArgs) :
    toCanonicalJson sha e = .ok (canon (.obj e.toDict)) := by
  have htext : ∀ s : String, (string.encode s).allFinite = true := fun _ => rfl
  have hobject : ∀ fs : Fields, (object.encode fs).allFinite = allFiniteFields fs := fun _ => rfl
  have hlist : ((JsonCodec.list string).encode e.derivedFrom).allFinite = true := derivedFrom_finite e.derivedFrom
  have hcreated : (numberCodec.encode e.createdAt).allFinite = true := hclocks.createdAt
  have hfinite : (Json.obj e.toDict).allFinite = true := by
    rw [Json.allFinite]
    simp only [EventArgs.toDict,EventArgs.entries,record,field,List.filterMap_cons,map_some,
      List.filterMap_nil,allFiniteFields,htext,hobject,hlist,hcreated,identity_finite,clock_finite hclocks.observedAt,
      clock_finite hclocks.deadlineAt,hdata.provenance,hdata.payload,hdata.metadata,Bool.and_true]
  rw [toCanonicalJson,canonicalize,if_pos hfinite]

theorem same_settledEvent (hdata : FiniteData e.toEventArgs) : SameEvent e (settledEvent e) := by
  have hread : ∀ fs : Fields, allFiniteFields fs = true → pyEq (.obj fs) (.obj (canonFields fs)) = true := by
    intro fs hfs
    rw [show Json.obj (canonFields fs) = canon (.obj fs) from rfl,Json.pyEq_canon,
      Json.hasNan_of_allFinite (.obj fs) hfs]
    rfl
  exact ⟨rfl,hread _ hdata.provenance,hread _ hdata.payload,hread _ hdata.metadata⟩

theorem settledEvent_toDict (e : LifecycleEvent sha) :
    canonFields (settledEvent e).toDict = canonFields e.toDict := by
  refine Json.canonFields_congr (.cons ⟨rfl,rfl⟩ (.cons ⟨rfl,rfl⟩ (.cons ⟨rfl,rfl⟩ (.cons ⟨rfl,rfl⟩ (.cons ⟨rfl,rfl⟩
    (.cons ⟨rfl,rfl⟩ (.cons ⟨rfl,rfl⟩ (.cons ⟨rfl,rfl⟩ (.cons ⟨rfl,rfl⟩ (.cons ⟨rfl,rfl⟩ (.cons ⟨rfl,rfl⟩ (.cons ⟨rfl,rfl⟩
    (.cons ⟨rfl,rfl⟩ (.cons ⟨rfl,rfl⟩ (.cons ⟨rfl,?_⟩ (.cons ⟨rfl,?_⟩ (.cons ⟨rfl,?_⟩ (.cons ⟨rfl,rfl⟩ (.cons ⟨rfl,rfl⟩
    (.cons ⟨rfl,rfl⟩ .nil))))))))))))))))))))
  · exact Json.canon_obj_canonFields e.provenance
  · exact Json.canon_obj_canonFields e.payload
  · exact Json.canon_obj_canonFields e.metadata

/-- A constructed event whose numbers are finite survives the wire; edits of a JSON form leave the
digest and the derived key, and an alias of a kind gives the same event. -/
theorem event_survives_wire {a : EventArgs} {e : LifecycleEvent sha} (h : construct sha a = .ok e)
    (hdata : FiniteData e.toEventArgs) (hclocks : FiniteClocks e.toEventArgs) :
    (∃ text e', toCanonicalJson sha e = .ok text ∧ loadsLifecycleEvent sha text = .ok e' ∧ SameEvent e e' ∧
      e'.digest sha = e.digest sha ∧ e'.contentFingerprint sha = e.contentFingerprint sha ∧
      e'.idempotencyKey = e.idempotencyKey ∧ toCanonicalJson sha e' = .ok text) ∧
    (∀ fs gs e₁, fromDict sha fs = .ok e₁ → Edited fs gs → ∃ e₂, fromDict sha gs = .ok e₂ ∧
      e₂.digest sha = e₁.digest sha ∧ e₂.derivedKey sha = e₁.derivedKey sha ∧ e₂.idempotencyKey = e₁.idempotencyKey) ∧
    (∀ other kind fs e₁, (other,kind) ∈ eventKindAliases →
      (fromDict sha (("kind",.str other) :: fs) = .ok e₁ ↔ fromDict sha (("kind",.str kind.text) :: fs) = .ok e₁)) := by
  refine ⟨⟨canon (.obj e.toDict),settledEvent e,toCanonicalJson_ok hdata hclocks,fromDict_toDict (construct_key h),
    same_settledEvent hdata,(settledEvent_logic e).digest,(settledEvent_logic e).contentFingerprint,rfl,?_⟩,?_,?_⟩
  · have hdata' : FiniteData (settledEvent e).toEventArgs :=
      ⟨(Json.allFiniteFields_canonFields _).trans hdata.provenance,(Json.allFiniteFields_canonFields _).trans hdata.payload,
        (Json.allFiniteFields_canonFields _).trans hdata.metadata⟩
    have hclocks' : FiniteClocks (settledEvent e).toEventArgs := ⟨hclocks.createdAt,hclocks.observedAt,hclocks.deadlineAt⟩
    rw [toCanonicalJson_ok hdata' hclocks',canon,settledEvent_toDict,canon]
  · intro fs gs e₁ he₁ hedited
    obtain ⟨e₂,he₂,hlogic,hkey⟩ := fromDict_edited hedited e₁ he₁
    exact ⟨e₂,he₂,hlogic.digest.symm,hlogic.derivedKey.symm,hkey.symm⟩
  · intro other kind fs e₁ halias
    have hcanon : canonKind other = canonKind kind.text := by
      have hall : ∀ p ∈ eventKindAliases, canonKind p.1 = canonKind p.2.text := by decide
      exact hall (other,kind) halias
    constructor
    · intro he₁
      obtain ⟨e₂,he₂,rfl⟩ := fromDict_kind hcanon fs e₁ he₁
      exact he₂
    · intro he₁
      obtain ⟨e₂,he₂,rfl⟩ := fromDict_kind hcanon.symm fs e₁ he₁
      exact he₂

def plainSha : Sha where
  text text := "sha:" ++ text
  json := Json.print

def compactionEvent (deadline : Option Number) : LifecycleEvent plainSha where
  kind := "before_compact"
  content := "notes"
  identity := {sourceHarness := "pi", project := "verdict", sessionId := "s1", sourceEventId := some "e1"}
  createdAt := ⟨.float 1,rfl⟩
  contentHash := "sha:notes"
  payload := [("turn",.int 3),("files",.arr [.str "a.py"])]
  idempotencyKey := "key"
  deadlineAt := deadline
  allowed := by decide
  schema := rfl
  protocol := rfl
  required := by decide
  classified := .inl rfl
  hashed := by decide

theorem compaction_survives_wire : ∃ text e', toCanonicalJson plainSha (compactionEvent none) = .ok text ∧
    loadsLifecycleEvent plainSha text = .ok e' ∧ SameEvent (compactionEvent none) e' := by
  have hconstruct : construct plainSha (compactionEvent none).toEventArgs = .ok (compactionEvent none) :=
    construct_event (.inl (by decide))
  have hclocks : FiniteClocks (compactionEvent none).toEventArgs := ⟨rfl,fun _ h => (by cases h),fun _ h => (by cases h)⟩
  obtain ⟨⟨text,e',htext,hloads,hsame,-⟩,-⟩ := event_survives_wire hconstruct ⟨rfl,rfl,rfl⟩ hclocks
  exact ⟨text,e',htext,hloads,hsame⟩

/-- An event with an infinite deadline is constructed, and has no canonical form. -/
theorem infinite_deadline_not_written : ¬∀ (sha : Sha) (a : EventArgs) (e : LifecycleEvent sha), construct sha a = .ok e →
    FiniteData e.toEventArgs → ∃ text, toCanonicalJson sha e = .ok text := by
  intro hall
  obtain ⟨text,htext⟩ := hall plainSha _ (compactionEvent (some ⟨.inf,rfl⟩)) (construct_event (.inl (by decide)))
    ⟨rfl,rfl,rfl⟩
  have hnot : ¬(Json.obj (compactionEvent (some ⟨.inf,rfl⟩)).toDict).allFinite = true := by decide
  rw [toCanonicalJson,canonicalize,if_neg hnot] at htext
  cases htext

end Verdict.Memory

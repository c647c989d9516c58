import Verdict.Plane.Store

/-! # One active record for a key

Every call keeps the rows apart by their ids, leaves at most one active row for a key and an
index of exactly the active ones, and stores only rows that could be put again.
-/
namespace Verdict.Plane
open Json
open List (map_map mem_append mem_cons mem_cons_self mem_filter mem_map mem_singleton nodup_nil
  not_mem_nil)
variable {sha256 : String → String}

/-- A row that `_normalize` and the table accept as it is. -/
structure Valid (sha256 : String → String) (r : MemoryRecord) : Prop where
  required : ¬(r.recordId = "" ∨ r.space = "" ∨ r.key = "" ∨ r.source = "" ∨ r.content = "")
  confidence : Real.number 0 ≤ r.confidence ∧ r.confidence ≤ Real.number 1
  hash : r.contentHash = sha256 r.content
  version : r.schemaVersion = 2
  created : r.createdAt ≠ Real.null ∧ r.createdAt ≠ Real.number 0
  updated : r.updatedAt ≠ Real.null ∧ r.updatedAt ≠ Real.number 0
  known : r.status.known = true
  metadata : ∃ fs, r.metadata = some fs ∧ canonFields fs = fs
  provenance : ∃ fs, r.provenance = some fs ∧ canonFields fs = fs ∧
    ∀ name ∈ ["source","observed_at","schema_version"], (fs.lookup name).isSome
  expires : r.expiresAt ≠ some Real.null

structure Sound (sha256 : String → String) (p : MemoryPlane) : Prop where
  ids : (p.rows.map MemoryRecord.recordId).Nodup
  single : ∀ a ∈ p.rows, ∀ b ∈ p.rows, a.status = .active → b.status = .active → a.place = b.place → a = b
  indexIds : (p.index.map IndexRow.recordId).Nodup
  indexExact : ∀ i, i ∈ p.index ↔ ∃ r ∈ p.rows, r.status = .active ∧ r.indexRow = i
  valid : ∀ r ∈ p.rows, Valid sha256 r

theorem sound_empty : Sound sha256 {} where
  ids := nodup_nil
  single := fun _ h => absurd h not_mem_nil
  indexIds := nodup_nil
  indexExact := fun _ => ⟨fun h => absurd h not_mem_nil,fun ⟨_,h,_⟩ => absurd h not_mem_nil⟩
  valid := fun _ h => absurd h not_mem_nil

/-! ### Rows -/

theorem later_mem (a b : MemoryRecord) : later a b = a ∨ later a b = b := by
  rw [later]
  split
  · exact .inr rfl
  · exact .inl rfl

theorem foldl_later_mem (rs : List MemoryRecord) (r : MemoryRecord) : rs.foldl later r ∈ r :: rs := by
  induction rs generalizing r with
  | nil => exact mem_cons_self
  | cons x rs ih =>
    rw [List.foldl_cons]
    rcases mem_cons.mp (ih (later r x)) with h | h
    · rw [h]
      rcases later_mem r x with h | h
      · rw [h]
        exact mem_cons_self
      · rw [h]
        exact List.mem_cons_of_mem _ mem_cons_self
    · exact List.mem_cons_of_mem _ (List.mem_cons_of_mem _ h)

variable {rs : List MemoryRecord} {r : MemoryRecord}

theorem newest_mem (h : newest rs = some r) : r ∈ rs := by
  cases rs with
  | nil => cases h
  | cons x rs =>
    cases h
    exact foldl_later_mem rs x

theorem newest_none (h : newest rs = none) : rs = [] := by
  cases rs with
  | nil => rfl
  | cons x rs => cases h

variable {rows : List MemoryRecord}

theorem newest_filter {P : MemoryRecord → Prop} [DecidablePred P]
    (hone : ∀ a ∈ rows, ∀ b ∈ rows, P a → P b → a = b) (r : MemoryRecord) :
    newest (rows.filter fun x => P x) = some r ↔ r ∈ rows ∧ P r := by
  constructor
  · intro h
    obtain ⟨hr,hp⟩ := mem_filter.mp (newest_mem h)
    exact ⟨hr,of_decide_eq_true hp⟩
  · rintro ⟨hr,hp⟩
    have hmem : r ∈ rows.filter fun x => P x := mem_filter.mpr ⟨hr,decide_eq_true hp⟩
    cases hnew : newest (rows.filter fun x => P x) with
    | none =>
      rw [newest_none hnew] at hmem
      exact absurd hmem not_mem_nil
    | some x =>
      obtain ⟨hx,hpx⟩ := mem_filter.mp (newest_mem hnew)
      rw [hone x hx r hr (of_decide_eq_true hpx) hp]

theorem Sound.activeRow_iff {p : MemoryPlane} (h : Sound sha256 p) (place : String × String × String) (r : MemoryRecord) :
    activeRow p.rows place = some r ↔ r ∈ p.rows ∧ IsActive place r :=
  newest_filter (fun a ha b hb haa hbb => h.single a ha b hb haa.2 hbb.2 (haa.1.trans hbb.1.symm)) r

variable {id : String}

theorem findRow_some (h : findRow rows id = some r) :
    r ∈ rows ∧ r.recordId = id := ⟨List.mem_of_find?_eq_some h,by simpa using List.find?_some h⟩

theorem findRow_none : findRow rows id = none ↔ ∀ r ∈ rows, r.recordId ≠ id := by
  simp only [findRow,List.find?_eq_none,decide_eq_true_eq,ne_eq]

theorem Sound.eq_of_id {p : MemoryPlane} (h : Sound sha256 p) {a b : MemoryRecord} (ha : a ∈ p.rows) (hb : b ∈ p.rows)
    (hid : a.recordId = b.recordId) : a = b := List.inj_on_of_nodup_map h.ids ha hb hid

/-! ### Superseding -/

theorem supersede_id (id : String) (t : Real) (r : MemoryRecord) : (supersede id t r).recordId = r.recordId := by
  rw [supersede]
  split <;> rfl

variable {t : Real}

theorem supersede_active : (supersede id t r).status = .active ↔ r.status = .active ∧ r.recordId ≠ id := by
  rw [supersede]
  split
  · next h => exact iff_of_false RecordStatus.noConfusion fun hr => hr.2 h
  · next h => exact ⟨fun hr => ⟨hr,h⟩,And.left⟩

theorem supersede_of_ne (t : Real) (h : r.recordId ≠ id) : supersede id t r = r := if_neg h

theorem supersede_valid (h : Valid sha256 r)
    (ht : t ≠ Real.null ∧ t ≠ Real.number 0) : Valid sha256 (supersede id t r) := by
  rw [supersede]
  split
  · exact ⟨h.required,h.confidence,h.hash,h.version,h.created,ht,rfl,h.metadata,h.provenance,h.expires⟩
  · exact h

variable {index : List IndexRow} {i : IndexRow}

theorem mem_unindex : i ∈ unindex id index ↔ i ∈ index ∧ i.recordId ≠ id := by
  rw [unindex,mem_filter,decide_eq_true_eq]

theorem unindex_nodup (h : (index.map IndexRow.recordId).Nodup) :
    ((unindex id index).map IndexRow.recordId).Nodup := h.sublist (List.filter_sublist.map _)

variable {p : MemoryPlane}

theorem retire_ids (previous : Option MemoryRecord) (t : Real) :
    (p.retire previous t).rows.map MemoryRecord.recordId = p.rows.map MemoryRecord.recordId := by
  cases previous with
  | none => rfl
  | some old =>
    rw [MemoryPlane.retire,map_map]
    exact List.map_congr_left fun r _ => supersede_id _ _ r

variable {previous : Option MemoryRecord}

theorem retire_active : r ∈ (p.retire previous t).rows ∧ r.status = .active ↔ r ∈ p.rows ∧ r.status =
    .active ∧ ∀ old, previous = some old → r.recordId ≠ old.recordId := by
  cases previous with
  | none => exact ⟨fun ⟨hr,ha⟩ => ⟨hr,ha,fun _ h => nomatch h⟩,fun ⟨hr,ha,_⟩ => ⟨hr,ha⟩⟩
  | some old =>
    rw [MemoryPlane.retire]
    constructor
    · rintro ⟨hr,ha⟩
      obtain ⟨x,hx,rfl⟩ := mem_map.mp hr
      obtain ⟨hxa,hne⟩ := supersede_active.mp ha
      rw [supersede_of_ne t hne]
      refine ⟨hx,hxa,fun old' he => ?_⟩
      cases he
      exact hne
    · rintro ⟨hr,ha,hne⟩
      have hsame := supersede_of_ne t (hne old rfl)
      exact ⟨mem_map.mpr ⟨r,hr,hsame⟩,ha⟩

theorem retire_index :
    i ∈ (p.retire previous t).index ↔ i ∈ p.index ∧ ∀ old, previous = some old → i.recordId ≠ old.recordId := by
  cases previous with
  | none => exact ⟨fun hi => ⟨hi,fun _ h => nomatch h⟩,And.left⟩
  | some old =>
    rw [MemoryPlane.retire]
    constructor
    · intro hi
      obtain ⟨hi,hne⟩ := mem_unindex.mp hi
      refine ⟨hi,fun old' he => ?_⟩
      cases he
      exact hne
    · rintro ⟨hi,hne⟩
      exact mem_unindex.mpr ⟨hi,hne old rfl⟩

theorem Sound.retire (h : Sound sha256 p) (previous : Option MemoryRecord) (ht : t ≠ Real.null ∧ t ≠ Real.number 0) :
    Sound sha256 (p.retire previous t) := by
  constructor
  · rw [retire_ids]
    exact h.ids
  · intro a ha b hb haa hbb hplace
    obtain ⟨ha',-,-⟩ := retire_active.mp ⟨ha,haa⟩
    obtain ⟨hb',-,-⟩ := retire_active.mp ⟨hb,hbb⟩
    exact h.single a ha' b hb' haa hbb hplace
  · cases previous with
    | none => exact h.indexIds
    | some old => exact unindex_nodup h.indexIds
  · intro i
    rw [retire_index,h.indexExact]
    constructor
    · rintro ⟨⟨r,hr,ha,rfl⟩,hne⟩
      obtain ⟨hr',ha'⟩ := retire_active.mpr ⟨hr,ha,hne⟩
      exact ⟨r,hr',ha',rfl⟩
    · rintro ⟨r,hr,ha,rfl⟩
      obtain ⟨hr',ha',hne⟩ := retire_active.mp ⟨hr,ha⟩
      exact ⟨⟨r,hr',ha',rfl⟩,hne⟩
  · intro r hr
    cases previous with
    | none => exact h.valid r hr
    | some old =>
      obtain ⟨x,hx,rfl⟩ := mem_map.mp hr
      exact supersede_valid (h.valid x hx) ht

/-! ### Normalizing -/

theorem setdefault_lookup (k : String) (v : Json) (fs : Fields) : ((setdefault k v fs).lookup k).isSome := by
  rw [setdefault]
  split
  · assumption
  · next h =>
    rw [Option.not_isSome_iff_eq_none] at h
    rw [List.lookup_append,h]
    simp

theorem setdefault_keeps {j : String} (k : String) (v : Json) {fs : Fields} (h : (fs.lookup j).isSome) :
    ((setdefault k v fs).lookup j).isSome := by
  rw [setdefault]
  split
  · exact h
  · obtain ⟨x,hx⟩ := Option.isSome_iff_exists.mp h
    rw [List.lookup_append,hx]
    rfl

theorem stamp_ne_zero (m : Moment) (t : Real) : stamp m t ≠ Real.number 0 := by
  rw [stamp]
  split
  · intro he
    have hzero : m.clock.1 = 0 := by simpa [Moment.now,Real.number] using he
    exact absurd m.clock.2 (by rw [hzero]; exact lt_irrefl 0)
  · assumption

variable {m : Moment} {allow : Bool} {n : MemoryRecord}

theorem normalize_ok (h : normalize sha256 m allow r = .ok n) :
    ¬(r.recordId = "" ∨ r.space = "" ∨ r.key = "" ∨ r.source = "" ∨ r.content = "") ∧
      (Real.number 0 ≤ r.confidence ∧ r.confidence ≤ Real.number 1) ∧
      n = {r with
        metadata := some (r.metadata.getD [])
        provenance := some (setdefault "schema_version" (.int 2) (setdefault "observed_at" (stamp m r.createdAt).json
          (setdefault "source" (.str r.source) (r.provenance.getD []))))
        createdAt := stamp m r.createdAt
        updatedAt := stamp m r.updatedAt
        contentHash := sha256 r.content
        schemaVersion := 2
        authorityVerified := if allow then r.authorityVerified else false } := by
  rw [normalize] at h
  split at h
  · cases h
  · split at h
    · cases h
    · split at h
      · cases h
      · next hrequired hconfidence _ =>
        exact ⟨hrequired,not_not.mp hconfidence,(Except.ok.inj h).symm⟩

theorem valid_row (h : normalize sha256 m allow r = .ok n) (hs : Storable n)
    (link : Option String) : Valid sha256 (row {n with supersedes := link}) := by
  obtain ⟨hrequired,hconfidence,rfl⟩ := normalize_ok h
  refine ⟨hrequired,hconfidence,rfl,rfl,⟨hs.1,stamp_ne_zero m _⟩,⟨hs.2.1,stamp_ne_zero m _⟩,hs.2.2,?_,?_,?_⟩
  · exact ⟨_,rfl,canonFields_canonFields _⟩
  · refine ⟨_,rfl,canonFields_canonFields _,fun name hname => ?_⟩
    rw [lookup_canonFields,Option.isSome_map]
    simp only [mem_cons,not_mem_nil,or_false] at hname
    rcases hname with rfl | rfl | rfl
    · exact setdefault_keeps _ _ (setdefault_keeps _ _ (setdefault_lookup _ _ _))
    · exact setdefault_keeps _ _ (setdefault_lookup _ _ _)
    · exact setdefault_lookup _ _ _
  · intro he
    have hne := (Option.filter_eq_some_iff.mp he).2
    simp at hne

/-! ### Adding and replacing -/

theorem mem_indexed : i ∈ indexed r ↔ r.status = .active ∧ r.indexRow = i := by
  rw [indexed]
  split
  · next h => exact mem_singleton.trans ⟨fun he => ⟨h,he.symm⟩,fun he => he.2.symm⟩
  · next h => exact ⟨fun hi => absurd hi not_mem_nil,fun he => absurd he.1 h⟩

theorem indexed_nodup (r : MemoryRecord) : ((indexed r).map IndexRow.recordId).Nodup := by
  rw [indexed]
  split
  · exact List.nodup_singleton _
  · exact nodup_nil

theorem Sound.index_id (h : Sound sha256 p) (hi : i ∈ p.index) : ∃ r ∈ p.rows, r.recordId = i.recordId := by
  obtain ⟨r,hr,-,rfl⟩ := (h.indexExact i).mp hi
  exact ⟨r,hr,rfl⟩

variable {new : MemoryRecord}

theorem index_append_nodup (h : (index.map IndexRow.recordId).Nodup)
    (hnew : ∀ i ∈ index, i.recordId ≠ new.recordId) : ((index ++ indexed new).map IndexRow.recordId).Nodup := by
  rw [List.map_append]
  refine List.nodup_append.mpr ⟨h,indexed_nodup new,?_⟩
  rintro _ ha _ hb rfl
  obtain ⟨i,hi,hid⟩ := mem_map.mp ha
  obtain ⟨j,hj,hjd⟩ := mem_map.mp hb
  obtain ⟨-,rfl⟩ := mem_indexed.mp hj
  exact hnew i hi (hid.trans hjd.symm)

theorem Sound.add (h : Sound sha256 p) (hvalid : Valid sha256 new)
    (hid : ∀ r ∈ p.rows, r.recordId ≠ new.recordId) (hfree : ∀ r ∈ p.rows, r.status = .active → r.place ≠ new.place) :
    Sound sha256 ⟨p.rows ++ [new],p.index ++ indexed new⟩ := by
  have hmem : ∀ r, r ∈ p.rows ++ [new] ↔ r ∈ p.rows ∨ r = new := fun r => by
    rw [mem_append,mem_singleton]
  constructor
  · rw [List.map_append]
    refine List.nodup_append.mpr ⟨h.ids,List.nodup_singleton _,?_⟩
    rintro a ha b hb rfl
    obtain ⟨r,hr,rfl⟩ := mem_map.mp ha
    exact hid r hr (mem_singleton.mp hb)
  · intro a ha b hb haa hbb hplace
    rcases (hmem a).mp ha with hold | rfl
    · rcases (hmem b).mp hb with hb | rfl
      · exact h.single a hold b hb haa hbb hplace
      · exact absurd hplace (hfree a hold haa)
    · rcases (hmem b).mp hb with hb | rfl
      · exact absurd hplace.symm (hfree b hb hbb)
      · rfl
  · refine index_append_nodup h.indexIds fun i hi => ?_
    obtain ⟨r,hr,hri⟩ := h.index_id hi
    rw [← hri]
    exact hid r hr
  · intro i
    rw [mem_append,h.indexExact,mem_indexed]
    constructor
    · rintro (⟨r,hr,hri⟩ | hnew)
      · exact ⟨r,(hmem r).mpr (.inl hr),hri⟩
      · exact ⟨new,(hmem new).mpr (.inr rfl),hnew⟩
    · rintro ⟨r,hr,hri⟩
      rcases (hmem r).mp hr with hr | rfl
      · exact .inl ⟨r,hr,hri⟩
      · exact .inr hri
  · intro r hr
    rcases (hmem r).mp hr with hr | rfl
    · exact h.valid r hr
    · exact hvalid

/-- `UPDATE memories SET … WHERE record_id=?`. -/
theorem Sound.overwrite (h : Sound sha256 p) (hvalid : Valid sha256 new)
    (hid : ∃ r ∈ p.rows, r.recordId = new.recordId)
    (hfree : ∀ r ∈ p.rows, r.status = .active → r.recordId ≠ new.recordId → r.place ≠ new.place) :
    Sound sha256 ⟨p.rows.map fun x => if x.recordId = new.recordId then new else x,
      unindex new.recordId p.index ++ indexed new⟩ := by
  have hmem : ∀ r, r ∈ p.rows.map (fun x => if x.recordId = new.recordId then new else x) ↔
      r = new ∨ r ∈ p.rows ∧ r.recordId ≠ new.recordId := by
    intro r
    rw [mem_map]
    constructor
    · rintro ⟨x,hx,rfl⟩
      split
      · exact .inl rfl
      · next hne => exact .inr ⟨hx,hne⟩
    · rintro (rfl | ⟨hr,hne⟩)
      · obtain ⟨x,hx,hxid⟩ := hid
        exact ⟨x,hx,if_pos hxid⟩
      · exact ⟨r,hr,if_neg hne⟩
  constructor
  · have hsame : (p.rows.map fun x => if x.recordId = new.recordId then new else x).map MemoryRecord.recordId =
        p.rows.map MemoryRecord.recordId := by
      rw [map_map]
      refine List.map_congr_left fun x _ => ?_
      rw [Function.comp_apply]
      split
      · next hx => exact hx.symm
      · rfl
    rw [hsame]
    exact h.ids
  · intro a ha b hb haa hbb hplace
    rcases (hmem a).mp ha with rfl | ⟨hold,hane⟩
    · rcases (hmem b).mp hb with rfl | ⟨hb,hbne⟩
      · rfl
      · exact absurd hplace.symm (hfree b hb hbb hbne)
    · rcases (hmem b).mp hb with rfl | ⟨hb,-⟩
      · exact absurd hplace (hfree a hold haa hane)
      · exact h.single a hold b hb haa hbb hplace
  · exact index_append_nodup (unindex_nodup h.indexIds) fun i hi => (mem_unindex.mp hi).2
  · intro i
    rw [mem_append,mem_unindex,h.indexExact,mem_indexed]
    constructor
    · rintro (⟨⟨r,hr,hri,rfl⟩,hne⟩ | hnew)
      · exact ⟨r,(hmem r).mpr (.inr ⟨hr,hne⟩),hri,rfl⟩
      · exact ⟨new,(hmem new).mpr (.inl rfl),hnew⟩
    · rintro ⟨r,hr,hri,rfl⟩
      rcases (hmem r).mp hr with rfl | ⟨hr,hne⟩
      · exact .inr ⟨hri,rfl⟩
      · exact .inl ⟨⟨r,hr,hri,rfl⟩,hne⟩
  · intro r hr
    rcases (hmem r).mp hr with rfl | ⟨hr,-⟩
    · exact hvalid
    · exact h.valid r hr

/-! ### Calls -/

variable {p' : MemoryPlane}

/-- What `_put` of a record that is accepted does: nothing, or the record is added and takes
the place of the active one. -/
theorem putWith_ok (h : putWith sha256 allow m p r = .ok p') :
    p' = p ∧ (∃ x ∈ p.rows, x.recordId = r.recordId) ∨
      ∃ n, normalize sha256 m allow r = .ok n ∧ Storable n ∧ (∀ x ∈ p.rows, x.recordId ≠ n.recordId) ∧
        p' = ⟨(p.retire (activeRow p.rows n.place) n.updatedAt).rows ++
            [row {n with supersedes := linked n.supersedes (activeRow p.rows n.place)}],
          (p.retire (activeRow p.rows n.place) n.updatedAt).index ++
            indexed (row {n with supersedes := linked n.supersedes (activeRow p.rows n.place)})⟩ := by
  rw [putWith] at h
  split at h
  · cases h
  · next n hn =>
    have hid : n.recordId = r.recordId := by
      obtain ⟨-,-,rfl⟩ := normalize_ok hn
      rfl
    rw [putNormalized] at h
    split at h
    · next existing hfind =>
      obtain ⟨hx,hxid⟩ := findRow_some hfind
      split at h
      · split at h
        · cases h
        · cases h
          exact .inl ⟨rfl,existing,hx,hxid.trans hid⟩
      · cases h
    · next hfind =>
      simp only at h
      split at h
      · cases h
      · next hs =>
        cases h
        exact .inr ⟨n,hn,not_not.mp (not_or.mp hs).1,findRow_none.mp hfind,rfl⟩

theorem normalize_updated (h : normalize sha256 m allow r = .ok n)
    (hs : Storable n) : n.updatedAt ≠ Real.null ∧ n.updatedAt ≠ Real.number 0 := by
  obtain ⟨-,-,rfl⟩ := normalize_ok h
  exact ⟨hs.2.1,stamp_ne_zero m _⟩

theorem putWith_sound (hp : Sound sha256 p)
    (h : putWith sha256 allow m p r = .ok p') : Sound sha256 p' := by
  rcases putWith_ok h with ⟨rfl,-⟩ | ⟨n,hn,hs,hnew,rfl⟩
  · exact hp
  · refine (hp.retire _ (normalize_updated hn hs)).add (valid_row hn hs _) ?_ ?_
    · intro x hx
      obtain ⟨y,hy,hyx⟩ := mem_map.mp
        ((retire_ids (p := p) (activeRow p.rows n.place) n.updatedAt) ▸ List.mem_map_of_mem hx)
      rw [← hyx]
      exact hnew y hy
    · intro x hx hactive hplace
      obtain ⟨hx',-,hne⟩ := retire_active.mp ⟨hx,hactive⟩
      exact hne x ((hp.activeRow_iff n.place x).mpr ⟨hx',hplace,hactive⟩) rfl

theorem repairVerified_sound (hp : Sound sha256 p)
    (h : repairVerified sha256 m p r = .ok p') : Sound sha256 p' := by
  rw [repairVerified] at h
  split at h
  · cases h
  · cases h
  · next n _ hn =>
    split at h
    · rw [putVerified] at h
      split at h
      · cases h
      · exact putWith_sound hp h
    · next old hfind =>
      simp only at h
      split at h
      · cases h
      · next hs =>
        cases h
        obtain ⟨hold,holdid⟩ := findRow_some hfind
        have hs : Storable n := not_not.mp (not_or.mp hs).1
        refine (hp.retire _ (normalize_updated hn hs)).overwrite (valid_row hn hs _) ?_ ?_
        · obtain ⟨y,hy,hyx⟩ := mem_map.mp ((retire_ids (p := p)
            (newest (p.rows.filter fun x => IsActive n.place x ∧ x.recordId ≠ n.recordId)) n.updatedAt).symm ▸
              List.mem_map_of_mem hold)
          exact ⟨y,hy,hyx.trans holdid⟩
        · intro x hx hactive hid hplace
          obtain ⟨hx',-,hne⟩ := retire_active.mp ⟨hx,hactive⟩
          refine hne x ((newest_filter ?_ x).mpr ⟨hx',⟨hplace,hactive⟩,hid⟩) rfl
          intro a ha b hb haa hbb
          exact hp.single a ha b hb haa.1.2 hbb.1.2 (haa.1.1.trans hbb.1.1.symm)

theorem importRecords_sound {records : List (MemoryRecord × Moment)} (hp : Sound sha256 p) :
    Sound sha256 (importRecords sha256 p records).1 := by
  induction records generalizing p with
  | nil => exact hp
  | cons e rest ih =>
    obtain ⟨r,m⟩ := e
    rw [importRecords]
    split
    · exact hp
    · next hput => exact ih (putWith_sound hp hput)

theorem after_of {P : MemoryPlane → Prop} {out : Except PlaneError MemoryPlane} (hp : P p) (h : ∀ p', out = .ok p' → P p') :
    P (after p out) := by
  cases out with
  | error e => exact hp
  | ok p' => exact h p' rfl

theorem perform_sound (hp : Sound sha256 p) (op : Op × Moment) : Sound sha256 (perform sha256 p op) := by
  obtain ⟨op,m⟩ := op
  cases op with
  | put r => exact after_of hp fun _ h => putWith_sound hp h
  | putVerified r =>
    refine after_of hp fun p' h => ?_
    rw [putVerified] at h
    split at h
    · cases h
    · exact putWith_sound hp h
  | supersede space key r scope =>
    refine after_of hp fun p' h => ?_
    rw [supersedeBy] at h
    split at h
    · cases h
    · exact putWith_sound hp h
  | tombstone space key scope =>
    refine after_of hp fun p' h => ?_
    rw [tombstone] at h
    split at h
    · cases h
      exact hp
    · exact putWith_sound hp h
  | repairVerified r => exact after_of hp fun _ h => repairVerified_sound hp h
  | importRecords records => exact importRecords_sound hp

theorem run_sound (hp : Sound sha256 p) (ops : List (Op × Moment)) : Sound sha256 (run sha256 ops p) := by
  induction ops generalizing p with
  | nil => exact hp
  | cons op ops ih => exact ih (perform_sound hp op)

end Verdict.Plane

import Verdict.Plane.Single

/-! # Moving a plane

A superseded row that is imported supersedes whatever is active under its key, and an export
comes in the order of the times the records carry. So a plane read back from its export
answers as the original exactly when every live record is the latest of its key.
-/
namespace Verdict.Plane
open Json
open MemoryRecord (recordId)
variable {sha256 : String → String} {p : MemoryPlane}

/-! ### Rows stay -/

def Kept (x y : MemoryRecord) : Prop := y = x ∨ ∃ t, y = {x with status := .superseded, updatedAt := t}

variable {x y : MemoryRecord}

theorem Kept.trans {z : MemoryRecord} (hxy : Kept x y) (hyz : Kept y z) : Kept x z := by
  rcases hxy with rfl | ⟨t,rfl⟩
  · exact hyz
  · rcases hyz with rfl | ⟨u,rfl⟩
    · exact .inr ⟨t,rfl⟩
    · exact .inr ⟨u,rfl⟩

theorem Kept.id (h : Kept x y) : y.recordId = x.recordId := by
  rcases h with rfl | ⟨t,rfl⟩ <;> rfl

/-- No row is lost, and only a repair of its record changes more than its status. -/
structure Grown (repaired : List String) (p p' : MemoryPlane) : Prop where
  ids : p.rows.map recordId <+: p'.rows.map recordId
  kept : ∀ x ∈ p.rows, x.recordId ∉ repaired → ∃ y ∈ p'.rows, Kept x y

theorem Grown.refl (repaired : List String) (p : MemoryPlane) : Grown repaired p p :=
  ⟨List.prefix_rfl,fun x hx _ => ⟨x,hx,.inl rfl⟩⟩

variable {q : MemoryPlane}

theorem Grown.trans {as bs : List String} {p r : MemoryPlane} (hpq : Grown as p q) (hqr : Grown bs q r) :
    Grown (as ++ bs) p r := by
  refine ⟨hpq.ids.trans hqr.ids,fun x hx hnot => ?_⟩
  obtain ⟨hnotas,hnotbs⟩ := not_or.mp (mt List.mem_append.mpr hnot)
  obtain ⟨y,hy,hxy⟩ := hpq.kept x hx hnotas
  obtain ⟨z,hz,hyz⟩ := hqr.kept y hy (by rw [hxy.id]; exact hnotbs)
  exact ⟨z,hz,hxy.trans hyz⟩

theorem retire_kept (previous : Option MemoryRecord) (t : Real) (hx : x ∈ p.rows) :
    ∃ y ∈ (p.retire previous t).rows, Kept x y := by
  cases previous with
  | none => exact ⟨x,hx,.inl rfl⟩
  | some old =>
    refine ⟨_,List.mem_map_of_mem hx,?_⟩
    rw [supersede]
    split
    · exact .inr ⟨t,rfl⟩
    · exact .inl rfl

variable {m : Moment} {p' : MemoryPlane} {r : MemoryRecord}

theorem putWith_grown {allow : Bool} (h : putWith sha256 allow m p r = .ok p') : Grown [] p p' := by
  rcases putWith_ok h with ⟨rfl,-⟩ | ⟨n,-,-,-,rfl⟩
  · exact .refl _ _
  · constructor
    · rw [List.map_append,retire_ids]
      exact List.prefix_append _ _
    · intro x hx _
      obtain ⟨y,hy,hxy⟩ := retire_kept (activeRow p.rows n.place) n.updatedAt hx
      exact ⟨y,List.mem_append.mpr (.inl hy),hxy⟩

theorem repairVerified_grown (h : repairVerified sha256 m p r = .ok p') : Grown [r.recordId] p p' := by
  rw [repairVerified] at h
  split at h
  · cases h
  · cases h
  · next n _ hn =>
    have hid : n.recordId = r.recordId := by
      obtain ⟨-,-,rfl⟩ := normalize_ok hn
      rfl
    split at h
    · rw [putVerified] at h
      split at h
      · cases h
      · obtain ⟨hids,hkept⟩ := putWith_grown h
        exact ⟨hids,fun x hx _ => hkept x hx List.not_mem_nil⟩
    · simp only at h
      split at h
      · cases h
      · cases h
        constructor
        · rw [List.map_map,← retire_ids (newest (p.rows.filter fun x => IsActive n.place x ∧ x.recordId ≠ n.recordId)) n.updatedAt]
          refine (List.map_congr_left fun x _ => ?_).symm ▸ List.prefix_rfl
          rw [Function.comp_apply]
          split
          · next hx => exact hx
          · rfl
        · intro x hx hnot
          obtain ⟨y,hy,hxy⟩ := retire_kept
            (newest (p.rows.filter fun x => IsActive n.place x ∧ x.recordId ≠ n.recordId)) n.updatedAt hx
          refine ⟨y,List.mem_map.mpr ⟨y,hy,if_neg ?_⟩,hxy⟩
          rw [hxy.id,hid]
          exact fun he => hnot (List.mem_singleton.mpr he)

theorem importRecords_grown {records : List (MemoryRecord × Moment)} : Grown [] p (importRecords sha256 p records).1 := by
  induction records generalizing p with
  | nil => exact .refl _ _
  | cons e rest ih =>
    obtain ⟨r,m⟩ := e
    rw [importRecords]
    split
    · exact .refl _ _
    · next hput => exact (putWith_grown hput).trans ih

def Op.repairs : Op → List String
  | .repairVerified r => [r.recordId]
  | _ => []

theorem perform_grown (p : MemoryPlane) (op : Op × Moment) : Grown op.1.repairs p (perform sha256 p op) := by
  obtain ⟨op,m⟩ := op
  cases op with
  | put r => exact after_of (.refl _ _) fun _ h => putWith_grown h
  | putVerified r =>
    refine after_of (.refl _ _) fun p' h => ?_
    rw [putVerified] at h
    split at h
    · cases h
    · exact putWith_grown h
  | supersede space key r scope =>
    refine after_of (.refl _ _) fun p' h => ?_
    rw [supersedeBy] at h
    split at h
    · cases h
    · exact putWith_grown h
  | tombstone space key scope =>
    refine after_of (.refl _ _) fun p' h => ?_
    rw [tombstone] at h
    split at h
    · cases h
      exact .refl _ _
    · exact putWith_grown h
  | repairVerified r => exact after_of (.refl _ _) fun _ h => repairVerified_grown h
  | importRecords records => exact importRecords_grown

theorem run_grown (p : MemoryPlane) (ops : List (Op × Moment)) :
    Grown (ops.flatMap fun op => op.1.repairs) p (run sha256 ops p) := by
  induction ops generalizing p with
  | nil => exact .refl _ _
  | cons op ops ih => exact (perform_grown p op).trans (ih _)

/-! ### Putting a stored row again -/

theorem setdefault_of_some {k : String} (v : Json) {fs : Fields} (h : (fs.lookup k).isSome) : setdefault k v fs = fs := if_pos h

def unverified (r : MemoryRecord) : MemoryRecord := {r with authorityVerified := false}

theorem normalize_valid (h : Valid sha256 r) (m : Moment) :
    normalize sha256 m false r = .ok (unverified r) := by
  obtain ⟨ms,hms,-⟩ := h.metadata
  obtain ⟨ps,hps,-,hnames⟩ := h.provenance
  have hsource := setdefault_of_some (.str r.source) (hnames "source" (by simp))
  have hobserved := setdefault_of_some (stamp m r.createdAt).json (hnames "observed_at" (by simp))
  have hschema := setdefault_of_some (.int 2) (hnames "schema_version" (by simp))
  have hcreated : stamp m r.createdAt = r.createdAt := if_neg h.created.2
  have hupdated : stamp m r.updatedAt = r.updatedAt := if_neg h.updated.2
  rw [normalize,if_neg h.required,if_neg (not_not.mpr h.confidence),if_neg fun hne => hne.2 h.hash,hps,
    Option.getD_some,hsource,hobserved,hschema,hcreated,hupdated,hms,Option.getD_some,← hms,← hps,← h.hash,
    ← h.version]
  rfl

theorem row_valid (h : Valid sha256 r) (verified : Bool) (link : Option String) : row
    {r with authorityVerified := verified, supersedes := link} =
    {r with authorityVerified := verified, supersedes := link} := by
  obtain ⟨ms,hms,hcms⟩ := h.metadata
  obtain ⟨ps,hps,hcps,-⟩ := h.provenance
  have hmeta : r.metadata.map canonFields = r.metadata := by rw [hms,Option.map_some,hcms]
  have hprov : r.provenance.map canonFields = r.provenance := by rw [hps,Option.map_some,hcps]
  have hexpires : r.expiresAt.filter (· ≠ Real.null) = r.expiresAt := by
    cases he : r.expiresAt with
    | none => rfl
    | some t =>
      refine Option.filter_eq_some_iff.mpr ⟨rfl,decide_eq_true fun hnull => h.expires ?_⟩
      rw [he,hnull]
  rw [row]
  simp only [hmeta,hprov,hexpires]

def carried (r : MemoryRecord) : MemoryRecord := {r with authorityVerified := false, supersedes := r.supersedes.filter (· ≠ "")}

theorem linked_none (own : Option String) : linked own none = own.filter (· ≠ "") := by
  rw [linked]
  cases own.filter (· ≠ "") <;> rfl

theorem activeRow_put {n : MemoryRecord} (hp : Sound sha256 p)
    (hput : put sha256 m p r = .ok q) (hn : normalize sha256 m false r = .ok n) (hnew : ∀ x ∈ p.rows, x.recordId ≠ r.recordId)
    (place : String × String × String) :
    activeRow q.rows place = if place = n.place then
      if n.status = .active then some (row {n with supersedes := linked n.supersedes (activeRow p.rows n.place)}) else none
      else activeRow p.rows place := by
  have hq : Sound sha256 q := putWith_sound hp hput
  rcases putWith_ok hput with ⟨-,x,hx,hid⟩ | ⟨n',hn',-,-,rfl⟩
  · exact absurd hid (hnew x hx)
  · cases Except.ok.inj (hn.symm.trans hn')
    refine Option.ext fun x => ?_
    rw [hq.activeRow_iff,List.mem_append,List.mem_singleton]
    by_cases hplace : place = n.place
    · subst hplace
      rw [if_pos rfl]
      have hgone : x ∈ (p.retire (activeRow p.rows n.place) n.updatedAt).rows → ¬IsActive n.place x := by
        intro hx hactive
        obtain ⟨hx',-,hne⟩ := retire_active.mp ⟨hx,hactive.2⟩
        exact hne x ((hp.activeRow_iff _ x).mpr ⟨hx',hactive⟩) rfl
      by_cases hstatus : n.status = .active
      · rw [if_pos hstatus]
        constructor
        · rintro ⟨hx | rfl,hactive⟩
          · exact absurd hactive (hgone hx)
          · rfl
        · intro he
          cases he
          exact ⟨.inr rfl,rfl,hstatus⟩
      · rw [if_neg hstatus]
        refine iff_of_false ?_ fun he => nomatch he
        rintro ⟨hx | rfl,hactive⟩
        · exact hgone hx hactive
        · exact hstatus hactive.2
    · rw [if_neg hplace,hp.activeRow_iff]
      constructor
      · rintro ⟨hx | rfl,hactive⟩
        · obtain ⟨hx',-,-⟩ := retire_active.mp ⟨hx,hactive.2⟩
          exact ⟨hx',hactive⟩
        · exact absurd hactive.1.symm hplace
      · rintro ⟨hx,hactive⟩
        refine ⟨.inl (retire_active.mpr ⟨hx,hactive.2,fun old hold he => ?_⟩).1,hactive⟩
        obtain ⟨hold',holdactive⟩ := (hp.activeRow_iff _ old).mp hold
        rw [hp.eq_of_id hx hold' he] at hactive
        exact hplace (hactive.1.symm.trans holdactive.1)

theorem put_valid (h : Valid sha256 r) (c : Clock) (hnew : ∀ x ∈ p.rows, x.recordId ≠ r.recordId) : ∃ q, put
    sha256 ⟨c,false⟩ p r = .ok q ∧ ∀ x ∈ q.rows, (∃ y ∈ p.rows, y.recordId = x.recordId) ∨ x.recordId =
    r.recordId := by
  have hs : ¬(¬Storable (unverified r) ∨ (⟨c,false⟩ : Moment).fails = true) := by
    rintro (hs | hs)
    · exact hs ⟨h.created.1,h.updated.1,h.known⟩
    · cases hs
  have hfind : findRow p.rows (unverified r).recordId = none := findRow_none.mpr hnew
  have hout : put sha256 ⟨c,false⟩ p r = putNormalized ⟨c,false⟩ p (unverified r) := by
    rw [put,putWith,normalize_valid h]
  rw [hout]
  simp only [putNormalized,hfind,if_neg hs]
  refine ⟨_,rfl,fun x hx => ?_⟩
  rcases List.mem_append.mp hx with hx | hx
  · have hid : x.recordId ∈ p.rows.map recordId := by
      rw [← retire_ids (activeRow p.rows (unverified r).place) (unverified r).updatedAt]
      exact List.mem_map_of_mem hx
    obtain ⟨y,hy,hyx⟩ := List.mem_map.mp hid
    exact .inl ⟨y,hy,hyx⟩
  · rw [List.mem_singleton.mp hx]
    exact .inr rfl

/-! ### Importing stored rows -/

def lastAt (rows : List MemoryRecord) (place : String × String × String) : Option MemoryRecord :=
  (rows.filter fun r => r.place = place).getLast?

theorem lastAt_cons (r : MemoryRecord) (rows : List MemoryRecord) (place : String × String × String) :
    lastAt (r :: rows) place = (lastAt rows place).or (if r.place = place then some r else none) := by
  rw [lastAt,lastAt]
  by_cases h : r.place = place
  · rw [List.filter_cons,if_pos (decide_eq_true h),List.getLast?_cons,if_pos h]
    cases (rows.filter fun x => decide (x.place = place)).getLast? <;> rfl
  · rw [List.filter_cons,if_neg (by simpa using h),if_neg h,Option.or_none]

def arrived (before : Option MemoryRecord) : Option MemoryRecord → Option MemoryRecord
  | none => before
  | some r => if r.status = .active then some (carried r) else none

theorem importRecords_active {rows : List MemoryRecord} {clock : MemoryRecord → Clock} (hp : Sound sha256 p)
    (hvalid : ∀ r ∈ rows, Valid sha256 r) (hids : (rows.map recordId).Nodup)
    (hnew : ∀ r ∈ rows, ∀ x ∈ p.rows, x.recordId ≠ r.recordId)
    (hsingle : ∀ a ∈ rows, ∀ b ∈ rows, a.status = .active → b.status = .active → a.place = b.place → a = b)
    (hfree : ∀ r ∈ rows, r.status = .active → activeRow p.rows r.place = none) (place : String × String × String) :
    activeRow (importRecords sha256 p (rows.map fun r => (r,⟨clock r,false⟩))).1.rows place =
      arrived (activeRow p.rows place) (lastAt rows place) := by
  induction rows generalizing p with
  | nil => rfl
  | cons r rows ih =>
    obtain ⟨hvr,hvalid⟩ := List.forall_mem_cons.mp hvalid
    obtain ⟨hnewr,hnew⟩ := List.forall_mem_cons.mp hnew
    obtain ⟨hfreer,hfree⟩ := List.forall_mem_cons.mp hfree
    rw [List.map_cons,List.nodup_cons] at hids
    obtain ⟨hidr,hids⟩ := hids
    obtain ⟨q,hput,hrows⟩ := put_valid hvr (clock r) hnewr
    have hstep := activeRow_put hp hput (normalize_valid hvr _) hnewr
    have hother : ∀ x ∈ rows, x.recordId ≠ r.recordId := fun x hx he => hidr (he ▸ List.mem_map_of_mem hx)
    rw [List.map_cons,importRecords,hput]
    refine (ih (putWith_sound hp hput) hvalid hids ?_ ?_ ?_).trans ?_
    · intro x hx y hy
      rcases hrows y hy with ⟨z,hz,hzy⟩ | hyr
      · rw [← hzy]
        exact hnew x hx z hz
      · rw [hyr]
        exact fun he => hother x hx he.symm
    · intro a ha b hb
      exact hsingle a (List.mem_cons_of_mem _ ha) b (List.mem_cons_of_mem _ hb)
    · intro x hx hactive
      rw [hstep]
      split
      · next hplace =>
        refine if_neg fun hr => hother x hx ?_
        exact congrArg recordId (hsingle x (List.mem_cons_of_mem _ hx) r List.mem_cons_self hactive hr hplace)
      · exact hfree x hx hactive
    · rw [lastAt_cons,hstep]
      cases hlast : lastAt rows place with
      | some x => rfl
      | none =>
        rw [Option.none_or]
        by_cases hplace : r.place = place
        · rw [if_pos hplace,if_pos (show place = (unverified r).place from hplace.symm)]
          show (if r.status = .active then _ else none) = if r.status = .active then some (carried r) else none
          split
          · next hr =>
            have hnone : activeRow p.rows (unverified r).place = none := hfreer hr
            rw [hnone,linked_none]
            exact congrArg some (row_valid hvr false _)
          · rfl
        · rw [if_neg hplace,if_neg (show ¬place = (unverified r).place from fun he => hplace he.symm)]

end Verdict.Plane

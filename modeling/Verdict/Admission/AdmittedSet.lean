import Verdict.Admission.Requirements

/-! # The admitted set and its narrowings

`admit` mints the only admitted set; every later stage derives a narrower one from it. A
derivation rewrites the records one by one and is refused if it would admit a route. One
record per route is a field of the set, since nothing outside `admit` can build one.
-/
namespace Verdict.Admission
open HealthCache (Time)
open List (map_map mem_filter mem_map)

inductive AdmissionUnavailable
  | liveInventory (source : String)
  | connectionEvidence (source : String)
  | runtimeEvidence

/-- `AdmissionBypassError`: the surface and the routes outside the set. -/
structure AdmissionBypass where
  surface : String
  routeIds : List String

def admittedIds (records : List AdmissionRecord) : List String :=
  (records.filter AdmissionRecord.admitted).map AdmissionRecord.routeId

structure AdmittedSet where
  records : List AdmissionRecord
  generatedAt : String
  sources : List String
  controllerIdentity : String := "unknown"
  narrowing : List String := []
  runtimeConsulted : List String := []
  unique : (records.map AdmissionRecord.routeId).Nodup

/-- `tuple(dict.fromkeys(xs))`. -/
def fromkeys (xs : List String) : List String := (Dict.ofList (xs.map fun x => (x,()))).keys

namespace RuntimeEvidence

def consulted (e : RuntimeEvidence) : List String :=
  e.sources.filter fun s => !(":absent".toList.isSuffixOf s.toList)

def merged (e other : RuntimeEvidence) : RuntimeEvidence :=
  ⟨e.observations ++ other.observations,fromkeys (e.sources ++ other.sources)⟩

end RuntimeEvidence

structure CatalogRow where
  id : Option String
  row : InventoryRow

/-- The keyword arguments of `admit`. The snapshots enter as the evidence that
`subscription_observations` makes of them; `none` when there are none. `ownedFirst` is the
order in which `_judge` walks the two provider names of a route. -/
structure AdmitOptions where
  now : Time
  requireRuntime : Bool := true
  inventorySource : String := "omniroute:/v1/models"
  connectionsSource : String := "omniroute:/api/providers"
  requiredCapabilities : Finset String := ∅
  minContextTokens : ℤ := 0
  deny : Option (String → Option String) := none
  subscription : Option RuntimeEvidence := none
  ownedFirst : String → Bool := fun _ => true

section
variable (ops : TextOps)

def rowsById (rows : List CatalogRow) : Dict String InventoryRow :=
  rows.foldl (fun d r => match r.id with
    | none => d
    | some id =>
      if strip id = "" ∨ d.contains (canonicalRouteId ops id) then d else d.set (canonicalRouteId ops id) r.row) .empty

variable (rows : Dict String InventoryRow)
variable (connections : List Connection)
variable (evidence : RuntimeEvidence)

def candidateOf (opts : AdmitOptions) (routeId : String) : Candidate where
  routeId := routeId
  row := (rows.get? routeId).getD {}
  connections := connections
  runtime := evidence
  now := opts.now
  connectionsSource := opts.connectionsSource
  requiredCapabilities := opts.requiredCapabilities
  minContextTokens := opts.minContextTokens
  deny := opts.deny
  ownedFirst := opts.ownedFirst routeId

def judgedRecords (opts : AdmitOptions) : List AdmissionRecord :=
  (rows.keys.insertionSort fun a b => a ≤ b).map (fun rid =>
    (candidateOf rows connections evidence opts rid).judge ops)

theorem judgedRecords_routeId (opts : AdmitOptions) :
    (judgedRecords ops rows connections evidence opts).map AdmissionRecord.routeId
      = rows.keys.insertionSort fun a b => a ≤ b := by
  unfold judgedRecords
  rw [map_map]
  have hid : ∀ rid ∈ rows.keys.insertionSort (fun a b => a ≤ b), (AdmissionRecord.routeId ∘ fun rid =>
      (candidateOf rows connections evidence opts rid).judge ops) rid = id rid :=
    fun rid _ => Candidate.judge_routeId ops (candidateOf rows connections evidence opts rid)
  rw [List.map_congr_left hid,List.map_id]

def admitRoutes (inventoryRows : Option (List CatalogRow)) (connections : Option (List Connection))
    (runtime : Option RuntimeEvidence) (opts : AdmitOptions) : Except AdmissionUnavailable AdmittedSet :=
  match inventoryRows,connections with
  | none,_ => .error (.liveInventory opts.inventorySource)
  | some _,none => .error (.connectionEvidence opts.connectionsSource)
  | some catalog,some conns =>
    if runtime.isNone ∧ opts.requireRuntime ∧ opts.subscription.isNone
      ∧ ¬ catalog.any (fun r => "/subscription/".toList <:+: (r.id.getD "").toList) then .error .runtimeEvidence
    else
      let base := runtime.getD {}
      let evidence := opts.subscription.elim base base.merged
      let rows := rowsById ops catalog
      .ok {
        records := judgedRecords ops rows conns evidence opts
        generatedAt := ops.iso opts.now
        sources := fromkeys ([opts.inventorySource,opts.connectionsSource] ++ evidence.sources)
        runtimeConsulted := evidence.consulted
        unique := by
          rw [judgedRecords_routeId]
          exact (List.perm_insertionSort _ rows.keys).nodup_iff.mpr rows.nodup }

/-- With both inventories and runtime evidence at hand `admit` mints a set; its routes are
the catalog's, as far as the judgement of their rows admits them. -/
theorem admit_ok (catalog : List CatalogRow) (connections : List Connection) (runtime : RuntimeEvidence)
    (opts : AdmitOptions) : ∃ s, admitRoutes ops (some catalog) (some connections) (some runtime) opts = .ok s ∧
      s.records = judgedRecords ops (rowsById ops catalog) connections (opts.subscription.elim runtime runtime.merged)
        opts := by
  simp only [admitRoutes,Option.isNone_some,Bool.false_eq_true,false_and,if_false]
  exact ⟨_,rfl,rfl⟩

theorem mem_admittedIds_judgedRecords (opts : AdmitOptions) (routeId : String) :
    routeId ∈ admittedIds (judgedRecords ops rows connections evidence opts) ↔
      routeId ∈ rows.keys ∧ ((candidateOf rows connections evidence opts routeId).judge ops).admitted = true := by
  constructor
  · intro h
    obtain ⟨r,hr,hid⟩ := mem_map.mp h
    obtain ⟨hmem,hadmitted⟩ := mem_filter.mp hr
    obtain ⟨rid,hrid,rfl⟩ := mem_map.mp hmem
    rw [Candidate.judge_routeId] at hid
    subst hid
    exact ⟨(List.mem_insertionSort _).mp hrid,hadmitted⟩
  · rintro ⟨hkey,hadmitted⟩
    refine mem_map.mpr ⟨_,mem_filter.mpr ⟨List.mem_map_of_mem ((List.mem_insertionSort _).mpr hkey),hadmitted⟩,?_⟩
    exact Candidate.judge_routeId ops _

theorem admit_unconfirmed {inventoryRows : Option (List CatalogRow)} {connections : Option (List Connection)}
    {runtime : Option RuntimeEvidence} {opts : AdmitOptions} {s : AdmittedSet}
    (h : admitRoutes ops inventoryRows connections runtime opts = .ok s) : ∀ r ∈ s.records, r.confirmationSource = none := by
  unfold admitRoutes at h
  split at h
  · cases h
  · cases h
  · split at h
    · cases h
    · cases h
      intro r hr
      obtain ⟨rid,-,rfl⟩ := mem_map.mp hr
      exact Candidate.judge_unconfirmed ops _

end
def AdmissionStage.value : AdmissionStage → String
  | .discovered => "DISCOVERED" | .entitled => "ENTITLED" | .healthy => "HEALTHY" | .available => "AVAILABLE"
  | .capability => "CAPABILITY" | .policy => "POLICY" | .workerScope => "WORKER_SCOPE"
  | .controllerScope => "CONTROLLER_SCOPE" | .controllerExcluded => "CONTROLLER_EXCLUDED"
  | .downstream => "DOWNSTREAM"

/-- What a derivation may do to one record: drop it, or annotate it while it is admitted. -/
structure Narrows (r r' : AdmissionRecord) : Prop where
  routeId : r'.routeId = r.routeId
  dropped : r.admitted = false → r' = r

theorem Narrows.refl (r : AdmissionRecord) : Narrows r r := ⟨rfl,fun _ => rfl⟩

theorem Narrows.trans {a b c : AdmissionRecord} (h : Narrows a b) (h' : Narrows b c) : Narrows a c := by
  refine ⟨h'.routeId.trans h.routeId,fun hdropped => ?_⟩
  have hb := h.dropped hdropped
  exact (h'.dropped (hb ▸ hdropped)).trans hb

theorem Narrows.admitted {r r' : AdmissionRecord} (h : Narrows r r') (ha : r'.admitted = true) : r.admitted = true := by
  cases hr : r.admitted with
  | true => rfl
  | false =>
    rw [h.dropped hr,hr] at ha
    cases ha

theorem admittedIds_map_subset {f : AdmissionRecord → AdmissionRecord} (hf : ∀ r, Narrows r (f r))
    (records : List AdmissionRecord) : admittedIds (records.map f) ⊆ admittedIds records := by
  intro id hid
  obtain ⟨r',hr',rfl⟩ := mem_map.mp hid
  obtain ⟨hmem,hadmitted⟩ := mem_filter.mp hr'
  obtain ⟨r,hr,rfl⟩ := mem_map.mp hmem
  refine mem_map.mpr ⟨r,mem_filter.mpr ⟨hr,(hf r).admitted hadmitted⟩,?_⟩
  exact (hf r).routeId.symm

namespace AdmittedSet

def ids (s : AdmittedSet) : List String := admittedIds s.records

def derive (s : AdmittedSet) (f : AdmissionRecord → AdmissionRecord) (hf : ∀ r, (f r).routeId = r.routeId)
    (step controllerIdentity : Option String) : Except AdmissionBypass AdmittedSet :=
  let records := s.records.map f
  if admittedIds records ⊆ s.ids then .ok {
      records := records
      generatedAt := s.generatedAt
      sources := s.sources
      controllerIdentity := (controllerIdentity.filter (· ≠ "")).getD s.controllerIdentity
      narrowing := s.narrowing ++ (step.filter (· ≠ "")).toList
      runtimeConsulted := s.runtimeConsulted
      unique := by
        have hsame : s.records.map (AdmissionRecord.routeId ∘ f) = s.records.map AdmissionRecord.routeId :=
          List.map_congr_left fun r _ => hf r
        rw [map_map,hsame]
        exact s.unique }
  else .error ⟨"AdmittedSet._derive",
    ((admittedIds records).filter fun id => decide (id ∉ s.ids)).dedup.insertionSort fun a b => a ≤ b⟩

theorem derive_ok (s : AdmittedSet) {f : AdmissionRecord → AdmissionRecord} (hf : ∀ r, Narrows r (f r))
    (step controllerIdentity : Option String) :
    ∃ t, s.derive f (fun r => (hf r).routeId) step controllerIdentity = .ok t ∧ t.records = s.records.map f := by
  have hsubset : admittedIds (s.records.map f) ⊆ s.ids := admittedIds_map_subset hf s.records
  exact ⟨_,if_pos hsubset,rfl⟩

variable (stage : AdmissionStage)

/-- `narrow` on one record. -/
def narrowRecord (reason : String) (keep : String → Bool) (source : String)
    (r : AdmissionRecord) : AdmissionRecord :=
  if r.admitted && !keep r.routeId then
    {r with admitted := false, firstFailedStage := some stage, reason := reason, source := firstText [source,r.source]}
  else r

theorem narrowRecord_narrows (reason : String) (keep : String → Bool) (source : String)
    (r : AdmissionRecord) : Narrows r (narrowRecord stage reason keep source r) := by
  unfold narrowRecord
  split
  · rename_i h
    simp only [Bool.and_eq_true] at h
    exact ⟨rfl,fun hdropped => absurd h.1 (by simp [hdropped])⟩
  · exact .refl r

/-- Drop the admitted routes that `keep` does not keep. -/
def narrow (s : AdmittedSet) (stage : AdmissionStage) (reason : String) (keep : String → Bool) (source : String) :
    Except AdmissionBypass AdmittedSet :=
  s.derive (narrowRecord stage reason keep source) (fun r => (narrowRecord_narrows stage reason keep source r).routeId)
    (some (stage.value ++ ":" ++ reason)) none

section
variable (ops : TextOps)

def exclude (s : AdmittedSet) (routeIds : List String) (stage : AdmissionStage) (reason source : String) :
    Except AdmissionBypass AdmittedSet :=
  let drop := (routeIds.filter (· ≠ "")).map (canonicalRouteId ops)
  s.narrow stage reason (fun rid => !drop.contains rid) source

def restrictScope (s : AdmittedSet) (stage : AdmissionStage) (reason source : String) (prefixes : List String) :
    Except AdmissionBypass AdmittedSet :=
  let cleaned := (prefixes.map strip).filter (· ≠ "")
  if cleaned = [] then .ok s
  else
    let canon := ((cleaned.map (canonicalRouteId ops)).filter (· ≠ "")).map (fun c =>
      if '/' ∈ c.toList then c else c ++ "/")
    s.narrow stage reason (fun rid => canon.any (startsWith rid)) source

def restrictPrefixes (s : AdmittedSet) (prefixes : List String) : Except AdmissionBypass AdmittedSet :=
  s.restrictScope ops .workerScope "outside_worker_route_prefix" "worker_scope" prefixes

def restrictControllerScope (s : AdmittedSet) (prefixes : List String) : Except AdmissionBypass AdmittedSet :=
  s.restrictScope ops .controllerScope "outside_controller_route_prefix" "controller_scope" prefixes

def restrictFamilies (s : AdmittedSet) (families : List String) : Except AdmissionBypass AdmittedSet :=
  let wanted := ((families.map strip).filter (· ≠ "")).map ops.lower
  if wanted = [] then .ok s
  else s.narrow .workerScope "outside_provider_family" (fun rid => wanted.contains (routeProviderPrefix ops rid))
    "worker_scope"

def excludeController (s : AdmittedSet) (identity : Option String) : Except AdmissionBypass AdmittedSet :=
  match identity.filter (fun i => strip i ≠ "") with
  | none => s.derive id (fun _ => rfl) (some "CONTROLLER_EXCLUDED:identity_unknown") (some "unknown")
  | some i => do
    let canon := canonicalRouteId ops i
    let narrowed ← s.exclude ops [canon] .controllerExcluded "active_controller_identity" "controller_identity"
    narrowed.derive id (fun _ => rfl) none (some canon)

/-- `record_confirmation` on one record: only an admitted record of the exact route changes. -/
def confirmRecord (key : String) (healthy : Bool) (source observedAt category : String) (r : AdmissionRecord) :
    AdmissionRecord :=
  if r.routeId ≠ key ∨ r.admitted = false then r
  else if healthy then {r with confirmationSource := some source, confirmedAt := some observedAt}
  else { r with
    admitted := false
    firstFailedStage := some .healthy
    reason := firstText [category,"confirmation_failed"]
    source := source
    observedAt := some observedAt
    health := stateForCategory ops (firstText [category,"unhealthy"]) }

theorem confirmRecord_narrows (key : String) (healthy : Bool) (source observedAt category : String)
    (r : AdmissionRecord) : Narrows r (confirmRecord ops key healthy source observedAt category r) := by
  unfold confirmRecord
  split
  · exact .refl r
  · rename_i h
    have hadmitted : r.admitted ≠ false := fun hr => h (.inr hr)
    split
    · exact ⟨rfl,fun hdropped => absurd hdropped hadmitted⟩
    · exact ⟨rfl,fun hdropped => absurd hdropped hadmitted⟩

def recordConfirmation (s : AdmittedSet) (routeId : String) (healthy : Bool) (source observedAt category : String) :
    Except AdmissionBypass AdmittedSet :=
  let key := canonicalRouteId ops routeId
  let outcome := if healthy then "confirmed" else "failed:" ++ firstText [category,"unhealthy"]
  s.derive (confirmRecord ops key healthy source observedAt category)
    (fun r => (confirmRecord_narrows ops key healthy source observedAt category r).routeId)
    (some ("CONFIRMATION:" ++ key ++ ":" ++ outcome ++ "@" ++ source)) none

/-- `route_id in admitted`. -/
def contains (s : AdmittedSet) (routeId : String) : Bool := s.ids.contains (canonicalRouteId ops routeId)

def recordFor (s : AdmittedSet) (routeId : String) : Option AdmissionRecord :=
  s.records.find? (·.routeId = canonicalRouteId ops routeId)

def launchable (s : AdmittedSet) (routeId : String) : Bool :=
  match s.recordFor ops routeId with
  | none => false
  | some record =>
    if record.admitted = false then false
    else if record.reason = "subscription_unknown" ∧ record.confirmationSource = none then false
    else decide (record.health = .healthy) || record.confirmationSource.isSome

end
end AdmittedSet

inductive Derivation
  | narrow (stage : AdmissionStage) (reason : String) (keep : String → Bool) (source : String)
  | exclude (routeIds : List String) (stage : AdmissionStage) (reason source : String)
  | restrictPrefixes (prefixes : List String)
  | restrictControllerScope (prefixes : List String)
  | restrictFamilies (families : List String)
  | excludeController (identity : Option String)
  | recordConfirmation (routeId : String) (healthy : Bool) (source observedAt category : String)

namespace Derivation
variable (ops : TextOps)

def apply (s : AdmittedSet) : Derivation → Except AdmissionBypass AdmittedSet
  | .narrow stage reason keep source => s.narrow stage reason keep source
  | .exclude routeIds stage reason source => s.exclude ops routeIds stage reason source
  | .restrictPrefixes prefixes => s.restrictPrefixes ops prefixes
  | .restrictControllerScope prefixes => s.restrictControllerScope ops prefixes
  | .restrictFamilies families => s.restrictFamilies ops families
  | .excludeController identity => s.excludeController ops identity
  | .recordConfirmation routeId healthy source observedAt category =>
    s.recordConfirmation ops routeId healthy source observedAt category

def Confirms (key : String) (d : Derivation) : Prop :=
  ∃ routeId source observedAt category, d = .recordConfirmation routeId true source observedAt category ∧
    canonicalRouteId ops routeId = key

def run (s : AdmittedSet) (ds : List Derivation) : Except AdmissionBypass AdmittedSet :=
  ds.foldlM (fun s d => d.apply ops s) s

end Derivation

/-- The records of `t` are those of `s`, narrowed one by one and confirmed by `ds` alone. -/
def Narrowed (ops : TextOps) (s : AdmittedSet) (ds : List Derivation) (t : AdmittedSet) : Prop :=
  ∃ f : AdmissionRecord → AdmissionRecord, t.records = s.records.map f ∧ ∀ r, Narrows r (f r) ∧
    ((f r).confirmationSource = r.confirmationSource ∨ ∃ d ∈ ds, d.Confirms ops r.routeId)

section Narrowed
variable {ops : TextOps} {s t u : AdmittedSet} {ds es : List Derivation}

theorem Narrowed.refl (ops : TextOps) (s : AdmittedSet) (ds : List Derivation) : Narrowed ops s ds s :=
  ⟨id,by simp,fun r => ⟨.refl r,.inl rfl⟩⟩

theorem Narrowed.trans (h : Narrowed ops s ds t) (h' : Narrowed ops t es u) : Narrowed ops s (ds ++ es) u := by
  obtain ⟨f,hf,hstep⟩ := h
  obtain ⟨g,hg,hstep'⟩ := h'
  refine ⟨g ∘ f,by rw [hg,hf,map_map],fun r => ⟨(hstep r).1.trans (hstep' (f r)).1,?_⟩⟩
  rcases (hstep' (f r)).2 with hsame | ⟨d,hd,hconfirms⟩
  · rcases (hstep r).2 with hsame' | ⟨d,hd,hconfirms⟩
    · exact .inl (hsame.trans hsame')
    · exact .inr ⟨d,List.mem_append_left _ hd,hconfirms⟩
  · rw [(hstep r).1.routeId] at hconfirms
    exact .inr ⟨d,List.mem_append_right _ hd,hconfirms⟩

theorem narrow_narrowed (s : AdmittedSet) (stage : AdmissionStage) (reason : String) (keep : String → Bool)
    (source : String) (ds : List Derivation) :
    ∃ t, s.narrow stage reason keep source = .ok t ∧ Narrowed ops s ds t := by
  obtain ⟨t,ht,hrecords⟩ := s.derive_ok (AdmittedSet.narrowRecord_narrows stage reason keep source)
    (some (stage.value ++ ":" ++ reason)) none
  refine ⟨t,ht,_,hrecords,fun r => ⟨AdmittedSet.narrowRecord_narrows stage reason keep source r,.inl ?_⟩⟩
  unfold AdmittedSet.narrowRecord
  split <;> rfl

theorem relabel_narrowed (ops : TextOps) (s : AdmittedSet) (step identity : Option String) (ds : List Derivation) :
    ∃ t, s.derive id (fun _ => rfl) step identity = .ok t ∧ Narrowed ops s ds t := by
  obtain ⟨t,ht,hrecords⟩ := s.derive_ok (f := id) Narrows.refl step identity
  exact ⟨t,ht,id,hrecords,fun r => ⟨.refl r,.inl rfl⟩⟩

theorem restrictScope_narrowed (s : AdmittedSet) (stage : AdmissionStage) (reason source : String)
    (prefixes : List String) (ds : List Derivation) :
    ∃ t, s.restrictScope ops stage reason source prefixes = .ok t ∧ Narrowed ops s ds t := by
  simp only [AdmittedSet.restrictScope]
  split
  · exact ⟨s,rfl,.refl ops s ds⟩
  · exact narrow_narrowed s _ _ _ _ ds

theorem excludeController_narrowed (s : AdmittedSet) (identity : Option String) (ds : List Derivation) :
    ∃ t, s.excludeController ops identity = .ok t ∧ Narrowed ops s ds t := by
  unfold AdmittedSet.excludeController
  split
  · exact relabel_narrowed ops s _ _ ds
  · rename_i i _
    obtain ⟨m,hm,hnarrowed⟩ : ∃ m, s.exclude ops [canonicalRouteId ops i] .controllerExcluded
        "active_controller_identity" "controller_identity" = .ok m ∧ Narrowed ops s ds m :=
      narrow_narrowed s _ _ _ _ ds
    obtain ⟨t,ht,hlabel⟩ := relabel_narrowed ops m none (some (canonicalRouteId ops i)) []
    refine ⟨t,?_,by simpa using hnarrowed.trans hlabel⟩
    simp only [hm]
    exact ht

theorem recordConfirmation_narrowed (s : AdmittedSet) (routeId : String) (healthy : Bool)
    (source observedAt category : String) :
    ∃ t, s.recordConfirmation ops routeId healthy source observedAt category = .ok t ∧
      Narrowed ops s [.recordConfirmation routeId healthy source observedAt category] t := by
  obtain ⟨t,ht,hrecords⟩ := s.derive_ok
    (AdmittedSet.confirmRecord_narrows ops (canonicalRouteId ops routeId) healthy source observedAt category) _ none
  refine ⟨t,ht,_,hrecords,fun r => ⟨AdmittedSet.confirmRecord_narrows ops _ healthy source observedAt category r,?_⟩⟩
  unfold AdmittedSet.confirmRecord
  split
  · exact .inl rfl
  · rename_i h
    split
    · rename_i hhealthy
      have hkey : canonicalRouteId ops routeId = r.routeId := (not_not.mp fun hne => h (.inl hne)).symm
      subst hhealthy
      exact .inr ⟨_,List.mem_singleton_self _,routeId,source,observedAt,category,rfl,hkey⟩
    · exact .inl rfl

theorem apply_narrowed (ops : TextOps) (s : AdmittedSet) (d : Derivation) :
    ∃ t, d.apply ops s = .ok t ∧ Narrowed ops s [d] t := by
  cases d with
  | narrow stage reason keep source => exact narrow_narrowed s stage reason keep source _
  | exclude routeIds stage reason source => exact narrow_narrowed s stage reason _ source _
  | restrictPrefixes prefixes => exact restrictScope_narrowed s _ _ _ prefixes _
  | restrictControllerScope prefixes => exact restrictScope_narrowed s _ _ _ prefixes _
  | restrictFamilies families =>
    simp only [Derivation.apply,AdmittedSet.restrictFamilies]
    split
    · exact ⟨s,rfl,.refl ops s _⟩
    · exact narrow_narrowed s _ _ _ _ _
  | excludeController identity => exact excludeController_narrowed s identity _
  | recordConfirmation routeId healthy source observedAt category =>
    exact recordConfirmation_narrowed s routeId healthy source observedAt category

theorem run_narrowed (ops : TextOps) (s : AdmittedSet) (ds : List Derivation) :
    ∃ t, Derivation.run ops s ds = .ok t ∧ Narrowed ops s ds t := by
  induction ds generalizing s with
  | nil => exact ⟨s,rfl,.refl ops s _⟩
  | cons d ds ih =>
    obtain ⟨m,hm,hfirst⟩ := apply_narrowed ops s d
    obtain ⟨t,ht,hrest⟩ := ih m
    refine ⟨t,?_,hfirst.trans hrest⟩
    simp only [Derivation.run,List.foldlM_cons,hm]
    exact ht

theorem Narrowed.ids_subset (h : Narrowed ops s ds t) : t.ids ⊆ s.ids := by
  obtain ⟨f,hf,hstep⟩ := h
  unfold AdmittedSet.ids
  rw [hf]
  exact admittedIds_map_subset (fun r => (hstep r).1) s.records

theorem Narrowed.dropped_mem (h : Narrowed ops s ds t) {r : AdmissionRecord} (hr : r ∈ s.records)
    (hdropped : r.admitted = false) : r ∈ t.records := by
  obtain ⟨f,hf,hstep⟩ := h
  rw [hf]
  exact mem_map.mpr ⟨r,hr,(hstep r).1.dropped hdropped⟩

theorem Narrowed.routeIds (h : Narrowed ops s ds t) :
    t.records.map AdmissionRecord.routeId = s.records.map AdmissionRecord.routeId := by
  obtain ⟨f,hf,hstep⟩ := h
  rw [hf,map_map]
  exact List.map_congr_left fun r _ => (hstep r).1.routeId

theorem Narrowed.confirmed (h : Narrowed ops s ds t) (hnone : ∀ r ∈ s.records, r.confirmationSource = none)
    {r : AdmissionRecord} (hr : r ∈ t.records) (hconfirmed : r.confirmationSource.isSome = true) :
    ∃ d ∈ ds, d.Confirms ops r.routeId := by
  obtain ⟨f,hf,hstep⟩ := h
  rw [hf] at hr
  obtain ⟨r₀,hr₀,rfl⟩ := mem_map.mp hr
  rcases (hstep r₀).2 with hsame | hd
  · rw [hsame,hnone r₀ hr₀] at hconfirmed
    cases hconfirmed
  · rw [(hstep r₀).1.routeId]
    exact hd

end Narrowed

theorem AdmittedSet.existsUnique_record (s : AdmittedSet) {id : String}
    (hid : id ∈ s.records.map AdmissionRecord.routeId) : ∃! r, r ∈ s.records ∧ r.routeId = id := by
  obtain ⟨r,hr,rfl⟩ := mem_map.mp hid
  refine ⟨r,⟨hr,rfl⟩,?_⟩
  rintro r' ⟨hr',hsame⟩
  exact List.inj_on_of_nodup_map s.unique hr' hr hsame

theorem AdmittedSet.launchable_iff (ops : TextOps) (s : AdmittedSet) (routeId : String) :
    s.launchable ops routeId = true ↔ ∃ r, s.recordFor ops routeId = some r ∧ r.admitted = true ∧
      (r.reason = "subscription_unknown" → r.confirmationSource.isSome = true) ∧
      (r.health = .healthy ∨ r.confirmationSource.isSome = true) := by
  unfold launchable
  cases s.recordFor ops routeId with
  | none => simp
  | some r =>
    cases hadmitted : r.admitted with
    | false => simp [hadmitted]
    | true => cases hconfirmed : r.confirmationSource <;> simp [hadmitted,hconfirmed]

theorem AdmittedSet.recordFor_mem {ops : TextOps} {s : AdmittedSet} {routeId : String} {r : AdmissionRecord}
    (h : s.recordFor ops routeId = some r) : r ∈ s.records ∧ r.routeId = canonicalRouteId ops routeId := by
  have hid := List.find?_some h
  exact ⟨List.mem_of_find?_eq_some h,by simpa using hid⟩

/-- An admitted set only narrows: after any derivations of a minted set the next one
succeeds, admits no further route and keeps every dropped record whole; every minted route
has exactly one record; and a launch needs health or a confirmation of exactly its route. -/
theorem admitted_only_narrows (ops : TextOps) {inventoryRows : Option (List CatalogRow)}
    {connections : Option (List Connection)} {runtime : Option RuntimeEvidence} {opts : AdmitOptions}
    {s : AdmittedSet} (hs : admitRoutes ops inventoryRows connections runtime opts = .ok s) (ds : List Derivation) :
    ∃ t, Derivation.run ops s ds = .ok t ∧ ∀ d : Derivation, ∃ u, d.apply ops t = .ok u ∧ u.ids ⊆ t.ids ∧
      (∀ r ∈ t.records, r.admitted = false → r ∈ u.records) ∧
      (∀ id, id ∈ u.records.map AdmissionRecord.routeId ↔ id ∈ s.records.map AdmissionRecord.routeId) ∧
      (∀ id ∈ s.records.map AdmissionRecord.routeId, ∃! r, r ∈ u.records ∧ r.routeId = id) ∧
      ∀ routeId, u.launchable ops routeId = true →
        ∃ r, u.recordFor ops routeId = some r ∧ r.admitted = true ∧
          (r.health = .healthy ∨ ∃ d' ∈ ds ++ [d], d'.Confirms ops (canonicalRouteId ops routeId)) := by
  obtain ⟨t,ht,hrun⟩ := run_narrowed ops s ds
  refine ⟨t,ht,fun d => ?_⟩
  obtain ⟨u,hu,hstep⟩ := apply_narrowed ops t d
  have hall := hrun.trans hstep
  have hids := hall.routeIds
  refine ⟨u,hu,hstep.ids_subset,fun r hr hdropped => hstep.dropped_mem hr hdropped,?_,?_,?_⟩
  · intro id
    rw [hids]
  · intro id hid
    rw [← hids] at hid
    exact u.existsUnique_record hid
  · intro routeId hlaunch
    obtain ⟨r,hfor,hadmitted,-,hbasis⟩ := (u.launchable_iff ops routeId).mp hlaunch
    obtain ⟨hmem,hid⟩ := AdmittedSet.recordFor_mem hfor
    refine ⟨r,hfor,hadmitted,hbasis.imp_right fun hconfirmed => ?_⟩
    rw [← hid]
    exact hall.confirmed (admit_unconfirmed ops hs) hmem hconfirmed

def twoRoutes : List CatalogRow :=
  [⟨some "openai/gpt-4",{ownedBy := "openai"}⟩,⟨some "openai/gpt-5",{ownedBy := "openai"}⟩]

def activeAccount : Connection := {provider := "openai", id := "acct", isActive := true, testStatus := "active"}

theorem two_routes_only_narrow : ∃ s, admitRoutes epochText (some twoRoutes) (some [activeAccount]) (some {}) {now := 0} = .ok s ∧
    s.ids = ["openai/gpt-4","openai/gpt-5"] ∧
    ∃ t, Derivation.run epochText s [.exclude ["openai/gpt-4"] .downstream "story_excludes" ""] = .ok t ∧
      ∀ d : Derivation, ∃ u, d.apply epochText t = .ok u ∧ u.ids ⊆ t.ids := by
  obtain ⟨s,hs,hids⟩ : ∃ s, admitRoutes epochText (some twoRoutes) (some [activeAccount]) (some {}) {now := 0} = .ok s ∧
      s.ids = ["openai/gpt-4","openai/gpt-5"] := by
    refine ⟨_,rfl,?_⟩
    decide +kernel
  refine ⟨s,hs,hids,?_⟩
  obtain ⟨t,ht,hstep⟩ := admitted_only_narrows epochText hs [.exclude ["openai/gpt-4"] .downstream "story_excludes" ""]
  refine ⟨t,ht,fun d => ?_⟩
  obtain ⟨u,hu,hsubset,-⟩ := hstep d
  exact ⟨u,hu,hsubset⟩

end Verdict.Admission

import Verdict.Basics.Raising
import Verdict.Compaction.Compact

/-! # What a compaction preserves

Units of a mandatory kind stay, dropped units are listed, and a second compaction changes
nothing. Whether each fact of the state ends up in a unit depends on the tests for it: a goal
unit with another goal, a taken id or a story id inside a longer one stands in for the fact.
-/
namespace Verdict.Compaction
open FreshKeys (addAll)
open List (any_eq_true append_of_mem flatMap_cons map_append map_cons mem_append mem_append_right
  mem_cons_self mem_map mem_singleton)
open UnitKind (discard_eq)

section
variable {ops : TextOps}
variable {text : String}

theorem strip_ne_empty {c : Char} (h : c ∈ text.toList) (hc : Path.isSpace c = false) : strip text ≠ "" := by
  rw [strip,Ne,String.ofList_eq_empty_iff]
  exact Path.strip_ne_nil h hc

theorem strip_eq_empty_iff : strip text = "" ↔ Path.strip text.toList = [] := by
  rw [strip,String.ofList_eq_empty_iff]

variable {u : ContinuityUnit}

theorem buildUnit_ok {unitId content provenanceUri digest : String} {kind : UnitKind} {mandatory : Bool}
    {lesson : Option String}
    (h : buildUnit ops unitId kind content provenanceUri mandatory lesson digest = .ok u) :
    u.unitId = unitId ∧ u.kind = kind ∧ u.content = content := by
  unfold buildUnit at h
  split at h
  · cases h
  · split at h
    · cases h
    · split at h
      · cases h
      · cases h
        exact ⟨rfl,rfl,rfl⟩

theorem lessonText_eq_none_iff : u.lessonText = none ↔
    strip (u.failureLesson.getD "") = "" ∧ ∀ c ∈ (Path.strip u.content.toList).head?, c = '.' := by
  unfold ContinuityUnit.lessonText
  by_cases hlesson : strip (u.failureLesson.getD "") = ""
  · simp only [hlesson,ne_eq,not_true_eq_false,if_false,true_and,ite_eq_left_iff,reduceCtorEq,imp_false,not_not]
    rw [strip_eq_empty_iff,strip,String.toList_ofList,String.toList_ofList]
    cases hcontent : Path.strip u.content.toList with
    | nil => simp [Path.strip]
    | cons c rest =>
      have hc := Path.isSpace_of_head_strip hcontent
      by_cases hdot : c = '.'
      · simp [hdot,Path.strip]
      · have hmem : c ∈ (c :: rest).takeWhile (· ≠ '.') := by
          rw [List.takeWhile_cons_of_pos (by simpa using hdot)]
          exact mem_cons_self
        refine iff_of_false (Path.strip_ne_nil hmem hc) fun h => hdot (h c rfl)
  · simp [hlesson]

variable {lesson : String}

theorem lessonText_ne_empty (h : u.lessonText = some lesson) : lesson ≠ "" := by
  unfold ContinuityUnit.lessonText at h
  dsimp only at h
  split at h
  · rename_i hlesson
    exact Option.some.inj h ▸ hlesson
  · split at h
    · cases h
    · rw [← Option.some.inj h,Ne,String.ofList_eq_empty_iff]
      split
      · rename_i hlast
        intro hnil
        rw [hnil] at hlast
        cases hlast
      · simp

theorem lessonUnit_some (ops : TextOps) (h : u.lessonText = some lesson) :
    ∃ l, lessonUnit ops u = .ok (some l) ∧ l.kind = .failureLesson ∧ l.content = lesson := by
  have hid : strip ("lesson:" ++ u.unitId) ≠ "" :=
    strip_ne_empty (c := 'l') (by simp) (by decide)
  have hcontent : ¬ (lesson = "" ∧ UnitKind.failureLesson.discard = false) := fun hboth => lessonText_ne_empty h hboth.1
  simp only [lessonUnit,h,buildUnit,hid,u.provenanceGiven,hcontent,dif_neg,not_false_eq_true]
  exact ⟨_,rfl,rfl,rfl⟩

theorem lessonUnit_none (ops : TextOps) (h : u.lessonText = none) : lessonUnit ops u = .ok none := by
  simp only [lessonUnit,h]

end

section Collect
variable (ops : TextOps)

def keptOf (u : ContinuityUnit) : List ContinuityUnit :=
  if u.kind.mandatory then [u]
  else if u.kind = .abandonedApproach then
    match lessonUnit ops u with
    | .ok lesson => lesson.toList
    | .error _ => []
  else []

def kept (state : SessionContinuityState) : List ContinuityUnit := state.units.flatMap (keptOf ops)

variable {ops}
variable {u : ContinuityUnit}

theorem keptOf_mandatory {v : ContinuityUnit} (h : v ∈ keptOf ops u) : v.kind.mandatory = true := by
  unfold keptOf at h
  split at h
  · rename_i hkind
    rw [mem_singleton] at h
    exact h ▸ hkind
  · split at h
    · cases hlesson : u.lessonText with
      | none =>
        rw [lessonUnit_none ops hlesson] at h
        cases h
      | some lesson =>
        obtain ⟨l,hl,hkind,-⟩ := lessonUnit_some ops hlesson
        rw [hl,Option.mem_toList] at h
        cases h
        rw [hkind]
        rfl
    · cases h

theorem collectUnit_spec (acc : Collected) (u : ContinuityUnit) : ∃ acc', collectUnit ops acc u = .ok acc' ∧
    acc'.retained = acc.retained ++ keptOf ops u ∧
    acc'.omissions = acc.omissions ++ (if u.kind.mandatory then [] else [u.omission]) ∧
    (∀ text, text ∈ acc'.lessons ↔ text ∈ acc.lessons ∨ (u.kind = .abandonedApproach ∧ u.lessonText = some text)) ∧
    (u.kind.mandatory = true → acc'.lessons = acc.lessons) := by
  unfold collectUnit keptOf
  cases hmandatory : u.kind.mandatory with
  | true =>
    have hother : u.kind ≠ .abandonedApproach := by
      intro hkind
      rw [hkind] at hmandatory
      cases hmandatory
    have hflag := u.flagged hmandatory
    simp [discard_eq,hmandatory,hflag,hother]
  | false =>
    by_cases hkind : u.kind = .abandonedApproach
    · cases hlesson : u.lessonText with
      | none => simp [discard_eq,hkind,UnitKind.mandatory,lessonUnit_none ops hlesson]
      | some lesson =>
        obtain ⟨l,hl,-,hcontent⟩ := lessonUnit_some ops hlesson
        simp only [discard_eq,hkind,UnitKind.mandatory,hl,hcontent]
        refine ⟨_,rfl,rfl,rfl,fun text => ?_,fun h => by cases h⟩
        dsimp only
        split
        · rename_i hheld
          simp only [true_and,Option.some.injEq]
          exact ⟨.inl,fun h => h.elim id fun heq => heq ▸ hheld⟩
        · simp [eq_comm]
    · simp [discard_eq,hmandatory,hkind]

theorem collectUnits_spec (units : List ContinuityUnit) (acc : Collected) : ∃ acc',
    units.foldlM (collectUnit ops) acc = .ok acc' ∧
    acc'.retained = acc.retained ++ units.flatMap (keptOf ops) ∧
    acc'.omissions = acc.omissions ++ (units.filter (!·.kind.mandatory)).map ContinuityUnit.omission ∧
    (∀ text, text ∈ acc'.lessons ↔ text ∈ acc.lessons ∨
      ∃ u ∈ units, u.kind = .abandonedApproach ∧ u.lessonText = some text) ∧
    ((∀ u ∈ units, u.kind.mandatory = true) → acc'.lessons = acc.lessons) := by
  induction units generalizing acc with
  | nil => exact ⟨acc,rfl,by simp,by simp,by simp,fun _ => rfl⟩
  | cons u units ih =>
    obtain ⟨mid,hmid,hretained,homissions,hlessons,hsame⟩ := @collectUnit_spec ops acc u
    obtain ⟨acc',hacc,hretained',homissions',hlessons',hsame'⟩ := ih mid
    refine ⟨acc',?_,?_,?_,fun text => ?_,fun h => ?_⟩
    · rw [List.foldlM_cons,hmid]
      exact hacc
    · rw [hretained',hretained,flatMap_cons,List.append_assoc]
    · rw [homissions',homissions,List.append_assoc]
      cases hkind : u.kind.mandatory <;> simp [hkind]
    · rw [hlessons' text,hlessons text,List.exists_mem_cons_iff,or_assoc]
    · obtain ⟨hu,hrest⟩ := List.forall_mem_cons.mp h
      rw [hsame' hrest,hsame hu]

structure CollectedFrom (ops : TextOps) (state : SessionContinuityState) (found : Collected) : Prop where
  retained : found.retained = kept ops state
  omissions : found.omissions = (state.units.filter (!·.kind.mandatory)).map ContinuityUnit.omission
  lessons : ∀ text, text ∈ found.lessons ↔ text ∈ state.failureConstraints ∨
    ∃ u ∈ state.units, u.kind = .abandonedApproach ∧ u.lessonText = some text
  unchanged : (∀ u ∈ state.units, u.kind.mandatory = true) → found.lessons = state.failureConstraints

theorem collect_ok (ops : TextOps) (state : SessionContinuityState) :
    ∃ found, collect ops state = .ok found ∧ CollectedFrom ops state found := by
  obtain ⟨found,hfound,hretained,homissions,hlessons,hsame⟩ :=
    @collectUnits_spec ops state.units ⟨[],[],state.failureConstraints⟩
  exact ⟨found,hfound,hretained,homissions,hlessons,hsame⟩

theorem kept_mandatory {state : SessionContinuityState} (h : u ∈ kept ops state) :
    u.kind.mandatory = true := by
  obtain ⟨v,-,hv⟩ := List.mem_flatMap.mp h
  exact keptOf_mandatory hv

theorem mandatory_sublist_kept (state : SessionContinuityState) :
    (state.units.filter (·.kind.mandatory)).Sublist (kept ops state) := by
  unfold kept
  induction state.units with
  | nil => exact .slnil
  | cons u units ih =>
    rw [flatMap_cons]
    cases hkind : u.kind.mandatory with
    | true =>
      rw [List.filter_cons_of_pos (by simpa using hkind),keptOf,if_pos hkind]
      exact ih.cons_cons u
    | false =>
      rw [List.filter_cons_of_neg (by simp [hkind])]
      exact ih.trans (List.sublist_append_right _ _)

theorem kept_of_mandatory {state : SessionContinuityState} (h : ∀ u ∈ state.units, u.kind.mandatory = true) :
    kept ops state = state.units := by
  unfold kept
  generalize state.units = units at h
  induction units with
  | nil => rfl
  | cons u units ih =>
    obtain ⟨hu,hrest⟩ := List.forall_mem_cons.mp h
    rw [flatMap_cons,ih hrest,keptOf,if_pos hu,List.singleton_append]

end Collect

section Scalars
variable {ops : TextOps} {state : SessionContinuityState}
variable {d : ScalarDraft} {u : ContinuityUnit}

theorem build_ok (h : d.build ops = .ok u) :
    u.unitId = d.unitId ∧ u.kind = d.kind ∧ u.content = d.content := buildUnit_ok h

variable {units : List ContinuityUnit}

theorem scalarDrafts_mandatory (h : d ∈ scalarDrafts ops state units) : d.kind.mandatory = true := by
  unfold scalarDrafts at h
  simp only [mem_append] at h
  have hconst : ∀ {b : Bool} {e : ScalarDraft}, e.kind.mandatory = true → d ∈ (if b then [] else [e]) → d.kind.mandatory = true := by
    intro b e he hd
    split at hd
    · cases hd
    · rw [mem_singleton] at hd
      exact hd ▸ he
  rcases h with (((((h | h) | h) | h) | h) | h) | h
  · exact hconst rfl h
  · exact hconst rfl h
  · exact hconst rfl h
  all_goals
    obtain ⟨_,-,rfl⟩ := mem_map.mp h
    rfl

theorem scalarDrafts_anti {more : List ContinuityUnit} (h : units ⊆ more)
    (hd : d ∈ scalarDrafts ops state more) : d ∈ scalarDrafts ops state units := by
  have hany : ∀ {p : ContinuityUnit → Bool}, units.any p = true → more.any p = true := by
    intro p hp
    obtain ⟨u,hu,hpu⟩ := any_eq_true.mp hp
    exact any_eq_true.mpr ⟨u,h hu,hpu⟩
  have hguard : ∀ {b c : Bool} {e : ScalarDraft}, (b = true → c = true) → d ∈ (if c then [] else [e]) → d ∈ (if b then [] else [e]) := by
    intro b c e hbc hmem
    cases b with
    | true =>
      rw [if_pos (hbc rfl)] at hmem
      exact hmem
    | false =>
      split at hmem
      · cases hmem
      · simpa using hmem
  have hlist : ∀ {α : Type} {xs : List α} {f : α → ScalarDraft} {p q : α → Bool}, (∀ x, q x = true → p x = true) →
      d ∈ (xs.filter q).map f → d ∈ (xs.filter p).map f := by
    intro α xs f p q hqp hmem
    exact List.map_subset f (List.monotone_filter_right xs hqp).subset hmem
  have hcontent : ∀ text, (!hasContent more text) = true → (!hasContent units text) = true := by
    intro text hno
    rw [Bool.not_eq_true'] at hno ⊢
    exact Bool.eq_false_iff.mpr fun hyes => Bool.eq_false_iff.mp hno (hany hyes)
  unfold scalarDrafts at hd ⊢
  simp only [mem_append] at hd ⊢
  rcases hd with (((((hd | hd) | hd) | hd) | hd) | hd) | hd
  · refine .inl (.inl (.inl (.inl (.inl (.inl (hguard (fun hb => ?_) hd))))))
    rcases Bool.or_eq_true_iff.mp hb with hkind | hempty
    · exact Bool.or_eq_true_iff.mpr (.inl (hany hkind))
    · exact Bool.or_eq_true_iff.mpr (.inr hempty)
  · exact .inl (.inl (.inl (.inl (.inl (.inr (hguard hany hd))))))
  · exact .inl (.inl (.inl (.inl (.inr (hguard hany hd)))))
  · exact .inl (.inl (.inl (.inr (hlist hcontent hd))))
  · exact .inl (.inl (.inr (hlist hcontent hd)))
  · refine .inl (.inr (hlist (fun s hno => ?_) hd))
    rw [Bool.not_eq_true'] at hno ⊢
    exact Bool.eq_false_iff.mpr fun hyes => Bool.eq_false_iff.mp hno (hany hyes)
  · exact .inr (hlist hcontent hd)

def Supplied (ops : TextOps) (state : SessionContinuityState) (d : ScalarDraft) : Prop :=
  ∃ before after, scalarDrafts ops state (kept ops state) = before ++ d :: after ∧
    d.unitId ∉ (kept ops state).map ContinuityUnit.unitId ∧ d.unitId ∉ before.map ScalarDraft.unitId

theorem forall₂_split {α β : Type} {R : α → β → Prop} {xs : List α} {before after : List β} {y : β}
    (h : List.Forall₂ R xs (before ++ y :: after)) :
    ∃ front x back, xs = front ++ x :: back ∧ R x y ∧ List.Forall₂ R front before := by
  induction before generalizing xs with
  | nil =>
    cases h with
    | cons hxy _ => exact ⟨[],_,_,rfl,hxy,.nil⟩
  | cons b before ih =>
    cases h with
    | cons hab hrest =>
      obtain ⟨front,x,back,rfl,hxy,hfront⟩ := ih hrest
      exact ⟨_ :: front,x,back,rfl,hxy,.cons hab hfront⟩

theorem unitIds_eq {ds : List ScalarDraft} {us : List ContinuityUnit} (h : List.Forall₂ (fun d u => d.build ops = .ok u) ds us) :
    us.map ContinuityUnit.unitId = ds.map ScalarDraft.unitId := by
  induction h with
  | nil => rfl
  | cons hbuild _ ih => rw [map_cons,map_cons,ih,(build_ok hbuild).1]

variable {scalars : List ContinuityUnit}

theorem mem_added (h : ensureScalarUnits ops state (kept ops state) = .ok scalars) : u ∈ addAll
    ContinuityUnit.unitId (kept ops state) scalars ↔ u ∈ kept ops state ∨ ∃ d, Supplied ops state d ∧
    d.build ops = .ok u := by
  have hpairs := Raising.mapM_forall₂ h
  rw [FreshKeys.mem_addAll]
  refine or_congr_right ⟨?_,?_⟩
  · rintro ⟨before,after,rfl,hfree⟩
    obtain ⟨front,d,back,hdrafts,hbuild,hfront⟩ := forall₂_split hpairs
    rw [map_append,mem_append,not_or,(build_ok hbuild).1,unitIds_eq hfront] at hfree
    exact ⟨d,⟨front,back,hdrafts,hfree⟩,hbuild⟩
  · rintro ⟨d,⟨front,back,hdrafts,hkept,hfirst⟩,hbuild⟩
    rw [hdrafts] at hpairs
    obtain ⟨before,v,after,rfl,hv,hbefore⟩ := forall₂_split hpairs.flip
    cases hbuild.symm.trans hv
    refine ⟨before,after,rfl,?_⟩
    rw [map_append,mem_append,not_or,(build_ok hbuild).1,unitIds_eq hbefore.flip]
    exact ⟨hkept,hfirst⟩

theorem supplied_built (h : ensureScalarUnits ops state (kept ops state) = .ok scalars)
    (hd : Supplied ops state d) : ∃ u, d.build ops = .ok u := by
  obtain ⟨front,back,hdrafts,-⟩ := hd
  have hpairs := Raising.mapM_forall₂ h
  rw [hdrafts] at hpairs
  obtain ⟨_,u,_,-,hbuild,-⟩ := forall₂_split hpairs.flip
  exact ⟨u,hbuild⟩

end Scalars

section Again
variable {ops : TextOps} {state : SessionContinuityState} {args : CompactionArgs} {result : CompactionResult}

theorem compactSessionState_ok_iff : compactSessionState ops state args = .ok result ↔ args.trigger.semantic
    = true ∧ args.event.any (·.trigger ≠ args.trigger) = false ∧ ∃ found scalars, collect ops state = .ok
    found ∧ ensureScalarUnits ops state found.retained = .ok scalars ∧ finish ops state args found scalars =
    .ok result := by
  unfold compactSessionState
  cases args.trigger.semantic with
  | false => simp [bind,Except.bind,throw,throwThe,MonadExceptOf.throw]
  | true =>
    cases args.event.any (·.trigger ≠ args.trigger) with
    | true => simp [bind,Except.bind,throw,throwThe,MonadExceptOf.throw]
    | false =>
      cases hfound : collect ops state with
      | error e => simp [bind,Except.bind]
      | ok found =>
        cases hscalars : ensureScalarUnits ops state found.retained with
        | error e => simp [hscalars,bind,Except.bind]
        | ok scalars => simp [hscalars,bind,Except.bind]

instance : Std.Total unitLe := by
  refine ⟨fun a b => ?_⟩
  rcases lt_trichotomy a.kind.text b.kind.text with h | h | h
  · exact .inl (.inl h)
  · exact (le_total a.unitId b.unitId).imp (fun hle => .inr ⟨h,hle⟩) fun hle => .inr ⟨h.symm,hle⟩
  · exact .inr (.inl h)

instance : IsTrans ContinuityUnit unitLe := by
  refine ⟨fun a b c hab hbc => ?_⟩
  rcases hab with hab | ⟨hab,hid⟩
  · rcases hbc with hbc | ⟨hbc,-⟩
    · exact .inl (hab.trans hbc)
    · exact .inl (hbc ▸ hab)
  · rcases hbc with hbc | ⟨hbc,hid'⟩
    · exact .inl (hab ▸ hbc)
    · exact .inr ⟨hab.trans hbc,hid.trans hid'⟩

def sortedUnits (ops : TextOps) (state : SessionContinuityState) (scalars : List ContinuityUnit) : List ContinuityUnit :=
  (addAll ContinuityUnit.unitId (kept ops state) scalars).insertionSort unitLe

theorem compact_parts (h : compactSessionState ops state args = .ok result) : ∃ found scalars, CollectedFrom
    ops state found ∧ ensureScalarUnits ops state (kept ops state) = .ok scalars ∧ result.retained =
    sortedUnits ops state scalars ∧ result.omissions = found.omissions ∧ result.state =
    {state with failureConstraints := found.lessons, units := result.retained} ∧ overBudget args.maxTokens
    result.retained (estimateTokens (renderCompactedText state result.retained found.lessons)) = none := by
  obtain ⟨-,-,found,scalars,hcollect,hscalars,hfinish⟩ := compactSessionState_ok_iff.mp h
  obtain ⟨found',hfound,hspec⟩ := collect_ok ops state
  cases hcollect.symm.trans hfound
  rw [hspec.retained] at hscalars
  refine ⟨found,scalars,hspec,hscalars,?_⟩
  simp only [finish,hspec.retained] at hfinish
  split at hfinish
  · cases hfinish
  · rename_i hbudget
    cases hfinish
    exact ⟨rfl,rfl,rfl,hbudget⟩

variable {scalars : List ContinuityUnit} {u : ContinuityUnit}

theorem mem_sortedUnits (h : ensureScalarUnits ops state (kept ops state) = .ok scalars) : u ∈ sortedUnits
    ops state scalars ↔ u ∈ kept ops state ∨ ∃ d, Supplied ops state d ∧ d.build ops = .ok u := by
  rw [sortedUnits,List.mem_insertionSort,mem_added h]

theorem sortedUnits_mandatory (h : ensureScalarUnits ops state (kept ops state) = .ok scalars)
    (hu : u ∈ sortedUnits ops state scalars) : u.kind.mandatory = true := by
  rcases (mem_sortedUnits h).mp hu with hkept | ⟨d,⟨front,back,hdrafts,-⟩,hbuild⟩
  · exact kept_mandatory hkept
  · rw [(build_ok hbuild).2.1]
    exact scalarDrafts_mandatory (hdrafts ▸ mem_append_right _ mem_cons_self)

theorem scalars_again (h : ensureScalarUnits ops state (kept ops state) = .ok scalars) : ∃ again,
    ensureScalarUnits ops state (sortedUnits ops state scalars) = .ok again ∧ ∀ e ∈ again, e.unitId ∈
    (sortedUnits ops state scalars).map ContinuityUnit.unitId := by
  have hsub : kept ops state ⊆ sortedUnits ops state scalars := fun u hu => (mem_sortedUnits h).mpr (.inl hu)
  have hpairs := Raising.mapM_forall₂ h
  have hbuilds : ∀ d ∈ scalarDrafts ops state (sortedUnits ops state scalars), ∃ u ∈ scalars, d.build ops = .ok u := by
    intro d hd
    obtain ⟨before,after,hdrafts⟩ := append_of_mem (scalarDrafts_anti hsub hd)
    rw [hdrafts] at hpairs
    obtain ⟨front,u,back,rfl,hbuild,-⟩ := forall₂_split hpairs.flip
    exact ⟨u,mem_append_right _ mem_cons_self,hbuild⟩
  obtain ⟨again,hagain⟩ := Raising.mapM_isOk.mpr fun d hd => (hbuilds d hd).imp fun _ hu => hu.2
  refine ⟨again,hagain,fun e he => ?_⟩
  obtain ⟨front,back,rfl⟩ := append_of_mem he
  obtain ⟨before,d,after,hdrafts,hbuild,-⟩ := forall₂_split (Raising.mapM_forall₂ hagain)
  obtain ⟨u,hu,hbuild'⟩ := hbuilds d (hdrafts ▸ mem_append_right _ mem_cons_self)
  cases hbuild.symm.trans hbuild'
  have hkeys := (@FreshKeys.keys_addAll _ _ _ ContinuityUnit.unitId (kept ops state) scalars e.unitId).mpr
    (.inr (List.mem_map_of_mem hu))
  obtain ⟨v,hv,hid⟩ := mem_map.mp hkeys
  exact mem_map.mpr ⟨v,(List.mem_insertionSort _).mpr hv,hid⟩

theorem compact_again (h : compactSessionState ops state args = .ok result) : ∃ again, compactSessionState
    ops result.state args = .ok again ∧ again.state.units = result.state.units ∧
    again.state.failureConstraints = result.state.failureConstraints := by
  obtain ⟨htrigger,hevent,-⟩ := compactSessionState_ok_iff.mp h
  obtain ⟨found,scalars,hspec,hscalars,hretained,-,hstate,hbudget⟩ := compact_parts h
  obtain ⟨again,hagain,htaken⟩ := scalars_again hscalars
  rw [hretained] at hstate hbudget
  have hmandatory : ∀ u ∈ result.state.units, u.kind.mandatory = true := by
    rw [hstate]
    exact fun u hu => sortedUnits_mandatory hscalars hu
  obtain ⟨found',hcollect,hspec'⟩ := collect_ok ops result.state
  have hkept : found'.retained = sortedUnits ops state scalars := by
    rw [hspec'.retained,kept_of_mandatory hmandatory,hstate]
  have hlessons : found'.lessons = found.lessons := by
    rw [hspec'.unchanged hmandatory,hstate]
  have hsorted : (addAll ContinuityUnit.unitId found'.retained again).insertionSort unitLe = sortedUnits ops state scalars := by
    rw [hkept,FreshKeys.addAll_of_taken htaken]
    exact (List.pairwise_insertionSort unitLe _).insertionSort_eq
  have hbudget' : overBudget args.maxTokens ((addAll ContinuityUnit.unitId found'.retained again).insertionSort unitLe)
      (estimateTokens (renderCompactedText result.state
        ((addAll ContinuityUnit.unitId found'.retained again).insertionSort unitLe) found'.lessons)) = none := by
    rw [hsorted,hlessons,hstate]
    exact hbudget
  have hscalars' : ensureScalarUnits ops result.state found'.retained = .ok again := by
    rw [hkept,hstate]
    exact hagain
  have hfinish : ∃ r, finish ops result.state args found' again = .ok r ∧
      r.state.units = (addAll ContinuityUnit.unitId found'.retained again).insertionSort unitLe ∧
        r.state.failureConstraints = found'.lessons := by
    unfold finish
    simp only [hbudget']
    exact ⟨_,rfl,rfl,rfl⟩
  obtain ⟨r,hr,hunits,hconstraints⟩ := hfinish
  refine ⟨r,compactSessionState_ok_iff.mpr ⟨htrigger,hevent,found',again,hcollect,hscalars',hr⟩,?_,?_⟩
  · rw [hunits,hsorted,hstate]
  · rw [hconstraints,hlessons,hstate]

end Again

/-! ### What must be kept -/

def idChar (c : Char) : Bool := c.isAlphanum || c = '-' || c = '_'

def WholeId (sid text : String) : Prop :=
  ∃ front back, text.toList = front ++ sid.toList ++ back ∧ (∀ c ∈ front.getLast?, idChar c = false) ∧
    ∀ c ∈ back.head?, idChar c = false

def CarriesStory (unitId content : String) (s : StoryRecord) : Prop := unitId = completedId s ∨ WholeId s.storyId content

def ContinuityUnit.HasText (u : ContinuityUnit) : Prop := strip u.content ≠ "" ∨ strip (u.failureLesson.getD "") ≠ ""

section
variable (ops : TextOps) (state : SessionContinuityState)

def Terminal (storyId : String) : Prop :=
  ∃ s ∈ state.completedStories, ops.upper s.storyId = ops.upper (strip storyId) ∧ s.isTerminal ops = true

def facts : List String := (if state.programGoal = "" then [] else [state.programGoal]) ++ state.proofRequirements
  ++ state.architecturalDecisions ++ state.blockers

/-- What a compaction keeps, that it is stable, and how the story is judged before and after it. -/
structure Preserves (args : CompactionArgs) (result : CompactionResult) (storyId : String) : Prop where
  mandatory : (state.units.filter (·.kind.mandatory)).Subperm result.retained
  facts : ∀ text ∈ facts state, ∃ u ∈ result.retained, u.content = text
  stories : ∀ s ∈ state.completedStories, ∃ u ∈ result.retained, CarriesStory u.unitId u.content s
  lessons : ∀ u ∈ state.units, u.kind = .abandonedApproach → u.HasText →
    ∃ lesson, u.lessonText = some lesson ∧ lesson ∈ result.state.failureConstraints
  omissions : result.omissions = (state.units.filter (· ∉ result.retained)).map ContinuityUnit.omission
  stable : ∃ again, compactSessionState ops result.state args = .ok again ∧ again.state.units = result.state.units ∧
    again.state.failureConstraints = result.state.failureConstraints
  ready : mayEnterReady ops storyId state = false ↔ Terminal ops state storyId
  readyAgain : mayEnterReady ops storyId result.state = false ↔ Terminal ops state storyId

/-- The content of a unit for completed work makes `may_enter_ready` refuse the story. -/
def Names (storyId content : String) : Prop :=
  contains (ops.upper content) (ops.upper (strip storyId)) = true ∧
    terminalStatuses.any (contains (ops.upper content)) = true

/-- No test is misled: each fact and each story is carried by a kept unit or gets a unit of its
own, no abandoned approach starts with a dot without a lesson, and the story asked for, if it
is not terminal, is not named next to a terminal status by a unit for completed work, there or
supplied. -/
structure Undeceived (storyId : String) : Prop where
  facts : ∀ text ∈ facts state, (∃ u ∈ kept ops state, u.content = text) ∨ ∃ d, Supplied ops state d ∧ d.content = text
  stories : ∀ s ∈ state.completedStories, (∃ u ∈ kept ops state, CarriesStory u.unitId u.content s) ∨
    ∃ d, Supplied ops state d ∧ CarriesStory d.unitId d.content s
  approaches : ∀ u ∈ state.units, u.kind = .abandonedApproach → strip (u.failureLesson.getD "") = "" →
    (Path.strip u.content.toList).head? ≠ some '.'
  units : ¬ Terminal ops state storyId → ∀ u ∈ state.units, u.kind = .completedIssue → ¬ Names ops storyId u.content
  supplied : ¬ Terminal ops state storyId → ∀ d, Supplied ops state d → d.kind = .completedIssue →
    ¬ Names ops storyId d.content

/-- Nothing that a test looks for hides another thing: no unit for some other goal stands for the goal, no
unit that is built has an id that is taken, and no story is mentioned by a longer id only. -/
structure Unmasked : Prop where
  goal : hasKind (kept ops state) .programGoal = true → hasContent (kept ops state) state.programGoal = true
  free : ∀ d ∈ scalarDrafts ops state (kept ops state), d.unitId ∉ (kept ops state).map ContinuityUnit.unitId
  ids : ∀ d ∈ scalarDrafts ops state (kept ops state), ∀ e ∈ scalarDrafts ops state (kept ops state),
    e.unitId = d.unitId → e.content = d.content
  stories : ∀ s ∈ state.completedStories, mentions (kept ops state) s = true →
    ∃ u ∈ kept ops state, CarriesStory u.unitId u.content s

variable {ops state} {d : ScalarDraft} {text : String} {units : List ContinuityUnit}

theorem fact_drafted (htext : text ∈ facts state) (hno : hasContent units text = false)
    (hgoal : hasKind units .programGoal = true → hasContent units state.programGoal = true) :
    ∃ d ∈ scalarDrafts ops state units, d.content = text := by
  have hmissing : ∀ {texts : List String}, text ∈ texts → text ∈ texts.filter (!hasContent units ·) :=
    fun h => List.mem_filter.mpr ⟨h,by rw [hno]; rfl⟩
  simp only [scalarDrafts,mem_append]
  simp only [facts,mem_append] at htext
  rcases htext with ((h | h) | h) | h
  · split at h
    · cases h
    rename_i hne
    obtain rfl := List.mem_singleton.mp h
    have hkind : hasKind units .programGoal = false := Bool.eq_false_iff.mpr fun hyes => Bool.eq_false_iff.mp hno (hgoal hyes)
    exact ⟨_,.inl (.inl (.inl (.inl (.inl (.inl (by simp only [hkind,hne]; exact mem_cons_self)))))),rfl⟩
  · exact ⟨_,.inl (.inl (.inl (.inr (List.mem_map_of_mem (hmissing h))))),rfl⟩
  · exact ⟨_,.inl (.inl (.inr (List.mem_map_of_mem (hmissing h)))),rfl⟩
  · exact ⟨_,.inr (List.mem_map_of_mem (hmissing h)),rfl⟩

theorem Unmasked.supplied (h : Unmasked ops state) (hd : d ∈ scalarDrafts ops state (kept ops state)) :
    ∃ e, Supplied ops state e ∧ e.unitId = d.unitId ∧ e.content = d.content := by
  -- of the drafts with this id the first one is added
  cases hfirst : (scalarDrafts ops state (kept ops state)).find? (·.unitId = d.unitId) with
  | none => simpa using List.find?_eq_none.mp hfirst d hd
  | some e =>
    obtain ⟨hid,before,after,hsplit,hbefore⟩ := List.find?_eq_some_iff_append.mp hfirst
    have hid : e.unitId = d.unitId := of_decide_eq_true hid
    refine ⟨e,⟨before,after,hsplit,hid ▸ h.free d hd,fun hmem => ?_⟩,hid,
      h.ids d hd e (hsplit ▸ mem_append_right _ mem_cons_self) hid⟩
    obtain ⟨b,hb,hsame⟩ := mem_map.mp hmem
    simpa [hsame,hid] using hbefore b hb

/-- Where nothing hides, every fact and every story is carried. -/
theorem Unmasked.carried (h : Unmasked ops state) :
    (∀ text ∈ facts state, (∃ u ∈ kept ops state, u.content = text) ∨ ∃ d, Supplied ops state d ∧ d.content = text) ∧
    ∀ s ∈ state.completedStories, (∃ u ∈ kept ops state, CarriesStory u.unitId u.content s) ∨
      ∃ d, Supplied ops state d ∧ CarriesStory d.unitId d.content s := by
  refine ⟨fun text htext => ?_,fun s hs => ?_⟩
  · cases hheld : hasContent (kept ops state) text with
    | true =>
      obtain ⟨u,hu,hcontent⟩ := List.any_eq_true.mp hheld
      exact .inl ⟨u,hu,of_decide_eq_true hcontent⟩
    | false =>
      obtain ⟨d,hd,rfl⟩ := fact_drafted htext hheld h.goal
      obtain ⟨e,he,-,hcontent⟩ := h.supplied hd
      exact .inr ⟨e,he,hcontent⟩
  · cases hmentions : mentions (kept ops state) s with
    | true => exact .inl (h.stories s hs hmentions)
    | false =>
      have hdraft : storyDraft s ∈ scalarDrafts ops state (kept ops state) := by
        simp only [scalarDrafts,mem_append]
        exact .inl (.inr (List.mem_map_of_mem (List.mem_filter.mpr ⟨hs,by rw [hmentions]; rfl⟩)))
      obtain ⟨e,he,hid,-⟩ := h.supplied hdraft
      exact .inr ⟨e,he,.inl hid⟩
end

section Main
variable {ops : TextOps} {state : SessionContinuityState} {args : CompactionArgs} {result : CompactionResult}

theorem exists_retained_iff (h : compactSessionState ops state args = .ok result) (P : String → UnitKind → String → Prop) :
    (∃ u ∈ result.retained, P u.unitId u.kind u.content) ↔ (∃ u ∈ kept ops state, P u.unitId u.kind u.content) ∨
      ∃ d, Supplied ops state d ∧ P d.unitId d.kind d.content := by
  obtain ⟨found,scalars,-,hscalars,hretained,-⟩ := compact_parts h
  rw [hretained]
  constructor
  · rintro ⟨u,hu,hP⟩
    rcases (mem_sortedUnits hscalars).mp hu with hkept | ⟨d,hd,hbuild⟩
    · exact .inl ⟨u,hkept,hP⟩
    · obtain ⟨hid,hkind,hcontent⟩ := build_ok hbuild
      rw [hid,hkind,hcontent] at hP
      exact .inr ⟨d,hd,hP⟩
  · rintro (⟨u,hkept,hP⟩ | ⟨d,hd,hP⟩)
    · exact ⟨u,(mem_sortedUnits hscalars).mpr (.inl hkept),hP⟩
    · obtain ⟨u,hbuild⟩ := supplied_built hscalars hd
      obtain ⟨hid,hkind,hcontent⟩ := build_ok hbuild
      rw [← hid,← hkind,← hcontent] at hP
      exact ⟨u,(mem_sortedUnits hscalars).mpr (.inr ⟨d,hd,hbuild⟩),hP⟩

theorem mandatory_subperm (h : compactSessionState ops state args = .ok result) :
    (state.units.filter (·.kind.mandatory)).Subperm result.retained := by
  obtain ⟨found,scalars,-,-,hretained,-⟩ := compact_parts h
  have hkept : (kept ops state).Sublist (addAll ContinuityUnit.unitId (kept ops state) scalars) :=
    (FreshKeys.prefix_addAll _ _).sublist
  rw [hretained,sortedUnits]
  exact ((mandatory_sublist_kept state).trans hkept).subperm.trans (List.perm_insertionSort unitLe _).symm.subperm

theorem omissions_eq (h : compactSessionState ops state args = .ok result) :
    result.omissions = (state.units.filter (· ∉ result.retained)).map ContinuityUnit.omission := by
  obtain ⟨found,scalars,hspec,hscalars,hretained,homissions,-⟩ := compact_parts h
  rw [homissions,hspec.omissions]
  congr 1
  refine List.filter_congr fun u hu => ?_
  cases hkind : u.kind.mandatory with
  | true =>
    have hin : u ∈ result.retained :=
      (mandatory_subperm h).subset (List.mem_filter.mpr ⟨hu,by simpa using hkind⟩)
    simp [hin]
  | false =>
    have hout : u ∉ result.retained := by
      intro hin
      rw [hretained] at hin
      rw [sortedUnits_mandatory hscalars hin] at hkind
      cases hkind
    simp [hout]

theorem lessons_iff (h : compactSessionState ops state args = .ok result) {text : String} : text ∈
    result.state.failureConstraints ↔ text ∈ state.failureConstraints ∨ ∃ u ∈ state.units, u.kind =
    .abandonedApproach ∧ u.lessonText = some text := by
  obtain ⟨found,scalars,hspec,-,-,-,hstate,-⟩ := compact_parts h
  rw [hstate]
  exact hspec.lessons text

theorem approach_iff (u : ContinuityUnit) : (u.HasText → ∃ lesson, u.lessonText = some lesson) ↔
    (strip (u.failureLesson.getD "") = "" → (Path.strip u.content.toList).head? ≠ some '.') := by
  rw [← Option.ne_none_iff_exists',Ne,lessonText_eq_none_iff,ContinuityUnit.HasText,Ne,strip_eq_empty_iff]
  by_cases hlesson : strip (u.failureLesson.getD "") = ""
  · cases hcontent : Path.strip u.content.toList with
    | nil => simp [hlesson]
    | cons c rest => simp [hlesson]
  · simp [hlesson]

variable {storyId : String}

theorem mayEnterReady_eq_false : mayEnterReady ops storyId state = false ↔
    Terminal ops state storyId ∨ ∃ u ∈ state.units, u.kind = .completedIssue ∧ Names ops storyId u.content := by
  unfold mayEnterReady Terminal Names
  simp only [Bool.and_eq_false_iff,Bool.not_eq_false',any_eq_true,Bool.and_eq_true,decide_eq_true_eq,and_assoc]

theorem completed_kept {u : ContinuityUnit} (hkind : u.kind = .completedIssue) : u ∈ kept ops state ↔ u ∈ state.units := by
  constructor
  · intro h
    obtain ⟨v,hv,hu⟩ := List.mem_flatMap.mp h
    unfold keptOf at hu
    split at hu
    · rw [mem_singleton] at hu
      exact hu ▸ hv
    · split at hu
      · cases hlesson : v.lessonText with
        | none =>
          rw [lessonUnit_none ops hlesson] at hu
          cases hu
        | some lesson =>
          obtain ⟨l,hl,hlkind,-⟩ := lessonUnit_some ops hlesson
          rw [hl,Option.mem_toList] at hu
          cases hu
          rw [hlkind] at hkind
          cases hkind
      · cases hu
  · intro h
    have hmandatory : u.kind.mandatory = true := by rw [hkind]; rfl
    exact (mandatory_sublist_kept state).subset (List.mem_filter.mpr ⟨h,by simpa using hmandatory⟩)

theorem ready_again (h : compactSessionState ops state args = .ok result) : mayEnterReady ops storyId
    result.state = false ↔ Terminal ops state storyId ∨
    (∃ u ∈ state.units, u.kind = .completedIssue ∧ Names ops storyId u.content) ∨ ∃ d, Supplied ops state d
    ∧ d.kind = .completedIssue ∧ Names ops storyId d.content := by
  obtain ⟨found,scalars,-,-,-,-,hstate,-⟩ := compact_parts h
  have hunits : result.state.units = result.retained := by rw [hstate]
  have hterminal : Terminal ops result.state storyId ↔ Terminal ops state storyId := by
    unfold Terminal
    rw [hstate]
  rw [mayEnterReady_eq_false,hunits,hterminal,
    exists_retained_iff h fun _ kind content => kind = .completedIssue ∧ Names ops storyId content]
  refine or_congr_right (or_congr_left ?_)
  constructor
  · rintro ⟨u,hu,hkind,hnames⟩
    exact ⟨u,(completed_kept hkind).mp hu,hkind,hnames⟩
  · rintro ⟨u,hu,hkind,hnames⟩
    exact ⟨u,(completed_kept hkind).mpr hu,hkind,hnames⟩

/-- A compaction that succeeds preserves what it must exactly when no test is misled. -/
theorem compaction_preserves_iff (ops : TextOps) (state : SessionContinuityState) (args : CompactionArgs)
    (result : CompactionResult) (storyId : String) (h : compactSessionState ops state args = .ok result) :
    Preserves ops state args result storyId ↔ Undeceived ops state storyId := by
  have hfact : ∀ text, (∃ u ∈ result.retained, u.content = text) ↔
      (∃ u ∈ kept ops state, u.content = text) ∨ ∃ d, Supplied ops state d ∧ d.content = text :=
    fun text => exists_retained_iff h fun _ _ content => content = text
  have hstory : ∀ s, (∃ u ∈ result.retained, CarriesStory u.unitId u.content s) ↔
      (∃ u ∈ kept ops state, CarriesStory u.unitId u.content s) ∨
        ∃ d, Supplied ops state d ∧ CarriesStory d.unitId d.content s :=
    fun s => exists_retained_iff h fun unitId _ content => CarriesStory unitId content s
  constructor
  · intro hall
    refine ⟨fun text htext => (hfact text).mp (hall.facts text htext),fun s hs => (hstory s).mp (hall.stories s hs),
      fun u hu hkind => (approach_iff u).mp fun htext => (hall.lessons u hu hkind htext).imp fun _ hl => hl.1,
      fun hopen u hu hkind hnames => ?_,fun hopen d hd hkind hnames => ?_⟩
    · exact hopen (hall.ready.mp (mayEnterReady_eq_false.mpr (.inr ⟨u,hu,hkind,hnames⟩)))
    · exact hopen (hall.readyAgain.mp ((ready_again h).mpr (.inr (.inr ⟨d,hd,hkind,hnames⟩))))
  · intro hfree
    refine ⟨mandatory_subperm h,fun text htext => (hfact text).mpr (hfree.facts text htext),
      fun s hs => (hstory s).mpr (hfree.stories s hs),fun u hu hkind htext => ?_,omissions_eq h,compact_again h,?_,?_⟩
    · obtain ⟨lesson,hlesson⟩ := (approach_iff u).mpr (hfree.approaches u hu hkind) htext
      exact ⟨lesson,hlesson,(lessons_iff h).mpr (.inr ⟨u,hu,hkind,hlesson⟩)⟩
    · rw [mayEnterReady_eq_false]
      refine or_iff_left_of_imp fun ⟨u,hu,hkind,hnames⟩ => ?_
      by_contra hopen
      exact hfree.units hopen u hu hkind hnames
    · rw [ready_again h]
      refine or_iff_left_of_imp fun hnamed => ?_
      by_contra hopen
      rcases hnamed with ⟨u,hu,hkind,hnames⟩ | ⟨d,hd,hkind,hnames⟩
      · exact hfree.units hopen u hu hkind hnames
      · exact hfree.supplied hopen d hd hkind hnames

end Main

def asciiText : TextOps where
  upper text := String.ofList (text.toList.map Char.toUpper)
  repr := id
  canonical _ := ""
  digestText := id

def smallState : SessionContinuityState where
  programGoal := "ship"
  activeStory := "BOD-2"
  nextStory := none
  completedStories := [{storyId := "BOD-1", status := "DONE", mergeSha := some "abc"}]
  proofRequirements := ["tests pass"]
  architecturalDecisions := []
  blockers := []
  failureConstraints := []
  worktree := {storyId := "BOD-2", worktree := "/w", branch := "b", baseSha := "0", headSha := "1"}

def mergeArgs : CompactionArgs where
  trigger := .verifiedMerge

def mergedUnit : ContinuityUnit where
  unitId := "u"
  kind := .completedIssue
  content := "BOD-69 MERGED abc"
  provenanceUri := "urn:u"
  mandatory := true
  failureLesson := none
  sourceDigest := "d"
  idGiven := by decide +kernel
  provenanceGiven := by decide +kernel
  contentGiven := by decide +kernel
  flagged _ := rfl

def mergedState : SessionContinuityState := {smallState with completedStories := [], units := [mergedUnit]}

variable {d : ScalarDraft}

theorem Supplied.mem {ops : TextOps} {state : SessionContinuityState} (h : Supplied ops state d) :
    d ∈ scalarDrafts ops state (kept ops state) := by
  obtain ⟨before,after,hsplit,-,-⟩ := h
  rw [hsplit]
  exact mem_append_right _ mem_cons_self

theorem compacts_of_isOk {ops : TextOps} {state : SessionContinuityState} {args : CompactionArgs}
    (h : (compactSessionState ops state args).toBool = true) : ∃ result, compactSessionState ops state args = .ok result := by
  cases hresult : compactSessionState ops state args with
  | ok result => exact ⟨result,rfl⟩
  | error e =>
    rw [hresult] at h
    cases h

/-- Noise, which is dropped, and an approach of which only the lesson stays. -/
def discardedUnit (unitId : String) (hid : strip unitId ≠ "") (kind : UnitKind) (hkind : kind.mandatory = false) (content : String)
    (failureLesson : Option String) : ContinuityUnit where
  unitId := unitId
  kind := kind
  content := content
  provenanceUri := "urn:u"
  mandatory := false
  failureLesson := failureLesson
  sourceDigest := "d"
  idGiven := hid
  provenanceGiven := by decide +kernel
  contentGiven _ := by rw [discard_eq,hkind]; rfl
  flagged h := absurd h (by rw [hkind]; decide)

def fullState : SessionContinuityState := { smallState with
  units := [mergedUnit,discardedUnit "c" (by decide +kernel) .shellChatter rfl "ls -la" none,
    discardedUnit "p" (by decide +kernel) .abandonedApproach rfl "polling" (some "poll less")] }

/-- The merged stories, the lesson and everything else of a session is kept, and another story stays free. -/
theorem full_session_preserved : ∃ result, compactSessionState asciiText fullState mergeArgs = .ok result ∧
    result.omissions.length = 2 ∧ result.state.failureConstraints = ["poll less"] ∧
    Preserves asciiText fullState mergeArgs result "BOD-2" := by
  have hshape : (compactSessionState asciiText fullState mergeArgs).toOption.map
      (fun r => (r.omissions.length,r.state.failureConstraints)) = some (2,["poll less"]) := by decide +kernel
  obtain ⟨result,hresult⟩ := @compacts_of_isOk asciiText fullState mergeArgs (by decide +kernel)
  rw [hresult] at hshape
  have hshape := Option.some.inj hshape
  refine ⟨result,hresult,congrArg Prod.fst hshape,congrArg Prod.snd hshape,
    (compaction_preserves_iff asciiText fullState mergeArgs result "BOD-2" hresult).mpr ?_⟩
  have hunnamed : ∀ s ∈ fullState.completedStories, mentions (kept asciiText fullState) s = false := by decide +kernel
  have hcarried := @Unmasked.carried asciiText fullState ⟨by decide +kernel,by decide +kernel,by decide +kernel,
    fun s hs hmentions => absurd hmentions (Bool.eq_false_iff.mp (hunnamed s hs))⟩
  refine ⟨hcarried.1,hcarried.2,?_,fun _ u hu => ?_,fun _ d hd => ?_⟩
  · decide +kernel
  · have hall : ∀ u ∈ fullState.units, u.kind = .completedIssue →
        contains (asciiText.upper u.content) (asciiText.upper (strip "BOD-2")) = false := by decide +kernel
    exact fun hkind hnames => Bool.eq_false_iff.mp (hall u hu hkind) hnames.1
  · have hall : ∀ d ∈ scalarDrafts asciiText fullState (kept asciiText fullState), d.kind = .completedIssue →
        contains (asciiText.upper d.content) (asciiText.upper (strip "BOD-2")) = false := by decide +kernel
    exact fun hkind hnames => Bool.eq_false_iff.mp (hall d hd.mem hkind) hnames.1

/-- A story is refused because the id of a merged one starts with its own. -/
theorem longer_id_refuses_story : ∃ result, compactSessionState asciiText mergedState mergeArgs = .ok result ∧
    ¬ Preserves asciiText mergedState mergeArgs result "BOD-6" := by
  obtain ⟨result,hresult⟩ := @compacts_of_isOk asciiText mergedState mergeArgs (by decide +kernel)
  refine ⟨result,hresult,fun h => ?_⟩
  obtain ⟨s,hs,-⟩ := h.ready.mp (by decide +kernel)
  cases hs

end Verdict.Compaction

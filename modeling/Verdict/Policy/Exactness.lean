import Verdict.Policy.Evaluate

/-! # When the policy is its predicates

A candidate is allowed when its notes are clean: nothing is unknown and no reason mentions the
word unsupported. The identity predicates look at the selected route, the others at the one
that was served.
-/
namespace Verdict.Policy
open Json
open List (any_eq_true mem_cons_self mem_singleton not_mem_nil)
open Notes (add join)
open Raising (bind_ok mapM_isOk mapM_mem map_ok mem_mapM)
variable {o : Outside} {p : Policy} {c : PolicyCandidate} {at_ : ℤ}

/-! ### The predicates -/

def RouteAllowed (p : Policy) (r : RouteIdentity) : Prop :=
  (p.allowedProviders = [] ∨ r.provider ∈ p.allowedProviders) ∧ r.provider ∉ p.deniedProviders ∧
    (p.allowedProtocols = [] ∨ r.protocol ∈ p.allowedProtocols)

def Identified (p : Policy) (route : Option RouteIdentity) : Prop :=
  (p.requireRouteIdentity = true → route ≠ none) ∧ ∀ r ∈ route, RouteAllowed p r

def CapabilityHeld (p : Policy) (d : CapabilityDecision) : Prop := d.status = .supported ∨ d.status = .unknown ∧ staleAllowed p d

structure OtherPredicates (o : Outside) (p : Policy) (c : PolicyCandidate) (at_ : ℤ) : Prop where
  actualKnown : ¬(p.isProtected = true ∧ p.requireActualIdentity = true ∧ c.actualRoute = none)
  qualified : ¬restrictedRefused o p c
  available : c.availability ∉ refusedAvailability ∧ ¬degradedRefused p c ∧ c.availability ∉ unknownAvailability
  capabilities : p.requiredCapabilities ≠ [] → ∃ passport, c.passport = some passport ∧
    (∀ r ∈ c.effectiveRoute, passport.routeIdentity = r) ∧
    ∀ name ∈ p.requiredCapabilities, ∃ d, passport.resolve name at_ = .ok d ∧ CapabilityHeld p d
  runtime : ∀ name ∈ p.requiredRuntimeCapabilities,
    (∃ item ∈ runtimeMatches c, ∃ d, item.resolve name at_ = .ok d ∧ d.status = .supported) ∧
      ∀ item ∈ runtimeMatches c, ∀ d, item.resolve name at_ = .ok d → d.status ≠ .unsupported

/-- All hard predicates, of the route that will serve or has served the request. -/
def HardPredicates (o : Outside) (p : Policy) (c : PolicyCandidate) (at_ : ℤ) : Prop :=
  Identified p c.effectiveRoute ∧ OtherPredicates o p c at_

/-- No capability that is held by old evidence is named so that its note mentions the word. -/
def PlainNames (o : Outside) (p : Policy) (c : PolicyCandidate) (at_ : ℤ) : Prop :=
  ∀ passport ∈ c.passport, ∀ name ∈ p.requiredCapabilities, ∀ d, passport.resolve name at_ = .ok d →
    d.status = .unknown → staleAllowed p d → ¬Mentions "unsupported" (staleReason o name)

/-! ### Words -/

theorem mentions_append_right {needle b : String} (a : String) (h : Mentions needle b) : Mentions needle (a ++ b) := by
  rw [Mentions,String.toList_append]
  exact h.trans (List.suffix_append _ _).isInfix

/-! ### Clean notes -/

def Clean (n : Notes) : Prop := n.unknown = false ∧ ∀ item ∈ n.reasons, ¬Mentions "unsupported" item

theorem clean_add (a b : Notes) : Clean (a.add b) ↔ Clean a ∧ Clean b := by
  simp only [Clean,add,Bool.or_eq_false_iff,List.forall_mem_append]
  exact ⟨fun ⟨⟨ha,hb⟩,hra,hrb⟩ => ⟨⟨ha,hra⟩,hb,hrb⟩,fun ⟨⟨ha,hra⟩,hb,hrb⟩ => ⟨⟨ha,hb⟩,hra,hrb⟩⟩

theorem clean_empty : Clean {} := ⟨rfl,fun _ h => absurd h not_mem_nil⟩

theorem clean_join (ns : List Notes) : Clean (join ns) ↔ ∀ n ∈ ns, Clean n := by
  induction ns with
  | nil => exact iff_of_true clean_empty fun _ h => absurd h not_mem_nil
  | cons n ns ih => rw [join,clean_add,ih,List.forall_mem_cons]

variable {n : Notes}

theorem clean_noteIf {cnd : Prop} [Decidable cnd] (hn : n.unknown = true) : Clean (noteIf cnd n) ↔ ¬cnd := by
  rw [noteIf]
  split
  · next h => exact iff_of_false (fun hclean => Bool.noConfusion (hn.symm.trans hclean.1)) (not_not.mpr h)
  · next h => exact iff_of_true clean_empty h

theorem conclude_allow (at_ : ℤ) (n : Notes) : (conclude o p c at_ n).decision = .allow ↔ Clean n := by
  rw [conclude]
  split
  · next h =>
    obtain ⟨item,hitem,hmentions⟩ := any_eq_true.mp h
    exact iff_of_false (fun he => nomatch he) fun hclean => hclean.2 item hitem (of_decide_eq_true hmentions)
  · next h =>
    have hplain : ∀ item ∈ n.reasons, ¬Mentions "unsupported" item := fun item hitem hmentions =>
      h (any_eq_true.mpr ⟨item,hitem,decide_eq_true hmentions⟩)
    cases hn : n.unknown with
    | true => exact iff_of_false (fun he => nomatch he) fun hclean => Bool.noConfusion (hn.symm.trans hclean.1)
    | false => exact iff_of_true rfl ⟨hn,hplain⟩

/-! ### Identity -/

def Denies (item : String) : Prop := Mentions "not allowed" item ∨ Mentions "is denied" item

theorem routeNotes_denies (r : RouteIdentity) : (∃ item ∈ (routeNotes o p r).reasons, Denies item) ↔ ¬RouteAllowed p r := by
  have hprovider : Denies ("provider " ++ o.repr r.provider ++ " is not allowed") :=
    .inl (mentions_append_right _ (by decide))
  have hdenied : Denies ("provider " ++ o.repr r.provider ++ " is denied") := .inr (mentions_append_right _ (by decide))
  have hprotocol : Denies ("protocol " ++ o.repr r.protocol ++ " is not allowed") :=
    .inl (mentions_append_right _ (by decide))
  rw [RouteAllowed,routeNotes]
  by_cases hp : p.allowedProviders ≠ [] ∧ r.provider ∉ p.allowedProviders
  · refine iff_of_true ⟨_,?_,hprovider⟩ fun h => h.1.elim hp.1 hp.2
    simp only [noteIf,if_pos hp,add]
    exact List.mem_append_left _ (List.mem_append_left _ mem_cons_self)
  · by_cases hd : r.provider ∈ p.deniedProviders
    · refine iff_of_true ⟨_,?_,hdenied⟩ fun h => h.2.1 hd
      simp only [noteIf,if_pos hd,add]
      exact List.mem_append_left _ (List.mem_append_right _ mem_cons_self)
    · by_cases hq : p.allowedProtocols ≠ [] ∧ r.protocol ∉ p.allowedProtocols
      · refine iff_of_true ⟨_,?_,hprotocol⟩ fun h => h.2.2.elim hq.1 hq.2
        simp only [noteIf,if_pos hq,add]
        exact List.mem_append_right _ mem_cons_self
      · refine iff_of_false ?_ (not_not.mpr ⟨?_,hd,?_⟩)
        · simp only [noteIf,if_neg hp,if_neg hd,if_neg hq,add]
          exact fun ⟨_,h,_⟩ => absurd h not_mem_nil
        · by_contra hnot
          exact hp (not_or.mp hnot)
        · by_contra hnot
          exact hq (not_or.mp hnot)

theorem routeNotes_clean {r : RouteIdentity} (h : RouteAllowed p r) : routeNotes o p r = {} := by
  obtain ⟨hp,hd,hq⟩ := h
  rw [routeNotes,noteIf,if_neg fun hn => hp.elim hn.1 hn.2,noteIf,if_neg hd,noteIf,if_neg fun hn => hq.elim hn.1 hn.2]
  rfl

theorem not_denies_unknown : ¬Denies "exact route identity is unknown" ∧ ¬Denies "actual served route identity is unknown" := by
  constructor
  · rintro (h | h)
    · exact absurd h (by decide +kernel)
    · exact absurd h (by decide +kernel)
  · rintro (h | h)
    · exact absurd h (by decide +kernel)
    · exact absurd h (by decide +kernel)

theorem identityNotes_denies :
    ((identityNotes o p c).reasons.any fun item => Mentions "not allowed" item ∨ Mentions "is denied" item)
    = true ↔ ¬∀ r ∈ c.routeIdentity, RouteAllowed p r := by
  have hactual : ¬∃ item ∈ (noteIf (p.isProtected = true ∧ p.requireActualIdentity = true ∧ c.actualRoute = none)
      {reasons := ["actual served route identity is unknown"]
       remediation := ["observe and attest the served gateway, provider, connection, and model"]
       unknown := true}).reasons, Denies item := by
    rintro ⟨item,hitem,hdenies⟩
    rw [noteIf] at hitem
    split at hitem
    · rw [mem_singleton.mp hitem] at hdenies
      exact not_denies_unknown.2 hdenies
    · exact absurd hitem not_mem_nil
  have hany : ((identityNotes o p c).reasons.any fun item => Mentions "not allowed" item ∨ Mentions "is denied" item) = true ↔
      ∃ item ∈ (identityNotes o p c).reasons, Denies item := by
    simp only [any_eq_true,decide_eq_true_eq,Denies]
  rw [hany,identityNotes]
  simp only [add,List.mem_append,or_and_right,exists_or]
  rw [or_iff_left hactual]
  cases c.routeIdentity with
  | none =>
    refine iff_of_false ?_ (not_not.mpr fun _ h => nomatch h)
    rintro ⟨item,hitem,hdenies⟩
    dsimp only at hitem
    rw [noteIf] at hitem
    split at hitem
    · rw [mem_singleton.mp hitem] at hdenies
      exact not_denies_unknown.1 hdenies
    · exact absurd hitem not_mem_nil
  | some r =>
    dsimp only
    rw [routeNotes_denies]
    simp only [Option.mem_def,Option.some.injEq,forall_eq']

theorem identityNotes_clean (hallowed : ∀ r ∈ c.routeIdentity, RouteAllowed p r) : Clean
    (identityNotes o p c) ↔ (p.requireRouteIdentity = true → c.routeIdentity ≠ none) ∧
    ¬(p.isProtected = true ∧ p.requireActualIdentity = true ∧ c.actualRoute = none) := by
  rw [identityNotes,clean_add,clean_noteIf rfl]
  refine and_congr_left fun _ => ?_
  cases hroute : c.routeIdentity with
  | none =>
    dsimp only
    rw [clean_noteIf rfl]
    exact ⟨fun h hreq => absurd hreq h,fun h hreq => h hreq rfl⟩
  | some r =>
    dsimp only
    rw [routeNotes_clean (hallowed r hroute)]
    exact iff_of_true clean_empty fun _ h => nomatch h

/-! ### Capabilities -/

theorem capabilityNote_clean (name : String) (d : CapabilityDecision) : Clean (capabilityNote o p name d) ↔
    CapabilityHeld p d ∧
    (d.status = .unknown → staleAllowed p d → ¬Mentions "unsupported" (staleReason o name)) := by
  rw [capabilityNote,CapabilityHeld]
  cases hstatus : d.status with
  | supported => exact iff_of_true clean_empty ⟨.inl rfl,fun h => nomatch h⟩
  | unsupported =>
    refine iff_of_false (fun h => h.2 _ mem_cons_self (mentions_append_right _ (by decide))) ?_
    rintro ⟨h | ⟨h,-⟩,-⟩
    · cases h
    · cases h
  | unknown =>
    dsimp only
    split
    · next hstale =>
      constructor
      · intro h
        exact ⟨.inr ⟨rfl,hstale⟩,fun _ _ => h.2 _ mem_cons_self⟩
      · rintro ⟨-,h⟩
        refine ⟨rfl,fun item hitem => ?_⟩
        rw [mem_singleton.mp hitem]
        exact h rfl hstale
    · next hstale =>
      refine iff_of_false (fun h => Bool.noConfusion h.1) ?_
      rintro ⟨h | ⟨-,h⟩,-⟩
      · cases h
      · exact hstale h

theorem mem_sorted {names : List String} {name : String} : name ∈ sorted names ↔ name ∈ names := by
  rw [sorted,List.mem_insertionSort,List.mem_dedup]

theorem map_isOk {α β ε : Type} {f : α → β} {x : Except ε α} : (∃ b, x.map f = .ok b) ↔ ∃ a, x = .ok a := by
  cases x with
  | error e => exact iff_of_false (fun ⟨_,h⟩ => nomatch h) fun ⟨_,h⟩ => nomatch h
  | ok a => exact iff_of_true ⟨_,rfl⟩ ⟨_,rfl⟩

theorem clean_loop {α β : Type} {f : α → Except PassportError β} {g : α → β → Notes} {xs : List α} {notes : List Notes}
    (h : (xs.mapM fun x => (f x).map (g x)) = .ok notes) :
    (∀ n ∈ notes, Clean n) ↔ ∀ x ∈ xs, ∃ b, f x = .ok b ∧ Clean (g x b) := by
  constructor
  · intro hclean x hx
    obtain ⟨n,hn,hxn⟩ := mem_mapM h hx
    obtain ⟨b,hb,rfl⟩ := map_ok.mp hxn
    exact ⟨b,hb,hclean _ hn⟩
  · intro hall n hn
    obtain ⟨x,hx,hxn⟩ := mapM_mem h n hn
    obtain ⟨b,hb,rfl⟩ := map_ok.mp hxn
    obtain ⟨b',hb',hclean⟩ := hall x hx
    cases Except.ok.inj (hb.symm.trans hb')
    exact hclean

theorem capabilityNotes_isOk : (∃ n, capabilityNotes o p c at_ = .ok n) ↔
    ∀ passport ∈ c.passport, ∀ name ∈ p.requiredCapabilities, isCapabilityName name = true := by
  rw [capabilityNotes]
  by_cases hnone : p.requiredCapabilities = []
  · rw [if_pos hnone,hnone]
    exact iff_of_true ⟨_,rfl⟩ fun _ _ _ h => absurd h not_mem_nil
  · rw [if_neg hnone]
    cases hpassport : c.passport with
    | none => exact iff_of_true ⟨_,rfl⟩ fun _ h => nomatch h
    | some passport =>
      dsimp only
      rw [map_isOk,mapM_isOk]
      simp only [map_isOk,CapabilityPassport.resolve_isOk,mem_sorted,Option.mem_def,Option.some.injEq,forall_eq']

theorem capabilityNotes_clean (h : capabilityNotes o p c at_ = .ok n) :
    Clean n ↔ (p.requiredCapabilities ≠ [] → ∃ passport, c.passport = some passport ∧
      (∀ r ∈ c.effectiveRoute, passport.routeIdentity = r) ∧
      ∀ name ∈ p.requiredCapabilities, ∃ d, passport.resolve name at_ = .ok d ∧ CapabilityHeld p d) ∧ PlainNames o p c at_ := by
  rw [capabilityNotes] at h
  by_cases hnone : p.requiredCapabilities = []
  · rw [if_pos hnone] at h
    cases h
    refine iff_of_true clean_empty ⟨fun hne => absurd hnone hne,fun _ _ name hname => ?_⟩
    rw [hnone] at hname
    exact absurd hname not_mem_nil
  · rw [if_neg hnone] at h
    cases hpassport : c.passport with
    | none =>
      rw [hpassport] at h
      cases h
      refine iff_of_false (fun hclean => Bool.noConfusion hclean.1) fun hheld => ?_
      obtain ⟨_,he,-⟩ := hheld.1 hnone
      cases he
    | some passport =>
      rw [hpassport] at h
      obtain ⟨notes,hnotes,rfl⟩ := map_ok.mp h
      rw [clean_add,clean_noteIf rfl,clean_join,clean_loop hnotes]
      simp only [capabilityNote_clean,mem_sorted]
      have hmatches : (¬∃ r ∈ c.effectiveRoute, passport.routeIdentity ≠ r) ↔ ∀ r ∈ c.effectiveRoute, passport.routeIdentity = r := by
        simp only [not_exists,not_and,not_not]
      rw [hmatches]
      constructor
      · rintro ⟨hroute,hnames⟩
        refine ⟨fun _ => ⟨passport,rfl,hroute,fun name hname => ?_⟩,fun other hother name hname d hd => ?_⟩
        · obtain ⟨d,hd,hheld,-⟩ := hnames name hname
          exact ⟨d,hd,hheld⟩
        · rw [hpassport] at hother
          cases hother
          obtain ⟨d',hd',-,hplain⟩ := hnames name hname
          cases Except.ok.inj (hd.symm.trans hd')
          exact hplain
      · rintro ⟨hheld,hplain⟩
        obtain ⟨other,hother,hroute,hnames⟩ := hheld hnone
        cases hother
        refine ⟨hroute,fun name hname => ?_⟩
        obtain ⟨d,hd,hholds⟩ := hnames name hname
        exact ⟨d,hd,hholds,hplain passport hpassport name hname d hd⟩

/-! ### Runtime capabilities -/

theorem runtimeNote_clean (name : String) (ds : List RuntimeCapabilityDecision) :
    Clean (runtimeNote o name ds) ↔ (∃ d ∈ ds, d.status = .supported) ∧ ∀ d ∈ ds, d.status ≠ .unsupported := by
  have hunsupported : ds.any (·.status = .unsupported) = true ↔ ¬∀ d ∈ ds, d.status ≠ .unsupported := by
    simp only [any_eq_true,decide_eq_true_eq,ne_eq,not_forall,not_not,exists_prop]
  have hsupported : (!ds.any (·.status = .supported)) = true ↔ ¬∃ d ∈ ds, d.status = .supported := by
    rw [Bool.not_eq_true',← Bool.not_eq_true,any_eq_true]
    simp only [decide_eq_true_eq]
  rw [runtimeNote]
  split
  · next h =>
    refine iff_of_false (fun hclean => hclean.2 _ mem_cons_self (mentions_append_right _ (by decide))) fun hheld => ?_
    exact hunsupported.mp h hheld.2
  · next h =>
    split
    · next hnone => exact iff_of_false (fun hclean => Bool.noConfusion hclean.1) fun hheld => hsupported.mp hnone hheld.1
    · next hsome =>
      refine iff_of_true clean_empty ⟨?_,?_⟩
      · by_contra hnot
        exact hsome (hsupported.mpr hnot)
      · by_contra hnot
        exact h (hunsupported.mpr hnot)

theorem runtimeMatches_nil (h : c.runtimePassports = []) : runtimeMatches c = [] := by
  rw [runtimeMatches,h]
  cases c.effectiveRoute <;> rfl

theorem runtimeNotes_isOk : (∃ n, runtimeNotes o p c at_ = .ok n) ↔
    (runtimeMatches c ≠ [] → ∀ name ∈ p.requiredRuntimeCapabilities, isCapabilityName name = true) := by
  rw [runtimeNotes]
  by_cases hnone : p.requiredRuntimeCapabilities = []
  · rw [if_pos hnone,hnone]
    exact iff_of_true ⟨_,rfl⟩ fun _ _ h => absurd h not_mem_nil
  · rw [if_neg hnone]
    by_cases hpassports : c.runtimePassports = []
    · rw [if_pos hpassports]
      exact iff_of_true ⟨_,rfl⟩ fun hne => absurd (runtimeMatches_nil hpassports) hne
    · rw [if_neg hpassports,map_isOk,mapM_isOk]
      simp only [map_isOk,mapM_isOk,RuntimeCapabilityPassport.resolve_isOk,mem_sorted]
      constructor
      · intro h hne name hname
        obtain ⟨item,hitem⟩ := List.exists_mem_of_ne_nil _ hne
        exact h name hname item hitem
      · intro h name hname item hitem
        exact h (List.ne_nil_of_mem hitem) name hname

theorem runtimeNotes_clean (h : runtimeNotes o p c at_ = .ok n) : Clean n ↔ ∀ name ∈
    p.requiredRuntimeCapabilities,
    (∃ item ∈ runtimeMatches c, ∃ d, item.resolve name at_ = .ok d ∧ d.status = .supported) ∧ ∀ item ∈
    runtimeMatches c, ∀ d, item.resolve name at_ = .ok d → d.status ≠ .unsupported := by
  have hnever : p.requiredRuntimeCapabilities ≠ [] → runtimeMatches c = [] → ¬∀ name ∈ p.requiredRuntimeCapabilities,
      (∃ item ∈ runtimeMatches c, ∃ d, item.resolve name at_ = .ok d ∧ d.status = .supported) ∧
        ∀ item ∈ runtimeMatches c, ∀ d, item.resolve name at_ = .ok d → d.status ≠ .unsupported := by
    intro hne hempty hall
    obtain ⟨name,hname⟩ := List.exists_mem_of_ne_nil _ hne
    obtain ⟨⟨item,hitem,-⟩,-⟩ := hall name hname
    rw [hempty] at hitem
    exact absurd hitem not_mem_nil
  rw [runtimeNotes] at h
  by_cases hnone : p.requiredRuntimeCapabilities = []
  · rw [if_pos hnone] at h
    cases h
    rw [hnone]
    exact iff_of_true clean_empty fun _ hname => absurd hname not_mem_nil
  · rw [if_neg hnone] at h
    by_cases hpassports : c.runtimePassports = []
    · rw [if_pos hpassports] at h
      cases h
      exact iff_of_false (fun hclean => Bool.noConfusion hclean.1) (hnever hnone (runtimeMatches_nil hpassports))
    · rw [if_neg hpassports] at h
      obtain ⟨notes,hnotes,rfl⟩ := map_ok.mp h
      rw [clean_add,clean_noteIf rfl,clean_join,clean_loop hnotes]
      simp only [runtimeNote_clean,mem_sorted]
      constructor
      · rintro ⟨-,hall⟩ name hname
        obtain ⟨ds,hds,⟨d,hd,hsupported⟩,hplain⟩ := hall name hname
        obtain ⟨item,hitem,hresolve⟩ := mapM_mem hds d hd
        refine ⟨⟨item,hitem,d,hresolve,hsupported⟩,fun other hother d' hd' => ?_⟩
        obtain ⟨d'',hmem,hd''⟩ := mem_mapM hds hother
        cases Except.ok.inj (hd'.symm.trans hd'')
        exact hplain _ hmem
      · intro hall
        have hmatches : runtimeMatches c ≠ [] := fun hempty => hnever hnone hempty hall
        refine ⟨hmatches,fun name hname => ?_⟩
        obtain ⟨⟨item,hitem,d,hresolve,hsupported⟩,hplain⟩ := hall name hname
        have hname' : isCapabilityName name = true := (item.resolve_isOk name at_).mp ⟨d,hresolve⟩
        obtain ⟨ds,hds⟩ : ∃ ds, (runtimeMatches c).mapM (fun item => item.resolve name at_) = .ok ds :=
          mapM_isOk.mpr fun other _ => (other.resolve_isOk name at_).mpr hname'
        refine ⟨ds,hds,?_,fun d' hd' => ?_⟩
        · obtain ⟨d',hmem,hd'⟩ := mem_mapM hds hitem
          cases Except.ok.inj (hresolve.symm.trans hd')
          exact ⟨_,hmem,hsupported⟩
        · obtain ⟨other,hother,hresolve'⟩ := mapM_mem hds d' hd'
          exact hplain other hother d' hresolve'

/-! ### The decision -/

def RefusedFirst (o : Outside) (p : Policy) (c : PolicyCandidate) : Prop :=
  (¬∀ r ∈ c.routeIdentity, RouteAllowed p r) ∨ restrictedRefused o p c ∨ c.availability ∈ refusedAvailability ∨ degradedRefused p c

/-- The required names are such as passports hold, where a passport is asked for them. -/
def NamesAsked (p : Policy) (c : PolicyCandidate) : Prop :=
  (∀ passport ∈ c.passport, ∀ name ∈ p.requiredCapabilities, isCapabilityName name = true) ∧
    (runtimeMatches c ≠ [] → ∀ name ∈ p.requiredRuntimeCapabilities, isCapabilityName name = true)

theorem evaluate_refused (h : RefusedFirst o p c) : ∃ d, evaluate o p c at_ = .ok d ∧ d.decision = .deny := by
  rw [evaluate]
  by_cases hroute : ∀ r ∈ c.routeIdentity, RouteAllowed p r
  · rw [if_neg fun hany => identityNotes_denies.mp hany hroute]
    by_cases hrestricted : restrictedRefused o p c
    · exact ⟨_,if_pos hrestricted,rfl⟩
    · rw [if_neg hrestricted]
      by_cases havailable : c.availability ∈ refusedAvailability
      · exact ⟨_,if_pos havailable,rfl⟩
      · rw [if_neg havailable]
        have hdegraded : degradedRefused p c := by
          rcases h with h | h | h | h
          · exact absurd hroute h
          · exact absurd h hrestricted
          · exact absurd h havailable
          · exact h
        exact ⟨_,if_pos hdegraded,rfl⟩
  · exact ⟨_,if_pos (identityNotes_denies.mpr hroute),rfl⟩

theorem evaluate_asked (h : ¬RefusedFirst o p c) : evaluate o p c at_ =
    match capabilityNotes o p c at_, runtimeNotes o p c at_ with
    | .error e, _ => .error e
    | .ok _, .error e => .error e
    | .ok caps, .ok runtime =>
      .ok (conclude o p c at_ ((((identityNotes o p c).add (availabilityNotes c)).add caps).add runtime)) := by
  obtain ⟨hroute,hrestricted,havailable,hdegraded⟩ : (∀ r ∈ c.routeIdentity, RouteAllowed p r) ∧ ¬restrictedRefused o p c ∧
      c.availability ∉ refusedAvailability ∧ ¬degradedRefused p c := by
    rw [RefusedFirst,not_or,not_or,not_or,not_not] at h
    exact h
  rw [evaluate,if_neg fun hany => identityNotes_denies.mp hany hroute,if_neg hrestricted,if_neg havailable]
  refine (if_neg hdegraded).trans ?_
  cases capabilityNotes o p c at_ with
  | error e => rfl
  | ok caps => cases runtimeNotes o p c at_ <;> rfl

theorem evaluate_isOk : (∃ d, evaluate o p c at_ = .ok d) ↔ RefusedFirst o p c ∨ NamesAsked p c := by
  by_cases hfirst : RefusedFirst o p c
  · obtain ⟨d,hd,-⟩ : ∃ d, evaluate o p c at_ = .ok d ∧ d.decision = .deny := evaluate_refused hfirst
    exact iff_of_true ⟨d,hd⟩ (.inl hfirst)
  · have hcaps : (∃ n, capabilityNotes o p c at_ = .ok n) ↔ _ := capabilityNotes_isOk
    have hruntime : (∃ n, runtimeNotes o p c at_ = .ok n) ↔ _ := runtimeNotes_isOk
    rw [or_iff_right hfirst,evaluate_asked hfirst,NamesAsked,← hcaps,← hruntime]
    cases capabilityNotes o p c at_ with
    | error e => exact iff_of_false (fun ⟨_,h⟩ => nomatch h) fun ⟨⟨_,h⟩,_⟩ => nomatch h
    | ok caps =>
      cases runtimeNotes o p c at_ with
      | error e => exact iff_of_false (fun ⟨_,h⟩ => nomatch h) fun ⟨_,_,h⟩ => nomatch h
      | ok runtime => exact iff_of_true ⟨_,rfl⟩ ⟨⟨_,rfl⟩,_,rfl⟩

/-- What `evaluate` allows: the identity predicates of the selected route, the others of the
served one, and no note that mentions the word. -/
theorem allow_iff {d : PolicyDecision} (h : evaluate o p c at_ = .ok d) :
    d.decision = .allow ↔ Identified p c.routeIdentity ∧ OtherPredicates o p c at_ ∧ PlainNames o p c at_ := by
  by_cases hfirst : RefusedFirst o p c
  · obtain ⟨d',hd',hdeny⟩ : ∃ d, evaluate o p c at_ = .ok d ∧ d.decision = .deny := evaluate_refused hfirst
    cases Except.ok.inj (h.symm.trans hd')
    refine iff_of_false (fun hallow => nomatch hdeny.symm.trans hallow) ?_
    rintro ⟨hidentified,hother,-⟩
    rcases hfirst with hbad | hbad | hbad | hbad
    · exact hbad hidentified.2
    · exact hother.qualified hbad
    · exact hother.available.1 hbad
    · exact hother.available.2.1 hbad
  · obtain ⟨hroute,hrestricted,havailable,hdegraded⟩ : (∀ r ∈ c.routeIdentity, RouteAllowed p r) ∧ ¬restrictedRefused o p c ∧
        c.availability ∉ refusedAvailability ∧ ¬degradedRefused p c := by
      rw [RefusedFirst,not_or,not_or,not_or,not_not] at hfirst
      exact hfirst
    rw [evaluate_asked hfirst] at h
    cases hcaps : capabilityNotes o p c at_ with
    | error e =>
      rw [hcaps] at h
      cases h
    | ok caps =>
      cases hruntime : runtimeNotes o p c at_ with
      | error e =>
        rw [hcaps,hruntime] at h
        cases h
      | ok runtime =>
        rw [hcaps,hruntime] at h
        cases h
        rw [conclude_allow,clean_add,clean_add,clean_add,identityNotes_clean hroute,availabilityNotes,clean_noteIf rfl,
          capabilityNotes_clean hcaps,runtimeNotes_clean hruntime]
        constructor
        · rintro ⟨⟨⟨⟨hrequired,hactual⟩,hknown⟩,hheld,hplain⟩,hrun⟩
          exact ⟨⟨hrequired,hroute⟩,⟨hactual,hrestricted,⟨havailable,hdegraded,hknown⟩,hheld,hrun⟩,hplain⟩
        · rintro ⟨⟨hrequired,-⟩,hother,hplain⟩
          exact ⟨⟨⟨⟨hrequired,hother.actualKnown⟩,hother.available.2.2⟩,hother.capabilities,hplain⟩,hother.runtime⟩

/-- `evaluate` comes to a decision, and allows exactly what meets the hard predicates. -/
def Exact (o : Outside) (p : Policy) (c : PolicyCandidate) (at_ : ℤ) : Prop :=
  ∃ d, evaluate o p c at_ = .ok d ∧ (d.decision = .allow ↔ HardPredicates o p c at_)

theorem exact_iff : Exact o p c at_ ↔ (RefusedFirst o p c ∨ NamesAsked p c) ∧
    (OtherPredicates o p c at_ →
      ((Identified p c.routeIdentity ∧ PlainNames o p c at_) ↔ Identified p c.effectiveRoute)) := by
  constructor
  · rintro ⟨d,hd,hiff⟩
    refine ⟨evaluate_isOk.mp ⟨d,hd⟩,fun hother => ?_⟩
    rw [allow_iff hd,HardPredicates] at hiff
    exact ⟨fun h => (hiff.mp ⟨h.1,hother,h.2⟩).1,fun h => ⟨(hiff.mpr ⟨h,hother⟩).1,(hiff.mpr ⟨h,hother⟩).2.2⟩⟩
  · rintro ⟨hok,hsame⟩
    obtain ⟨d,hd⟩ := evaluate_isOk.mpr hok
    refine ⟨d,hd,?_⟩
    rw [allow_iff hd,HardPredicates]
    constructor
    · rintro ⟨hidentified,hother,hplain⟩
      exact ⟨(hsame hother).mp ⟨hidentified,hplain⟩,hother⟩
    · rintro ⟨heffective,hother⟩
      obtain ⟨hidentified,hplain⟩ := (hsame hother).mpr heffective
      exact ⟨hidentified,hother,hplain⟩

/-! ### Compiling -/

/-- `evaluate` allows the candidate. -/
def Allowed (o : Outside) (p : Policy) (at_ : ℤ) (c : PolicyCandidate) : Bool := match evaluate o p c at_ with
  | .ok d => d.decision = .allow
  | .error _ => false

variable {candidates : List PolicyCandidate}

theorem zip_allowed {decisions : List PolicyDecision}
    (h : (candidates.mapM fun c => evaluate o p c at_) = .ok decisions) :
    ((candidates.zip decisions).filter fun e => e.2.decision = .allow).map Prod.fst = candidates.filter (Allowed o p at_) := by
  induction candidates generalizing decisions with
  | nil => rfl
  | cons c cs ih =>
    rw [List.mapM_cons] at h
    obtain ⟨d,hd,h⟩ := bind_ok.mp h
    obtain ⟨ds,hds,h⟩ := bind_ok.mp h
    cases h
    have hallowed : Allowed o p at_ c = decide (d.decision = .allow) := by rw [Allowed,hd]
    rw [List.zip_cons_cons,List.filter_cons,List.filter_cons,hallowed]
    split
    · rw [List.map_cons,ih hds]
    · exact ih hds

theorem compile_eligible {ranking : String → Option ℚ} {out : EligibilityCompilation}
    (h : compile o p candidates at_ ranking = .ok out) : out.eligible.Perm (candidates.filter (Allowed o p at_)) := by
  rw [compile] at h
  split at h
  · cases h
  · split at h
    · cases h
    · next hdecisions =>
      cases h
      refine (List.perm_insertionSort _ _).trans ?_
      rw [zip_allowed hdecisions]

/-- The policy is exactly its predicates when it comes to a decision and the selected route is
taken, with no note that mentions the word, exactly when the served one is; and what is compiled
is always what is allowed, in some order. -/
theorem policy_exactness (o : Outside) (p : Policy) (at_ : ℤ) :
    (∀ c, Exact o p c at_ ↔ (RefusedFirst o p c ∨ NamesAsked p c) ∧
      (OtherPredicates o p c at_ → ((Identified p c.routeIdentity ∧ PlainNames o p c at_) ↔ Identified p c.effectiveRoute))) ∧
    ∀ candidates ranking out, compile o p candidates at_ ranking = .ok out →
      out.eligible.Perm (candidates.filter (Allowed o p at_)) :=
  ⟨fun _ => exact_iff,fun _ _ _ h => compile_eligible h⟩

/-- A request that was served by a provider on the list of denied ones is allowed, as the
selected provider is another. -/
theorem denied_provider_allowed : ¬∀ o p c at_, Exact o p c at_ := by
  intro h
  let selected : RouteIdentity := ⟨"gateway","a","connection","endpoint","protocol","model",none,none,none,[],[]⟩
  let served : RouteIdentity := {selected with provider := "b"}
  obtain ⟨d,hd,hiff⟩ := h ⟨id,fun _ => ""⟩ {deniedProviders := ["b"]}
    {candidateId := "c", routeIdentity := some selected, actualRoute := some served, availability := "eligible"} 0
  have hallow : evaluate ⟨id,fun _ => ""⟩ {deniedProviders := ["b"]}
      {candidateId := "c", routeIdentity := some selected, actualRoute := some served, availability := "eligible"} 0 =
      .ok ⟨"c",.allow,"policy-2",0,["all hard predicates passed"],[],[],some "",false⟩ := by decide +kernel
  cases Except.ok.inj (hd.symm.trans hallow)
  exact ((hiff.mp rfl).1.2 served rfl).2.1 mem_cons_self

end Verdict.Policy

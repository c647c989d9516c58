import Verdict.Policy.Exactness
import Verdict.Policy.Transitions

/-! # When a transition graph is closed

Every edge to another candidate is gated, but the edge of the initial attempt is legal behind
bytes too, and routes are compared by keys that are both missing when both are unknown.
-/
namespace Verdict.Policy

open PolicyCandidate (effectiveRoute routeKey)
open Raising (bind_ok ok_of_isOk)
open List (mem_cons mem_filter mem_map not_mem_nil)
variable {o : Outside} {p : RetryPolicy} {current c : PolicyCandidate} {candidates : List PolicyCandidate} {ctx : ExecutionContext}
  {at_ : ℤ} {g : TransitionGraph} {e : TransitionEdge}

/-! ### What is asked of the edges -/

def Leads (o : Outside) (e : TransitionEdge) (c : PolicyCandidate) : Prop := e.target = c.candidateId ∧ e.routeKey = c.routeKey o

def Retriable (p : RetryPolicy) (ctx : ExecutionContext) : Prop :=
  ctx.retrySafety = .safe ∧ (p.requireIdempotencyKey = true → ctx.idempotencyKey.getD "" ≠ "") ∧ ctx.attempt < p.maxAttempts

def ProtocolMatches (ctx : ExecutionContext) (c : PolicyCandidate) : Prop :=
  ∀ name ∈ ctx.protocol, ∃ r ∈ c.effectiveRoute, r.protocol = name

def FallbackPermitted (o : Outside) (p : RetryPolicy) (current c : PolicyCandidate) : Prop :=
  p.allowFallback = true ∨ (c.routeKey o = current.routeKey o ∧ c.routeKey o ≠ none)

structure FailClosed (o : Outside) (p : RetryPolicy) (current : PolicyCandidate) (candidates : List PolicyCandidate)
    (ctx : ExecutionContext) (at_ : ℤ) (g : TransitionGraph) : Prop where
  allowed : ∀ e ∈ g.legalEdges, e.kind ≠ .terminal → ∃ c ∈ considered current candidates, Leads o e c ∧ Allowed o p.toPolicy at_ c = true
  unverified : ctx.byteState = .bytesEmitted → ctx.checkpointVerified = false → ∀ e ∈ g.legalEdges, e.kind = .terminal
  verified : ctx.byteState = .bytesEmitted → ctx.checkpointVerified = true → ∀ e ∈ g.legalEdges, e.kind ≠ .terminal →
    e.routeKey = current.routeKey o ∧ e.routeKey ≠ none
  before : ctx.byteState = .preBytes → ∀ e ∈ g.legalEdges, e.kind ≠ .terminal → ∀ c ∈ considered current candidates, Leads o e c →
    c.candidateId ≠ current.candidateId → Retriable p ctx ∧ ProtocolMatches ctx c ∧ FallbackPermitted o p current c
  ended : ctx.terminal = true → ∃ e, g.edges = [e] ∧ e.kind = .terminal

/-! ### When it holds -/

/-- What the compiler compares passes: the keys of the routes, and the protocol of a selected route. -/
def Compared (o : Outside) (p : RetryPolicy) (current c : PolicyCandidate) (ctx : ExecutionContext) : Prop :=
  (p.allowFallback = true ∨ c.routeKey o = current.routeKey o) ∧ ∀ name ∈ ctx.protocol, ∀ r ∈ c.routeIdentity, r.protocol = name

/-- What is compared is there: with a protocol asked for, a route, and none of another protocol that has served; without
fallback, a route. -/
def Comparable (p : RetryPolicy) (c : PolicyCandidate) (ctx : ExecutionContext) : Prop :=
  (∀ name ∈ ctx.protocol, c.effectiveRoute ≠ none ∧ ∀ r ∈ c.actualRoute, r.protocol = name) ∧
    (p.allowFallback = false → c.effectiveRoute ≠ none)

/-- The execution is at its end or its route is not allowed; or else behind bytes the checkpoint is verified and the route
known, and before bytes no allowed candidate passes for want of a route to compare. -/
def Gated (o : Outside) (p : RetryPolicy) (current : PolicyCandidate) (candidates : List PolicyCandidate) (ctx : ExecutionContext)
    (at_ : ℤ) : Prop :=
  ctx.terminal = true ∨ Allowed o p.toPolicy at_ current = false ∨ match ctx.byteState with
    | .bytesEmitted => ctx.checkpointVerified = true ∧ current.effectiveRoute ≠ none
    | .preBytes => Retriable p ctx → ∀ c ∈ considered current candidates, c.candidateId ≠ current.candidateId →
        Allowed o p.toPolicy at_ c = true → Compared o p current c ctx → Comparable p c ctx

/-! ### Decisions -/

variable {q : Policy} {d : PolicyDecision}

theorem evaluate_candidateId (h : evaluate o q c at_ = .ok d) : d.candidateId = c.candidateId := by
  have hconclude : ∀ n, (conclude o q c at_ n).candidateId = c.candidateId := by
    intro n
    unfold conclude
    split
    · rfl
    · split <;> rfl
  by_cases hfirst : RefusedFirst o q c
  · unfold evaluate at h
    simp only at h
    split at h
    · cases h; rfl
    split at h
    · cases h; rfl
    split at h
    · cases h; rfl
    split at h
    · cases h; rfl
    split at h
    · cases h
    · cases h
    · cases h
      exact hconclude _
  · rw [evaluate_asked hfirst] at h
    split at h
    · cases h
    · cases h
    · cases h
      exact hconclude _

theorem decisionFor_of_forall₂ {cs : List PolicyCandidate} {ds : List PolicyDecision}
    (h : List.Forall₂ (fun c d => evaluate o q c at_ = .ok d) cs ds) (hnodup : (cs.map (·.candidateId)).Nodup) (hc : c ∈ cs) :
    ∃ d, decisionFor ds c.candidateId = .ok d ∧ evaluate o q c at_ = .ok d := by
  induction h with
  | nil => exact absurd hc not_mem_nil
  | cons hd _ ih =>
    rename_i b d cs ds _
    obtain ⟨hb,hnodup⟩ := List.nodup_cons.mp hnodup
    rcases mem_cons.mp hc with rfl | hc
    · refine ⟨d,?_,hd⟩
      rw [decisionFor,List.find?_cons_of_pos (by simpa using evaluate_candidateId hd)]
    · obtain ⟨d',hd',heval⟩ := ih hnodup hc
      refine ⟨d',?_,heval⟩
      have hne : d.candidateId ≠ c.candidateId := by
        rw [evaluate_candidateId hd]
        exact fun heq => hb (mem_map.mpr ⟨c,hc,heq.symm⟩)
      rwa [decisionFor,List.find?_cons_of_neg (by simpa using hne)]

theorem allowed_eq (h : evaluate o q c at_ = .ok d) : Allowed o q at_ c = decide (d.decision = .allow) := by
  rw [Allowed,h]

theorem current_mem : current ∈ considered current candidates := by
  have hprefix : [current] <+: considered current candidates := FreshKeys.prefix_addAll [current] candidates
  exact hprefix.subset List.mem_cons_self

theorem mem_of_considered (hc : c ∈ considered current candidates) : c ∈ current :: candidates := by
  rcases FreshKeys.mem_addAll.mp hc with hnil | ⟨before,after,hsplit,-⟩
  · exact absurd hnil not_mem_nil
  · rw [hsplit]
    exact List.mem_append_right _ List.mem_cons_self

theorem mem_others : c ∈ others current candidates ↔ c ∈ considered current candidates ∧ c.candidateId ≠ current.candidateId := by
  rw [others,mem_filter,(List.perm_insertionSort _ _).mem_iff,decide_eq_true_eq]

/-! ### Edges -/

theorem reasonIf_eq_nil {b : Prop} [Decidable b] {reason : String} : reasonIf b reason = [] ↔ ¬ b := by
  unfold reasonIf
  split <;> simp_all

theorem preByteLegality_iff :
    (preByteLegality o p current ctx c d).1 = true ↔ d.decision = .allow ∧ Retriable p ctx ∧ Compared o p current c ctx := by
  simp only [preByteLegality,preByteReasons,List.isEmpty_iff,List.append_eq_nil_iff,reasonIf_eq_nil,Retriable,Compared]
  grind

theorem edgeTo_legal : (edgeTo o p current ctx c d).legal = true ↔ d.decision = .allow ∧ match ctx.byteState with
    | .bytesEmitted => ctx.checkpointVerified = true ∧ c.routeKey o = current.routeKey o
    | .preBytes => Retriable p ctx ∧ Compared o p current c ctx := by
  unfold edgeTo
  cases ctx.byteState with
  | preBytes => exact preByteLegality_iff
  | bytesEmitted =>
    simp only [edge,Bool.and_eq_true,decide_eq_true_eq]
    tauto

theorem edgeTo_leads (d : PolicyDecision) : Leads o (edgeTo o p current ctx c d) c ∧ (edgeTo o p current ctx c d).kind ≠ .terminal := by
  unfold edgeTo
  cases ctx.byteState with
  | preBytes =>
    refine ⟨⟨rfl,rfl⟩,?_⟩
    simp only [edge]
    split <;> decide
  | bytesEmitted => exact ⟨⟨rfl,rfl⟩,by simp [edge]⟩

def initialEdge (o : Outside) (current : PolicyCandidate) : TransitionEdge :=
  edge o current current.candidateId .initial true ["initial attempt is policy-eligible"] current

theorem compileTransitions_ok (h : compileTransitions o p current candidates ctx at_ = .ok g) :
    ((considered current candidates).map (·.candidateId)).Nodup ∧
    ∃ ds d, (∀ c ∈ considered current candidates, ∃ d, decisionFor ds c.candidateId = .ok d ∧ evaluate o p.toPolicy c at_ = .ok d) ∧
      evaluate o p.toPolicy current at_ = .ok d ∧ edgesOf o p current ctx candidates ds d = .ok g.edges := by
  unfold compileTransitions at h
  split at h
  · cases h
  · next compilation hcompile =>
    unfold compile at hcompile
    split at hcompile
    · cases hcompile
    · next hnodup =>
      split at hcompile
      · cases hcompile
      · next ds hds =>
        cases hcompile
        obtain ⟨d,hd,h⟩ := bind_ok.mp h
        obtain ⟨edges,hedges,h⟩ := bind_ok.mp h
        cases h
        have hall : ∀ c ∈ considered current candidates, ∃ d, decisionFor ds c.candidateId = .ok d ∧ evaluate o p.toPolicy c at_ = .ok d :=
          fun c hc => decisionFor_of_forall₂ (Raising.mapM_forall₂ hds) (not_not.mp hnodup) hc
        obtain ⟨d',hd',heval⟩ := hall current current_mem
        cases hd.symm.trans hd'
        exact ⟨not_not.mp hnodup,ds,d,hall,heval,hedges⟩

theorem edges_of_terminal (h : compileTransitions o p current candidates ctx at_ = .ok g) (hend : ctx.terminal = true) :
    ∃ e, g.edges = [e] ∧ e.kind = .terminal := by
  obtain ⟨-,ds,d,-,-,hedges⟩ := compileTransitions_ok h
  rw [edgesOf,if_pos hend] at hedges
  exact ⟨_,(Except.ok.inj hedges).symm,rfl⟩

theorem legalEdges_of_refused (h : compileTransitions o p current candidates ctx at_ = .ok g) (hgoing : ctx.terminal = false)
    (hcurrent : Allowed o p.toPolicy at_ current = false) : g.legalEdges = [] := by
  obtain ⟨-,ds,d,-,heval,hedges⟩ := compileTransitions_ok h
  rw [allowed_eq heval,decide_eq_false_iff_not] at hcurrent
  rw [edgesOf,if_neg (by simp [hgoing]),if_pos hcurrent] at hedges
  rw [TransitionGraph.legalEdges,← Except.ok.inj hedges]
  rfl

theorem mem_legalEdges (h : compileTransitions o p current candidates ctx at_ = .ok g)
    (hgoing : ctx.terminal = false) (hcurrent : Allowed o p.toPolicy at_ current = true) : e ∈ g.legalEdges
    ↔ e = initialEdge o current ∨ ∃ c ∈ considered current candidates, c.candidateId ≠ current.candidateId ∧
    ∃ d, evaluate o p.toPolicy c at_ = .ok d ∧ e = edgeTo o p current ctx c d ∧ e.legal = true := by
  obtain ⟨-,ds,d,hall,heval,hedges⟩ := compileTransitions_ok h
  rw [allowed_eq heval,decide_eq_true_eq] at hcurrent
  rw [edgesOf,if_neg (by simp [hgoing]),if_neg (by simp [hcurrent])] at hedges
  obtain ⟨rest,hrest,hedges⟩ := bind_ok.mp hedges
  rw [TransitionGraph.legalEdges,← Except.ok.inj hedges,mem_filter,mem_cons]
  constructor
  · rintro ⟨rfl | hmem,hlegal⟩
    · exact .inl rfl
    · obtain ⟨c,hc,hread⟩ := Raising.mapM_mem hrest e hmem
      obtain ⟨hc,hother⟩ := mem_others.mp hc
      obtain ⟨d',hd',hread⟩ := bind_ok.mp hread
      obtain ⟨d'',hd'',heval'⟩ := hall c hc
      cases hd'.symm.trans hd''
      exact .inr ⟨c,hc,hother,d',heval',(Except.ok.inj hread).symm,hlegal⟩
  · rintro (rfl | ⟨c,hc,hother,d',heval',rfl,hlegal⟩)
    · exact ⟨.inl rfl,rfl⟩
    · obtain ⟨e',he',hread⟩ := Raising.mem_mapM hrest (mem_others.mpr ⟨hc,hother⟩)
      obtain ⟨d'',hd'',heval''⟩ := hall c hc
      cases heval'.symm.trans heval''
      rw [hd''] at hread
      cases hread
      exact ⟨.inr he',hlegal⟩

/-! ### The graph -/

theorem routeKey_ne_none : c.routeKey o ≠ none ↔ c.effectiveRoute ≠ none := by
  rw [routeKey,Ne,Option.map_eq_none_iff]

theorem comparable_iff (h : Compared o p current c ctx) :
    Comparable p c ctx ↔ ProtocolMatches ctx c ∧ FallbackPermitted o p current c := by
  obtain ⟨hkeys,hselected⟩ := h
  have hfallback : (p.allowFallback = false → c.effectiveRoute ≠ none) ↔ FallbackPermitted o p current c := by
    rw [FallbackPermitted,routeKey_ne_none]
    cases hallow : p.allowFallback with
    | true => simp
    | false => simpa using fun _ => hkeys.resolve_left (by simp [hallow])
  refine and_congr (forall₂_congr fun name hname => ?_) hfallback
  cases hactual : c.actualRoute with
  | some served => simp [effectiveRoute,hactual]
  | none => cases hroute : c.routeIdentity with
    | none => simp [effectiveRoute,hactual,hroute]
    | some r => simpa [effectiveRoute,hactual,hroute] using hselected name hname r hroute

theorem going_of_legal (h : compileTransitions o p current candidates ctx at_ = .ok g) (he : e ∈ g.legalEdges)
    (hkind : e.kind ≠ .terminal) : ctx.terminal = false ∧ Allowed o p.toPolicy at_ current = true := by
  cases hend : ctx.terminal with
  | true =>
    obtain ⟨e',hedges,hterminal⟩ := edges_of_terminal h hend
    have hmem := (mem_filter.mp he).1
    rw [hedges,List.mem_singleton] at hmem
    exact absurd (hmem ▸ hterminal) hkind
  | false => cases hcurrent : Allowed o p.toPolicy at_ current with
    | true => exact ⟨rfl,rfl⟩
    | false =>
      rw [legalEdges_of_refused h hend hcurrent] at he
      exact absurd he not_mem_nil

theorem kind_of_going (h : compileTransitions o p current candidates ctx at_ = .ok g) (hgoing : ctx.terminal = false)
    (he : e ∈ g.legalEdges) : e.kind ≠ .terminal := by
  cases hcurrent : Allowed o p.toPolicy at_ current with
  | false =>
    rw [legalEdges_of_refused h hgoing hcurrent] at he
    exact absurd he not_mem_nil
  | true =>
    rcases (mem_legalEdges h hgoing hcurrent).mp he with rfl | ⟨c,-,-,d,-,rfl,-⟩
    · simp [initialEdge,edge]
    · exact (edgeTo_leads d).2

theorem closed_of_gated (h : compileTransitions o p current candidates ctx at_ = .ok g) (hgated : Gated o p current candidates ctx at_) :
    FailClosed o p current candidates ctx at_ g := by
  have hlegal : ∀ e ∈ g.legalEdges, e.kind ≠ .terminal → (match ctx.byteState with
      | .bytesEmitted => ctx.checkpointVerified = true ∧ current.effectiveRoute ≠ none
      | .preBytes => Retriable p ctx → ∀ c ∈ considered current candidates, c.candidateId ≠ current.candidateId →
          Allowed o p.toPolicy at_ c = true → Compared o p current c ctx → Comparable p c ctx) ∧
      (e = initialEdge o current ∨ ∃ c ∈ considered current candidates, c.candidateId ≠ current.candidateId ∧
        ∃ d, evaluate o p.toPolicy c at_ = .ok d ∧ e = edgeTo o p current ctx c d ∧ e.legal = true) := by
    intro e he hkind
    obtain ⟨hgoing,hcurrent⟩ := going_of_legal h he hkind
    exact ⟨(hgated.resolve_left (by simp [hgoing])).resolve_left (by simp [hcurrent]),(mem_legalEdges h hgoing hcurrent).mp he⟩
  refine ⟨fun e he hkind => ?_,fun hbytes hcheckpoint e he => ?_,fun hbytes hcheckpoint e he hkind => ?_,
    fun hbytes e he hkind c hc hleads hother => ?_,edges_of_terminal h⟩
  · obtain ⟨-,rfl | ⟨c,hc,-,d,heval,rfl,htrue⟩⟩ := hlegal e he hkind
    · exact ⟨current,current_mem,⟨rfl,rfl⟩,(going_of_legal h he hkind).2⟩
    · refine ⟨c,hc,(edgeTo_leads d).1,?_⟩
      rw [allowed_eq heval,(edgeTo_legal.mp htrue).1]
      rfl
  · by_contra hkind
    obtain ⟨hgate,-⟩ := hlegal e he hkind
    rw [hbytes] at hgate
    exact absurd (hgate.1.symm.trans hcheckpoint) (by decide)
  · obtain ⟨hgate,rfl | ⟨c,hc,-,d,heval,rfl,htrue⟩⟩ := hlegal e he hkind
    · rw [hbytes] at hgate
      exact ⟨rfl,routeKey_ne_none.mpr hgate.2⟩
    · obtain ⟨-,hpass⟩ := edgeTo_legal.mp htrue
      rw [hbytes] at hgate hpass
      rw [(edgeTo_leads d).1.2,hpass.2]
      exact ⟨rfl,routeKey_ne_none.mpr hgate.2⟩
  · obtain ⟨hgate,rfl | ⟨c',hc',hother',d,heval,rfl,htrue⟩⟩ := hlegal e he hkind
    · exact absurd hleads.1.symm hother
    · have hsame : c' = c := List.inj_on_of_nodup_map (compileTransitions_ok h).1 hc' hc ((edgeTo_leads d).1.1.symm.trans hleads.1)
      subst hsame
      obtain ⟨hallow,hpass⟩ := edgeTo_legal.mp htrue
      rw [hbytes] at hgate hpass
      have hallowed : Allowed o p.toPolicy at_ c' = true := by
        rw [allowed_eq heval,hallow]
        rfl
      exact ⟨hpass.1,(comparable_iff hpass.2).mp (hgate hpass.1 c' hc hother hallowed hpass.2)⟩

/-- A graph is fail-closed exactly when its context is gated. -/
theorem failClosed_iff_gated (o : Outside) (p : RetryPolicy) (current : PolicyCandidate) (candidates : List PolicyCandidate)
    (ctx : ExecutionContext) (at_ : ℤ) (g : TransitionGraph) (h : compileTransitions o p current candidates ctx at_ = .ok g) :
    FailClosed o p current candidates ctx at_ g ↔ Gated o p current candidates ctx at_ := by
  refine ⟨fun hclosed => ?_,closed_of_gated h⟩
  cases hend : ctx.terminal with
  | true => exact .inl hend
  | false => cases hcurrent : Allowed o p.toPolicy at_ current with
    | false => exact .inr (.inl hcurrent)
    | true =>
      have hmem := fun e => mem_legalEdges (e := e) h hend hcurrent
      have hinitial := (hmem (initialEdge o current)).mpr (.inl rfl)
      have hkind : (initialEdge o current).kind ≠ .terminal := by simp [initialEdge,edge]
      refine .inr (.inr ?_)
      cases hbytes : ctx.byteState with
      | bytesEmitted => cases hcheckpoint : ctx.checkpointVerified with
        | false => exact absurd (hclosed.unverified hbytes hcheckpoint _ hinitial) hkind
        | true => exact ⟨rfl,routeKey_ne_none.mp (hclosed.verified hbytes hcheckpoint _ hinitial hkind).2⟩
      | preBytes =>
        intro hretriable c hc hother hallowed hcompared
        obtain ⟨-,ds,dcur,hall,-⟩ := compileTransitions_ok h
        obtain ⟨d,-,heval⟩ := hall c hc
        rw [allowed_eq heval,decide_eq_true_eq] at hallowed
        have hlegal : (edgeTo o p current ctx c d).legal = true := edgeTo_legal.mpr ⟨hallowed,by rw [hbytes]; exact ⟨hretriable,hcompared⟩⟩
        have hedge := (hmem _).mpr (.inr ⟨c,hc,hother,d,heval,rfl,hlegal⟩)
        exact (comparable_iff hcompared).mpr (hclosed.before hbytes _ hedge (edgeTo_leads d).2 c hc (edgeTo_leads d).1 hother).2

/-! ### At two inputs -/

def sampleRoute : RouteIdentity := ⟨"gateway","provider","connection","endpoint","openai","model",none,none,none,[],[]⟩

def primary : PolicyCandidate := {candidateId := "a/primary", routeIdentity := some sampleRoute, availability := "eligible"}

def backup : PolicyCandidate := {candidateId := "b/backup", routeIdentity := some sampleRoute, availability := "eligible"}

def emitted : ExecutionContext := {requestId := "req-3", byteState := .bytesEmitted}

def retriable : ExecutionContext where
  requestId := "req-1"
  idempotencyKey := some "idem-1"
  retrySafety := .safe
  protocol := some "openai"
  protocolNamed := by simp; decide

theorem safe_retry_closed : ∃ g, compileTransitions ⟨id,fun _ => ""⟩ {} primary [backup] retriable 0 = .ok g ∧
    FailClosed ⟨id,fun _ => ""⟩ {} primary [backup] retriable 0 g := by
  have hok : (compileTransitions ⟨id,fun _ => ""⟩ {} primary [backup] retriable 0).isOk = true := by decide +kernel
  obtain ⟨g,hg⟩ := ok_of_isOk hok
  refine ⟨g,hg,(failClosed_iff_gated _ _ _ _ _ _ g hg).mpr (.inr (.inr fun _ c hc _ _ _ => ?_))⟩
  have hconsidered : considered primary [backup] = [primary,backup] := by
    simp only [considered,FreshKeys.addAll,FreshKeys.addNew,List.foldl_cons,List.foldl_nil]
    rfl
  rw [hconsidered] at hc
  have hroute : c.actualRoute = none ∧ c.routeIdentity = some sampleRoute := by
    rcases List.mem_pair.mp hc with rfl | rfl <;> exact ⟨rfl,rfl⟩
  exact ⟨fun name hname => ⟨by simp [effectiveRoute,hroute.2],by simp [hroute.1]⟩,fun hfallback => absurd hfallback (by decide)⟩

/-- The initial attempt is a legal edge behind bytes. -/
theorem initial_edge_behind_bytes : ¬ ∀ o p current candidates ctx at_ g, compileTransitions o p current candidates ctx at_ = .ok g →
    FailClosed o p current candidates ctx at_ g := by
  intro h
  have hok : (compileTransitions ⟨id,fun _ => ""⟩ {} primary [backup] emitted 0).isOk = true := by decide +kernel
  obtain ⟨g,hg⟩ := ok_of_isOk hok
  have hinitial := (mem_legalEdges (e := initialEdge ⟨id,fun _ => ""⟩ primary) hg rfl (by decide +kernel)).mpr (.inl rfl)
  exact absurd ((h _ _ _ _ _ _ g hg).unverified rfl rfl _ hinitial) (by decide)

/-! ### The relay -/

variable {attempts : List RelayAttempt} {attempt : RelayAttempt} {index : ℕ} {r : RelayRequest}

theorem relay_graph_closed (h : compileTransitions o (relayPolicy r.isProtected r.protocol) attempt.candidate (attempts.map (·.candidate)) (r.context index) at_ = .ok g) :
    FailClosed o (relayPolicy r.isProtected r.protocol) attempt.candidate (attempts.map (·.candidate)) (r.context index) at_ g := by
  refine closed_of_gated h (.inr (.inr fun _ c hc hother _ _ => ?_))
  obtain ⟨a,rfl⟩ : ∃ a : RelayAttempt, a.candidate = c := by
    rcases mem_cons.mp (mem_of_considered hc) with rfl | hmem
    · exact absurd rfl hother
    · obtain ⟨a,-,ha⟩ := mem_map.mp hmem
      exact ⟨a,ha⟩
  have hknown : a.candidate.effectiveRoute ≠ none := by
    rw [effectiveRoute,a.notServed,a.candidateRoute]
    exact Option.some_ne_none _
  exact ⟨fun _ _ => ⟨hknown,by simp [a.notServed]⟩,fun _ => hknown⟩

/-- What a gateway will serve is not known before it has: no candidate of the relay is allowed for protected work. -/
theorem relay_not_allowed (a : RelayAttempt) {protocol : String} :
    Allowed o (relayPolicy true protocol).toPolicy at_ a.candidate = false := by
  cases heval : evaluate o (relayPolicy true protocol).toPolicy a.candidate at_ with
  | error fault => rw [Allowed,heval]
  | ok d =>
    rw [allowed_eq heval,decide_eq_false_iff_not,allow_iff heval]
    exact fun hallow => hallow.2.1.actualKnown ⟨rfl,rfl,a.notServed⟩

variable {isOpaqueAlias : String → Bool}

theorem relay_edge_gated (h : transitionEdge isOpaqueAlias o attempts index r at_ = .ok (some e)) (hlegal : e.legal = true) :
    ∃ attempt target rest, attempts.drop index = attempt :: target :: rest ∧ r.isProtected = false ∧
      (target.candidate.candidateId ≠ attempt.candidate.candidateId → Retriable (relayPolicy r.isProtected r.protocol) (r.context index) ∧
        ∃ a ∈ attempt :: target :: rest, Leads o e a.candidate ∧ a.route.protocol = r.protocol) := by
  unfold transitionEdge at h
  split at h
  · next attempt target rest hdrop =>
    split at h
    · cases h
      cases hlegal
    · obtain ⟨g,hg,h⟩ := bind_ok.mp h
      have hfound := Except.ok.inj h
      have hmem : e ∈ g.legalEdges := mem_filter.mpr ⟨List.mem_of_find?_eq_some hfound,hlegal⟩
      have htarget : e.target = target.candidate.candidateId := by simpa using List.find?_some hfound
      have hkind := kind_of_going hg rfl hmem
      have hprotected : r.isProtected = false := by
        by_contra hprotected
        have hallowed := (going_of_legal hg hmem hkind).2
        rw [Bool.eq_true_of_not_eq_false hprotected,relay_not_allowed] at hallowed
        cases hallowed
      refine ⟨attempt,target,rest,hdrop,hprotected,fun hother => ?_⟩
      have hclosed := relay_graph_closed hg
      obtain ⟨c,hc,hleads,-⟩ := hclosed.allowed e hmem hkind
      have hcother : c.candidateId ≠ attempt.candidate.candidateId := by rwa [← hleads.1,htarget]
      obtain ⟨hretriable,hprotocol,-⟩ := hclosed.before rfl e hmem hkind c hc hleads hcother
      obtain ⟨a,ha,rfl⟩ : ∃ a ∈ attempt :: target :: rest, a.candidate = c := by
        rcases mem_cons.mp (mem_of_considered hc) with rfl | hrest
        · exact absurd rfl hcother
        · obtain ⟨a,ha,hac⟩ := mem_map.mp hrest
          exact ⟨a,List.mem_cons_of_mem _ ha,hac⟩
      refine ⟨hretriable,a,ha,hleads,?_⟩
      obtain ⟨route,hroute,hmatch⟩ := hprotocol r.protocol rfl
      rw [effectiveRoute,a.notServed,a.candidateRoute] at hroute
      cases hroute
      exact hmatch
  · cases h

theorem relay_edge_target {rest : List RelayAttempt}
    {target : RelayAttempt} (hdrop : attempts.drop index = attempt :: target :: rest)
    (h : transitionEdge isOpaqueAlias o attempts index r at_ = .ok (some e)) : e.target = target.candidate.candidateId := by
  unfold transitionEdge at h
  rw [hdrop] at h
  dsimp only at h
  split at h
  · cases h
    rfl
  · obtain ⟨g,-,h⟩ := bind_ok.mp h
    simpa using List.find?_some (Except.ok.inj h)

theorem relay_edge_next {i : ℕ} (hids : (attempts.map fun a => a.candidate.candidateId).Nodup)
    (h : transitionEdge isOpaqueAlias o attempts i r at_ = .ok (some e)) (hlegal : e.legal = true) :
    (r.safety = .safe ∧ r.key.getD "" ≠ "" ∧ r.isProtected = false ∧ i < 3) ∧ ∃ a target, attempts[i]? =
    some a ∧ attempts[i+1]? = some target ∧ target.route.protocol = r.protocol := by
  obtain ⟨attempt,target,rest,hdrop,hprotected,hgated⟩ := relay_edge_gated h hlegal
  have hrow : (((attempt :: target :: rest).map fun a => a.candidate.candidateId)).Nodup := by
    rw [← hdrop,List.map_drop]
    exact hids.sublist (List.drop_sublist _ _)
  have hother : target.candidate.candidateId ≠ attempt.candidate.candidateId := by
    rintro heq
    simp [heq] at hrow
  obtain ⟨⟨hsafe,hkey,hattempt⟩,a,ha,hleads,hprotocol⟩ := hgated hother
  obtain rfl : a = target :=
    List.inj_on_of_nodup_map hrow ha (by simp) (hleads.1.symm.trans (relay_edge_target hdrop h))
  refine ⟨⟨hsafe,hkey rfl,hprotected,hattempt⟩,attempt,a,?_,?_,hprotocol⟩
  · rw [← Nat.add_zero i,← List.getElem?_drop,hdrop]
    rfl
  · rw [← List.getElem?_drop,hdrop]
    rfl

/-- However often the clock is read in between: a row of attempts in which every edge up to some attempt is legal is followed
three times at most, only for a request that may be repeated and is not protected, and only over routes that speak its
protocol. -/
theorem relay_bounded {n : ℕ} (hids : (attempts.map fun a => a.candidate.candidateId).Nodup)
    (h : ∀ i < n, ∃ at_ e, transitionEdge isOpaqueAlias o attempts i r at_ = .ok (some e) ∧ e.legal = true)
    : n ≤ 3 ∧ (0 < n → r.safety = .safe ∧ r.key.getD "" ≠ "" ∧ r.isProtected = false) ∧ ∀ i < n, ∃ a target,
    attempts[i]? = some a ∧ attempts[i+1]? = some target ∧ target.route.protocol = r.protocol := by
  have hedge : ∀ i < n, (r.safety = .safe ∧ r.key.getD "" ≠ "" ∧ r.isProtected = false ∧ i < 3) ∧ ∃ a target,
      attempts[i]? = some a ∧ attempts[i+1]? = some target ∧ target.route.protocol = r.protocol := by
    intro i hi
    obtain ⟨at_,e,he,hlegal⟩ := h i hi
    exact relay_edge_next hids he hlegal
  refine ⟨?_,fun hpos => ?_,fun i hi => (hedge i hi).2⟩
  · by_contra hmore
    exact absurd (hedge 3 (by omega)).1.2.2.2 (by decide)
  · obtain ⟨⟨hsafe,hkey,hprotected,-⟩,-⟩ := hedge 0 hpos
    exact ⟨hsafe,hkey,hprotected⟩

def sampleAttempts : List RelayAttempt := [{model := "m1", route := sampleRoute, candidate := primary},
  {model := "m2", route := sampleRoute, candidate := backup}]

def sampleRequest : RelayRequest := ⟨"req-1",some "idem-1",.safe,"openai",false,by decide,by decide⟩

theorem relay_bounded_once : ∃ e, transitionEdge (fun _ => false) ⟨id,fun _ => ""⟩ sampleAttempts 0 sampleRequest 0 = .ok (some e) ∧
    e.legal = true ∧ sampleRequest.key.getD "" ≠ "" := by
  have hany : (transitionEdge (fun _ => false) ⟨id,fun _ => ""⟩ sampleAttempts 0 sampleRequest 0).toOption.join.any (·.legal) = true := by
    decide +kernel
  obtain ⟨e,he,hlegal⟩ : ∃ e, transitionEdge (fun _ => false) ⟨id,fun _ => ""⟩ sampleAttempts 0 sampleRequest 0 = .ok (some e) ∧
      e.legal = true := by
    cases he : transitionEdge (fun _ => false) ⟨id,fun _ => ""⟩ sampleAttempts 0 sampleRequest 0 with
    | error _ => rw [he] at hany; cases hany
    | ok edge => cases edge with
      | none => rw [he] at hany; cases hany
      | some e => rw [he] at hany; exact ⟨e,rfl,hany⟩
  have hedges : ∀ i < 1, ∃ at_ e, transitionEdge (fun _ => false) ⟨id,fun _ => ""⟩ sampleAttempts i sampleRequest at_ = .ok (some e) ∧
      e.legal = true := by
    intro i hi
    obtain rfl := Nat.lt_one_iff.mp hi
    exact ⟨0,e,he,hlegal⟩
  exact ⟨e,he,hlegal,((relay_bounded (by decide) hedges).2.1 one_pos).2.1⟩

end Verdict.Policy

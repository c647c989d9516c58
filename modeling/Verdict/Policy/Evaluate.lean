import Mathlib.Data.List.Dedup
import Mathlib.Data.List.Infix
import Mathlib.Data.List.Sort
import Mathlib.Data.Prod.Lex
import Mathlib.Order.WithBot
import Verdict.Policy.Passport

/-! # The hard policy

A candidate is evaluated step by step. Each step notes reasons, remedies, and whether something
is unknown; the decision is read off the notes, in two places by the words of the reasons.
-/
namespace Verdict.Policy
open Json

/-- `repr` of a text, and the digest that is a route's key. -/
structure Outside where
  repr : String → String
  digest : Json → String

structure PolicyCandidate where
  candidateId : String
  routeIdentity : Option RouteIdentity := none
  passport : Option CapabilityPassport := none
  runtimePassports : List RuntimeCapabilityPassport := []
  availability : String := "unknown"
  evidenceIds : List String := []
  cost : Option ℚ := none
  qualityScore : Option ℚ := none
  selectedRoute : Option RouteIdentity := none
  actualRoute : Option RouteIdentity := none
  selectedMatches : ∀ s ∈ selectedRoute, ∀ r ∈ routeIdentity, s = r := by simp
  passportMatches : ∀ p ∈ passport, ∀ r ∈ routeIdentity, p.routeIdentity = r := by simp

def PolicyCandidate.effectiveRoute (c : PolicyCandidate) : Option RouteIdentity := c.actualRoute.or c.routeIdentity

def PolicyCandidate.routeKey (o : Outside) (c : PolicyCandidate) : Option String :=
  c.effectiveRoute.map fun r => o.digest (canon (.obj r.toDict))

structure Policy where
  version : String := "policy-2"
  requiredCapabilities : List String := []
  requiredRuntimeCapabilities : List String := []
  allowedProviders : List String := []
  deniedProviders : List String := []
  allowedProtocols : List String := []
  isProtected : Bool := false
  allowDegraded : Bool := false
  allowStaleEvidence : Bool := false
  requireRouteIdentity : Bool := true
  requireActualIdentity : Bool := true
  restrictedDataRoutes : List String := []
  restrictedData : Bool := false
  protectedFresh : ¬(isProtected = true ∧ allowStaleEvidence = true) := by simp

inductive DecisionState
  | allow | deny | unknown
  deriving DecidableEq

structure Notes where
  reasons : List String := []
  remediation : List String := []
  unknown : Bool := false
  stale : Bool := false

def Notes.add (a b : Notes) : Notes :=
  ⟨a.reasons ++ b.reasons,a.remediation ++ b.remediation,a.unknown || b.unknown,a.stale || b.stale⟩

def Notes.join : List Notes → Notes
  | [] => {}
  | n :: ns => n.add (Notes.join ns)

def noteIf (c : Prop) [Decidable c] (n : Notes) : Notes := if c then n else {}

structure PolicyDecision where
  candidateId : String
  decision : DecisionState
  policyVersion : String
  checkedAt : ℤ
  (reasons remediation evidenceIds : List String)
  routeKey : Option String
  staleEvidence : Bool
  deriving DecidableEq

/-- `needle in text`. -/
def Mentions (needle text : String) : Prop := needle.toList <:+: text.toList

instance (needle text : String) : Decidable (Mentions needle text) := inferInstanceAs (Decidable (_ <:+: _))

/-- `tuple(dict.fromkeys(values))`: the first of equal texts is kept. -/
def firsts : List String → List String
  | [] => []
  | x :: xs => x :: (firsts xs).filter (· ≠ x)

section evaluate
variable (o : Outside) (p : Policy) (c : PolicyCandidate)

/-! ### Identity -/

def routeNotes (r : RouteIdentity) : Notes :=
  ((noteIf (p.allowedProviders ≠ [] ∧ r.provider ∉ p.allowedProviders)
      {reasons := ["provider " ++ o.repr r.provider ++ " is not allowed"]
       remediation := ["add the provider to the policy or select an allowed route"]}).add
    (noteIf (r.provider ∈ p.deniedProviders) {reasons := ["provider " ++ o.repr r.provider ++ " is denied"]})).add
    (noteIf (p.allowedProtocols ≠ [] ∧ r.protocol ∉ p.allowedProtocols)
      {reasons := ["protocol " ++ o.repr r.protocol ++ " is not allowed"]
       remediation := ["qualify the required protocol surface"]})

def identityNotes : Notes :=
  (match c.routeIdentity with
    | none => noteIf (p.requireRouteIdentity = true)
        {reasons := ["exact route identity is unknown"]
         remediation := ["resolve gateway, provider, connection, endpoint, and model revision"]
         unknown := true}
    | some r => routeNotes o p r).add
  (noteIf (p.isProtected = true ∧ p.requireActualIdentity = true ∧ c.actualRoute = none)
    {reasons := ["actual served route identity is unknown"]
     remediation := ["observe and attest the served gateway, provider, connection, and model"]
     unknown := true})

/-! ### Restricted data and availability -/

def restrictedRefused : Prop := p.restrictedData = true ∧ ∀ key ∈ c.routeKey o, key ∉ p.restrictedDataRoutes

instance : Decidable (restrictedRefused o p c) := by
  unfold restrictedRefused
  infer_instance

def refusedAvailability : List String :=
  ["denied","unavailable","unauthorized","quota_exhausted","rate_limited","timeout","malformed","policy_denied","capability_mismatch"]

def unknownAvailability : List String := ["unknown","stale","error","circuit_open","locked_out"]

def degradedRefused : Prop := c.availability = "degraded" ∧ ¬(p.allowDegraded = true ∧ p.isProtected = false)

instance : Decidable (degradedRefused p c) := inferInstanceAs (Decidable (_ ∧ _))

def availabilityNotes : Notes :=
  noteIf (c.availability ∈ unknownAvailability)
    {reasons := ["availability is " ++ c.availability], remediation := ["obtain a fresh direct runtime observation"], unknown := true}

/-! ### Capabilities -/

def sorted (names : List String) : List String := names.dedup.insertionSort (· ≤ ·)

def staleAllowed (d : CapabilityDecision) : Prop :=
  p.allowStaleEvidence = true ∧ p.isProtected = false ∧
    ∃ e ∈ d.observed, e.status = .supported ∧ e.authority.direct = true

instance (d : CapabilityDecision) : Decidable (staleAllowed p d) := by
  unfold staleAllowed
  infer_instance

variable (name : String)

def staleReason : String := "capability " ++ o.repr name ++ " allowed by explicit stale mode"

def capabilityNote (d : CapabilityDecision) : Notes := match d.status with
  | .supported => {}
  | .unsupported =>
    {reasons := ["capability " ++ o.repr name ++ " is unsupported"], remediation := ["select a route with a fresh " ++ name ++ " observation"]}
  | .unknown =>
    if staleAllowed p d then {reasons := [staleReason o name], stale := true}
    else {reasons := ["capability " ++ o.repr name ++ " is unknown"], remediation := ["refresh direct evidence for " ++ name], unknown := true}

variable (at_ : ℤ)

def capabilityNotes : Except PassportError Notes :=
  if p.requiredCapabilities = [] then .ok {}
  else match c.passport with
    | none =>
      .ok {reasons := ["capability passport is missing"], remediation := ["qualify the exact route and publish a fresh passport"],
           unknown := true}
    | some passport =>
      ((sorted p.requiredCapabilities).mapM fun name => (passport.resolve name at_).map (capabilityNote o p name)).map fun notes =>
        (noteIf (∃ r ∈ c.effectiveRoute, passport.routeIdentity ≠ r)
          {reasons := ["capability passport identity does not match route"]
           remediation := ["publish a passport for the selected exact route"]
           unknown := true}).add (Notes.join notes)

def runtimeMatches : List RuntimeCapabilityPassport := match c.effectiveRoute with
  | none => c.runtimePassports
  | some r => c.runtimePassports.filter (·.scope = r.connection)

def runtimeNote (ds : List RuntimeCapabilityDecision) : Notes :=
  if ds.any (·.status = .unsupported) then {reasons := ["runtime capability " ++ o.repr name ++ " is unsupported"]}
  else if !ds.any (·.status = .supported) then
    {reasons := ["runtime capability " ++ o.repr name ++ " is unknown"]
     remediation := ["negotiate direct evidence for runtime " ++ name]
     unknown := true}
  else {}

def runtimeNotes : Except PassportError Notes :=
  if p.requiredRuntimeCapabilities = [] then .ok {}
  else if c.runtimePassports = [] then
    .ok {reasons := ["runtime capability passport is missing"], remediation := ["negotiate the required tool or peer capability"],
         unknown := true}
  else ((sorted p.requiredRuntimeCapabilities).mapM fun name =>
      ((runtimeMatches c).mapM fun (item : RuntimeCapabilityPassport) => item.resolve name at_).map (runtimeNote o name)).map fun notes =>
    (noteIf (runtimeMatches c = [])
      {reasons := ["runtime capability passport scope does not match route"]
       remediation := ["publish a runtime passport for the selected connection"]
       unknown := true}).add (Notes.join notes)

/-! ### The decision -/

def decisionOf (state : DecisionState) (at_ : ℤ) (n : Notes) : PolicyDecision :=
  ⟨c.candidateId,state,p.version,at_,firsts n.reasons,firsts n.remediation,c.evidenceIds,c.routeKey o,n.stale⟩

def conclude (n : Notes) : PolicyDecision :=
  if n.reasons.any fun item => Mentions "unsupported" item then decisionOf o p c .deny at_ n
  else if n.unknown then decisionOf o p c .unknown at_ n
  else decisionOf o p c .allow at_ (if n.reasons = [] then {n with reasons := ["all hard predicates passed"]} else n)

/-- `Policy.evaluate`. -/
def evaluate : Except PassportError PolicyDecision :=
  let n := identityNotes o p c
  if n.reasons.any fun item => Mentions "not allowed" item ∨ Mentions "is denied" item then .ok (decisionOf o p c .deny at_ n)
  else if restrictedRefused o p c then
    .ok (decisionOf o p c .deny at_ (n.add {reasons := ["route is not qualified for restricted data"]
                                            remediation := ["add the route key to restricted_data_routes after reviewing its data handling"]}))
  else if c.availability ∈ refusedAvailability then
    .ok (decisionOf o p c .deny at_ (n.add {reasons := ["availability is " ++ c.availability]
                                            remediation := ["refresh live availability and resolve the reported failure"]}))
  else if degradedRefused p c then
    .ok (decisionOf o p c .deny at_ (n.add {reasons := ["degraded availability is not permitted"]
                                            remediation := ["refresh the route or use an explicit non-protected degraded policy"]}))
  else match capabilityNotes o p c at_, runtimeNotes o p c at_ with
    | .error e, _ => .error e
    | .ok _, .error e => .error e
    | .ok caps, .ok runtime => .ok (conclude o p c at_ (((n.add (availabilityNotes c)).add caps).add runtime))

end evaluate

/-! ### Compiling -/

structure EligibilityCompilation where
  policyVersion : String
  decisions : List PolicyDecision
  eligible : List PolicyCandidate
  compiledAt : ℤ

inductive CompileError
  | duplicateIds
  | passport (e : PassportError)

/-- The order of the eligible candidates: by score, then by cost, an unknown one last, then by id. -/
def rankKey (ranking : String → Option ℚ) (c : PolicyCandidate) : Lex (ℚ × Lex (WithTop ℚ × String)) :=
  toLex (-(ranking c.candidateId).getD (c.qualityScore.getD 0),
    toLex ((match c.cost with
      | some cost => (cost : WithTop ℚ)
      | none => ⊤),c.candidateId))

/-- `Policy.compile`. -/
def compile (o : Outside) (p : Policy) (candidates : List PolicyCandidate) (at_ : ℤ) (ranking : String → Option ℚ) :
    Except CompileError EligibilityCompilation :=
  if ¬(candidates.map PolicyCandidate.candidateId).Nodup then .error .duplicateIds
  else match candidates.mapM fun c => evaluate o p c at_ with
    | .error e => .error (.passport e)
    | .ok decisions =>
      let allowed := ((candidates.zip decisions).filter fun e => e.2.decision = .allow).map Prod.fst
      .ok ⟨p.version,decisions,allowed.insertionSort fun a b => rankKey ranking a ≤ rankKey ranking b,at_⟩

end Verdict.Policy

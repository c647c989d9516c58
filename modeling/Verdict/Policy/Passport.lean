import Verdict.Basics.PyJson
import Verdict.Basics.Raising

/-! # Passports

A passport says which capabilities of a route, or of a tool or peer that it talks to, were
found to work, and until when. Asking it for a capability answers supported, unsupported or
unknown, and refuses a name that no passport can hold. Times are whole microseconds.
-/
namespace Verdict.Policy
open Json

inductive CapabilityStatus
  | supported | unsupported | unknown
  deriving DecidableEq

inductive EvidenceAuthority
  | claimed | observed | verified | inferred

def EvidenceAuthority.value : EvidenceAuthority → String
  | .claimed => "claimed"
  | .observed => "observed"
  | .verified => "verified"
  | .inferred => "inferred"

def CapabilityStatus.value : CapabilityStatus → String
  | .supported => "supported"
  | .unsupported => "unsupported"
  | .unknown => "unknown"

/-- `authority in {OBSERVED, VERIFIED}`. -/
def EvidenceAuthority.direct : EvidenceAuthority → Bool
  | .observed | .verified => true
  | .claimed | .inferred => false

structure RouteIdentity where
  (gateway provider connection endpoint protocol modelId : String)
  modelRevision : Option String := none
  accountClass : Option String := none
  endpointClass : Option String := none
  transformationChain : List String := []
  fallbackChain : List String := []
  deriving DecidableEq

/-- What is not there is left out. -/
def RouteIdentity.toDict (r : RouteIdentity) : Fields :=
  [("gateway",.str r.gateway),("provider",.str r.provider),("connection",.str r.connection),("endpoint",.str r.endpoint),
   ("protocol",.str r.protocol),("model_id",.str r.modelId)] ++
  (r.modelRevision.map fun s => ("model_revision",Json.str s)).toList ++
  (r.accountClass.map fun s => ("account_class",Json.str s)).toList ++
  (r.endpointClass.map fun s => ("endpoint_class",Json.str s)).toList ++
  (if r.transformationChain = [] then [] else [("transformation_chain",.arr (r.transformationChain.map .str))]) ++
  (if r.fallbackChain = [] then [] else [("fallback_chain",.arr (r.fallbackChain.map .str))])

structure CapabilityEvidence where
  status : CapabilityStatus
  expiresAt : ℤ
  authority : EvidenceAuthority := .observed

def CapabilityEvidence.isCurrent (e : CapabilityEvidence) (at_ : ℤ) : Bool := at_ < e.expiresAt

def fresh (item : Option CapabilityEvidence) (at_ : ℤ) : Option CapabilityEvidence := item.filter (·.isCurrent at_)

inductive PassportError
  | capabilityName
  deriving DecidableEq

/-- `^[a-z][a-z0-9_.-]*$`. -/
def isCapabilityName (name : String) : Bool := match name.toList with
  | [] => false
  | c :: cs => ('a' ≤ c ∧ c ≤ 'z') ∧
    cs.all fun c => ('a' ≤ c ∧ c ≤ 'z') ∨ ('0' ≤ c ∧ c ≤ '9') ∨ c = '_' ∨ c = '.' ∨ c = '-'

structure CapabilityDecision where
  capability : String
  status : CapabilityStatus
  reason : String
  (claimed observed : Option CapabilityEvidence)

structure CapabilityPassport where
  routeIdentity : RouteIdentity
  expiresAt : ℤ
  claimed : List (String × CapabilityEvidence) := []
  observed : List (String × CapabilityEvidence) := []

variable (p : CapabilityPassport)

/-- `CapabilityPassport.resolve`. -/
def CapabilityPassport.resolve (name : String) (at_ : ℤ) : Except PassportError CapabilityDecision :=
  if isCapabilityName name = false then .error .capabilityName
  else
    let observation := p.observed.lookup name
    let freshClaim := fresh (p.claimed.lookup name) at_
    let freshObservation := fresh observation at_
    if p.expiresAt ≤ at_ then .ok ⟨name,.unknown,"passport expired",freshClaim,freshObservation⟩
    else match freshObservation with
      | none =>
        .ok ⟨name,.unknown,if observation.isSome then "observation expired" else "observation missing",freshClaim,observation⟩
      | some e =>
        if e.authority.direct = false then
          .ok ⟨name,.unknown,"observation authority " ++ e.authority.value ++ " is not direct",freshClaim,some e⟩
        else .ok ⟨name,e.status,"fresh observation is " ++ e.status.value,freshClaim,some e⟩

structure RuntimeCapabilityDecision where
  capability : String
  status : CapabilityStatus
  reason : String
  (declared observed negotiated : Option CapabilityEvidence)

structure RuntimeCapabilityPassport where
  scope : String := "default"
  expiresAt : ℤ
  declared : List (String × CapabilityEvidence) := []
  observed : List (String × CapabilityEvidence) := []
  negotiated : List (String × CapabilityEvidence) := []

/-- `RuntimeCapabilityPassport.resolve`. -/
def RuntimeCapabilityPassport.resolve (p : RuntimeCapabilityPassport) (name : String) (at_ : ℤ) :
    Except PassportError RuntimeCapabilityDecision :=
  if isCapabilityName name = false then .error .capabilityName
  else
    let declared := fresh (p.declared.lookup name) at_
    let observed := fresh (p.observed.lookup name) at_
    let negotiatedItem := p.negotiated.lookup name
    let negotiated := fresh negotiatedItem at_
    if p.expiresAt ≤ at_ then .ok ⟨name,.unknown,"passport expired",declared,observed,negotiated⟩
    else if observed.map CapabilityEvidence.status = some .unsupported then
      .ok ⟨name,.unsupported,"fresh observation is unsupported",declared,observed,negotiated⟩
    else match negotiated with
      | none =>
        .ok ⟨name,.unknown,if negotiatedItem.isSome then "negotiation expired" else "negotiation missing",declared,observed,
          negotiatedItem⟩
      | some e =>
        if e.authority.direct = false then
          .ok ⟨name,.unknown,"negotiation authority " ++ e.authority.value ++ " is not direct",declared,observed,some e⟩
        else .ok ⟨name,e.status,"fresh negotiation is " ++ e.status.value,declared,observed,some e⟩

/-! ### When a passport answers -/

theorem CapabilityPassport.resolve_isOk (name : String) (at_ : ℤ) :
    (∃ d, p.resolve name at_ = .ok d) ↔ isCapabilityName name = true := by
  rw [CapabilityPassport.resolve]
  cases hname : isCapabilityName name with
  | false => exact iff_of_false (fun ⟨_,h⟩ => nomatch h) Bool.noConfusion
  | true =>
    refine iff_of_true ?_ rfl
    rw [if_neg Bool.noConfusion]
    dsimp only
    split
    · exact ⟨_,rfl⟩
    · split
      · exact ⟨_,rfl⟩
      · split <;> exact ⟨_,rfl⟩

theorem RuntimeCapabilityPassport.resolve_isOk (p : RuntimeCapabilityPassport) (name : String) (at_ : ℤ) :
    (∃ d, p.resolve name at_ = .ok d) ↔ isCapabilityName name = true := by
  rw [RuntimeCapabilityPassport.resolve]
  cases hname : isCapabilityName name with
  | false => exact iff_of_false (fun ⟨_,h⟩ => nomatch h) Bool.noConfusion
  | true =>
    refine iff_of_true ?_ rfl
    rw [if_neg Bool.noConfusion]
    dsimp only
    split
    · exact ⟨_,rfl⟩
    · split
      · exact ⟨_,rfl⟩
      · split
        · exact ⟨_,rfl⟩
        · split <;> exact ⟨_,rfl⟩

end Verdict.Policy

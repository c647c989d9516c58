import Mathlib.Data.List.Sort
import Verdict.Basics.Same
import Verdict.Policy.Passport
import Verdict.Proof.Identifier

/-! # Capability passports

The parser of capability passports and what writes them again. The readers check one thing after
the other: most checks refuse the document with a `CapabilityPassportError`, but a chain that is
no iterable, a timestamp without an instant in UTC and an integer that no float can hold let
another exception escape, and a status that is no text passes unchecked.
-/
namespace Verdict.Passport
open Json
open Policy (RouteIdentity CapabilityStatus EvidenceAuthority isCapabilityName)
open Proof (matchesDigest)

/-- `datetime.fromisoformat(text.replace("Z", "+00:00"))`, time zones, instants in UTC and how one is written. -/
structure Clock where
  Datetime : Type
  read : String → Option Datetime
  isAware : Datetime → Bool
  /-- `astimezone(timezone.utc)` in microseconds, none when it overflows. -/
  utc : Datetime → Option ℤ
  format : ℤ → String
  read_format : ∀ d t, utc d = some t → ∃ d', read (format t) = some d' ∧ isAware d' = true ∧ utc d' = some t

inductive PassportError
  | refused (message : String)
  | typeError
  | overflowError
  | attributeError
  deriving DecidableEq

def PassportError.isRefusal : PassportError → Bool
  | .refused _ => true
  | _ => false

structure Check where
  holds : Bool
  otherwise : PassportError

def run : List Check → Except PassportError Unit
  | [] => .ok ()
  | c :: cs => if c.holds then run cs else .error c.otherwise

def refuse (fine : Bool) (message : String) : Check := ⟨fine,.refused message⟩

/-! ### Members -/

def isText : Json → Bool
  | .str _ => true
  | _ => false

def textOf : Json → String
  | .str s => s
  | _ => ""

variable (j : Json)

def nonEmpty : Bool := isText j && decide (Path.strip (textOf j).toList ≠ [])

/-- `payload.get(key, default)`. -/
def getOr (p : Fields) (key : String) (default : Json) : Json := (p.lookup key).getD default

def missing (required : List String) (p : Fields) : List String := (JsonCodec.missingKeys required p).insertionSort (· ≤ ·)

def unknown (required optional : List String) (p : Fields) : List String :=
  (JsonCodec.unknownKeys required optional p).dedup.insertionSort (· ≤ ·)

def strictMapping (v : Json) (required optional : List String) (fieldName : String) : List Check :=
  [refuse v.isObj (fieldName ++ " must be an object"),
   refuse (missing required v.fields).isEmpty (fieldName ++ " missing field(s): " ++ ", ".intercalate (missing required v.fields)),
   refuse (unknown required optional v.fields).isEmpty
     (fieldName ++ " has unknown field(s): " ++ ", ".intercalate (unknown required optional v.fields))]

/-- `tuple(value)`. -/
def tuple : Json → List Json
  | .arr xs => xs
  | .str s => s.toList.map fun c => .str (String.singleton c)
  | .obj fs => fs.map fun e => .str e.1
  | _ => []

def isArr : Json → Bool
  | .arr _ => true
  | _ => false

def iterates : Check := ⟨isArr j || isText j || j.isObj,.typeError⟩

def stringTuple (items : List Json) (fieldName : String) : Check :=
  refuse (items.all nonEmpty) (fieldName ++ " must contain non-empty strings")

section
variable (o : Clock)

def readTime (j : Json) : Option o.Datetime := if isText j then o.read (textOf j) else none

def instant? (j : Json) : Option ℤ := (readTime o j).bind o.utc

def parseDatetime (j : Json) (fieldName : String) : List Check :=
  [refuse (isText j) (fieldName ++ " must be an ISO-8601 string"),
   refuse (readTime o j).isSome (fieldName ++ " must be an ISO-8601 string"),
   refuse ((readTime o j).any o.isAware) (fieldName ++ " must be timezone-aware"),
   ⟨(instant? o j).isSome,.overflowError⟩]

def instant (j : Json) : ℤ := (instant? o j).getD 0

end

/-! ### Route identities -/

def routeRequired : List String := ["gateway","provider","connection","endpoint","protocol","model_id"]

def routeOptional : List String := ["model_revision","account_class","endpoint_class","transformation_chain","fallback_chain"]

def optionalNames : List String := ["model_revision","account_class","endpoint_class"]

def chain (p : Fields) (key : String) : Json := getOr p key (.arr [])

def routeChecks (v : Json) : List Check :=
  let p := v.fields
  strictMapping v routeRequired routeOptional "route_identity" ++
  [iterates (chain p "transformation_chain"),iterates (chain p "fallback_chain")] ++
  (routeRequired.map fun name => refuse (nonEmpty (get p name)) ("route_identity." ++ name ++ " must be non-empty")) ++
  (optionalNames.map fun name =>
    refuse (decide (get p name = .null) || nonEmpty (get p name)) ("route_identity." ++ name ++ " must be non-empty when supplied")) ++
  [stringTuple (tuple (chain p "transformation_chain")) "route_identity.transformation_chain",
   stringTuple (tuple (chain p "fallback_chain")) "route_identity.fallback_chain"]

def optionalText : Option String := if isText j then some (textOf j) else none

def texts : List String := (tuple j).map textOf

def routeOf (v : Json) : RouteIdentity :=
  let p := v.fields
  { gateway := textOf (get p "gateway")
    provider := textOf (get p "provider")
    connection := textOf (get p "connection")
    endpoint := textOf (get p "endpoint")
    protocol := textOf (get p "protocol")
    modelId := textOf (get p "model_id")
    modelRevision := optionalText (get p "model_revision")
    accountClass := optionalText (get p "account_class")
    endpointClass := optionalText (get p "endpoint_class")
    transformationChain := texts (chain p "transformation_chain")
    fallbackChain := texts (chain p "fallback_chain") }

/-! ### Evidence -/

/-- A status, or the value that passed for one. -/
inductive Status
  | known (s : CapabilityStatus)
  | other (j : Json)

def statuses : List CapabilityStatus := [.supported,.unsupported,.unknown]

def authorities : List EvidenceAuthority := [.claimed,.observed,.verified,.inferred]

def readStatus : Status := match statuses.find? fun s => decide (j = .str s.value) with
  | some s => .known s
  | none => .other j

def readAuthority : Option EvidenceAuthority := authorities.find? fun a => decide (j = .str a.value)

structure CapabilityEvidence where
  status : Status
  source : String
  (observedAt expiresAt : ℤ)
  confidence : Json
  evidenceDigest : String
  limitations : List String := []
  authority : EvidenceAuthority := .observed
  method : String := "unspecified"
  adapterVersion : String := "unknown"
  scope : String := "default"
  sampleCount : Option ℤ := none

def evidenceRequired : List String := ["status","source","observed_at","expires_at","confidence","evidence_digest"]

def evidenceOptional : List String := ["limitations","authority","method","adapter_version","scope","sample_count"]

def floatBound : ℕ := 2 ^ 1024 - 2 ^ 970

/-- `float(value)` does not overflow. -/
def fitsFloat : Json → Bool
  | .int n => decide (n.natAbs < floatBound)
  | _ => true

def isNumber : Json → Bool
  | .int _ | .float _ | .scalar .negZero | .scalar .nan | .scalar .inf | .scalar .negInf => true
  | _ => false

def isShare : Json → Bool
  | .int n => decide (0 ≤ n ∧ n ≤ 1)
  | .float q => decide (0 ≤ q ∧ q ≤ 1)
  | .scalar .negZero => true
  | _ => false

def toFloat : Json → Json
  | .int n => .float n
  | j => j

def isCount : Json → Bool
  | .scalar .null => true
  | .int n => decide (1 ≤ n)
  | _ => false

def countOf : Json → Option ℤ
  | .int n => some n
  | _ => none

section
variable (o : Clock)

def evidenceChecks (v : Json) : List Check :=
  let p := v.fields
  let confidence := get p "confidence"
  strictMapping v evidenceRequired evidenceOptional "evidence" ++
  parseDatetime o (get p "observed_at") "evidence.observed_at" ++ parseDatetime o (get p "expires_at") "evidence.expires_at" ++
  [iterates (chain p "limitations"),
   refuse (!isText (get p "status") || statuses.any fun s => decide (get p "status" = .str s.value)) "evidence.status is invalid",
   refuse (nonEmpty (get p "source")) "evidence.source must be non-empty",
   refuse (readAuthority (getOr p "authority" (.str "observed"))).isSome "evidence.authority is invalid",
   refuse (nonEmpty (getOr p "method" (.str "unspecified"))) "evidence.method must be non-empty",
   refuse (nonEmpty (getOr p "adapter_version" (.str "unknown"))) "evidence.adapter_version must be non-empty",
   refuse (nonEmpty (getOr p "scope" (.str "default"))) "evidence.scope must be non-empty",
   refuse (isCount (get p "sample_count")) "evidence.sample_count must be a positive integer",
   refuse (decide (instant o (get p "observed_at") < instant o (get p "expires_at"))) "evidence.expires_at must be after observed_at",
   refuse (isNumber confidence) "evidence.confidence must be between 0 and 1",
   ⟨fitsFloat confidence,.overflowError⟩,
   refuse (isShare confidence) "evidence.confidence must be between 0 and 1",
   refuse (isText (get p "evidence_digest") && matchesDigest (textOf (get p "evidence_digest")))
     "evidence.evidence_digest must be a lowercase sha256 digest",
   stringTuple (tuple (chain p "limitations")) "evidence.limitations"]

def evidenceOf (v : Json) : CapabilityEvidence :=
  let p := v.fields
  { status := readStatus (get p "status")
    source := textOf (get p "source")
    observedAt := instant o (get p "observed_at")
    expiresAt := instant o (get p "expires_at")
    confidence := toFloat (get p "confidence")
    evidenceDigest := textOf (get p "evidence_digest")
    limitations := texts (chain p "limitations")
    authority := (readAuthority (getOr p "authority" (.str "observed"))).getD .observed
    method := textOf (getOr p "method" (.str "unspecified"))
    adapterVersion := textOf (getOr p "adapter_version" (.str "unknown"))
    scope := textOf (getOr p "scope" (.str "default"))
    sampleCount := countOf (get p "sample_count") }

variable (e : CapabilityEvidence)

def CapabilityEvidence.fields (s : CapabilityStatus) : Fields :=
  [("status",.str s.value),("source",.str e.source),("observed_at",.str (o.format e.observedAt)),
   ("expires_at",.str (o.format e.expiresAt)),("confidence",e.confidence),("evidence_digest",.str e.evidenceDigest),
   ("limitations",.arr (e.limitations.map .str)),("authority",.str e.authority.value),("method",.str e.method),
   ("adapter_version",.str e.adapterVersion),("scope",.str e.scope)] ++
  (e.sampleCount.map fun n => ("sample_count",Json.int n)).toList

/-- `to_dict`, which asks the status for its value. -/
def CapabilityEvidence.toDict : Except PassportError Json := match e.status with
  | .other _ => .error .attributeError
  | .known s => .ok (.obj (e.fields o s))

end

/-! ### Passports -/

structure CapabilityPassport where
  routeIdentity : RouteIdentity
  (qualifiedAt expiresAt : ℤ)
  claimed : List (String × CapabilityEvidence) := []
  observed : List (String × CapabilityEvidence) := []
  limitations : List String := []

def SCHEMA_VERSION : String := "1"

def passportRequired : List String :=
  ["schema_version","route_identity","qualified_at","expires_at","claimed","observed","limitations"]

section
variable (o : Clock)
variable (v : Json)

/-- `_parse_evidence_map`. -/
def evidenceMap (fieldName : String) : List Check :=
  refuse v.isObj (fieldName ++ " must be an object") ::
  v.fields.flatMap fun e => refuse (isCapabilityName e.1) "capability names must match ^[a-z][a-z0-9_.-]*$" :: evidenceChecks o e.2

/-- What `CapabilityPassport.from_dict` and the constructor check, in their order. -/
def passportChecks : List Check :=
  let p := v.fields
  strictMapping v passportRequired [] "capability_passport" ++
  evidenceMap o (get p "claimed") "claimed" ++ evidenceMap o (get p "observed") "observed" ++
  routeChecks (get p "route_identity") ++
  parseDatetime o (get p "qualified_at") "qualified_at" ++ parseDatetime o (get p "expires_at") "expires_at" ++
  [iterates (get p "limitations"),
   refuse (decide (get p "schema_version" = .str SCHEMA_VERSION)) "schema_version must be '1'",
   refuse (decide (instant o (get p "qualified_at") < instant o (get p "expires_at"))) "expires_at must be after qualified_at",
   stringTuple (tuple (get p "limitations")) "limitations"]

def evidencesOf : List (String × CapabilityEvidence) := v.fields.map fun e => (e.1,evidenceOf o e.2)

def passportOf : CapabilityPassport :=
  let p := v.fields
  { routeIdentity := routeOf (get p "route_identity")
    qualifiedAt := instant o (get p "qualified_at")
    expiresAt := instant o (get p "expires_at")
    claimed := evidencesOf o (get p "claimed")
    observed := evidencesOf o (get p "observed")
    limitations := texts (get p "limitations") }

/-- `CapabilityPassport.from_dict`. -/
def fromDict : Except PassportError CapabilityPassport := (run (passportChecks o v)).map fun _ => passportOf o v

def mapToDict (es : List (String × CapabilityEvidence)) : Except PassportError Fields :=
  (JsonCodec.sortKeys es).mapM fun e => (e.2.toDict o).map fun j => (e.1,j)

variable (x : CapabilityPassport)

def CapabilityPassport.fields (claimed observed : Fields) : Fields :=
  [("schema_version",.str SCHEMA_VERSION),("route_identity",.obj x.routeIdentity.toDict),("qualified_at",.str (o.format x.qualifiedAt)),
   ("expires_at",.str (o.format x.expiresAt)),("claimed",.obj claimed),("observed",.obj observed),
   ("limitations",.arr (x.limitations.map .str))]

def CapabilityPassport.toDict : Except PassportError Json := do
  let claimed ← mapToDict o x.claimed
  let observed ← mapToDict o x.observed
  return .obj (x.fields o claimed observed)

end

/-- `RouteIdentity.key`, with the digest of a canonical JSON text. -/
def routeKey {κ : Type} (digest : Json → κ) (r : RouteIdentity) : κ := digest (canon (.obj r.toDict))

end Verdict.Passport

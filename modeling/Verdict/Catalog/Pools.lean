import Mathlib.Data.List.SplitBy

/-! # Credential pools

Several route prefixes can reach one upstream credential. `poolOf` names that
credential; it is the key under which quota and cooldowns are shared. Case folding
is the one operation on text that depends on Unicode tables, and enters as the
parameter `lower`.
-/
namespace Verdict.Catalog

/-- `str.split("/")`. -/
def segments (text : String) : List String := (text.toList.splitOn '/').map String.ofList

def poolByPrefix : List (String × String) :=
  [("agy","google-antigravity"),("antigravity","google-antigravity")]

def freeSuffixPool : List (String × String) :=
  [("kc","openrouter-free"),("kilocode","openrouter-free"),("openrouter","openrouter-free")]

def aliasFamilies : List (String × String) :=
  [("agy","antigravity"),("antigravity","antigravity"),("af","api-airforce"),("api-airforce","api-airforce"),
   ("ollama-cloud","ollama-cloud"),("ollamacloud","ollama-cloud"),("bm","bluesminds"),("bluesminds","bluesminds"),
   ("kc","kilocode"),("kilocode","kilocode"),("gh","github"),("github","github"),("cc","claude"),
   ("claude","claude"),("cx","codex"),("codex","codex"),("oc","opencode"),("opencode","opencode"),
   ("zm","zenmux"),("zenmux","zenmux"),("cu","cursor"),("cursor","cursor"),("cua","cursor-api"),
   ("cursor-api","cursor-api"),("dva","devin-cli")]

section
variable (lower : String → String)

/-- `backend_pool` on the segments of a route id; the suffix `:free` lies in the last one. -/
def backendPoolOf (route : List String) : String :=
  let head := lower (route.headD "")
  let free := (":free".toList).isSuffixOf (route.getLastD "").toList
  match (if free then freeSuffixPool.lookup head else none) with
  | some pool => pool
  | none => (poolByPrefix.lookup head).getD head

/-- `pool_of` on the segments of a route id. -/
def poolOfSegments : List String → String
  | [] => lower ""
  | head :: rest =>
    if lower head = "no-think" ∧ rest ≠ [] then poolOfSegments rest
    else
      let delegated := backendPoolOf lower (head :: rest)
      if delegated ≠ lower head then delegated else (aliasFamilies.lookup (lower head)).getD (lower head)

def backendPool (routeId : String) : String := backendPoolOf lower (segments routeId)

def poolOf (routeId : String) : String := poolOfSegments lower (segments routeId)

end

/-- `OWNED_BY_ALIASES`; a name that stands for itself is an acknowledged gap. -/
def ownedByAliases : List (String × String) :=
  [("devin-cli-agentic","devin-cli"),("auggie","auggie"),("codex-app-server","codex"),
   ("cloudflare-playground","cloudflare-playground"),("duckduckgo-web","duckduckgo-web"),("felo-web","felo-web"),
   ("uncloseai","uncloseai"),("veoaifree-web","veoaifree-web"),("chipotle","chipotle")]

def resolveProvider (lower : String → String) (ownedBy : String) : String :=
  (ownedByAliases.lookup (lower ownedBy)).getD (lower ownedBy)

end Verdict.Catalog

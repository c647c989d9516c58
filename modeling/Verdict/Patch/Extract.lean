import Verdict.Basics.GitPatch
import Verdict.Contracts.WorkUnit

/-! # The diff of a reply

`extract_diff`: the fences around a diff are taken away and its hunks are counted again. A
diff is the list of its lines, each of which ends in a line feed.
-/
namespace Verdict.Patch
open GitPatch Path

abbrev Diff := List Text

inductive PatchError
  | emptyReply
  | conflicting
  | notDiff
  | quoted (raw : Text)
  | unusable (raw : Text)
  | noFiles
  | bareNoFile
  | bareNewFile
  | bareMismatch
  | unreadable (reason : String)
  deriving DecidableEq

variable (t : Text)

def lines : List Text := t.splitOn '\n'

def contains (lit : String) (t : Text) : Bool := t.tails.any (startsWith lit)

def cut (sub : Text) : Text → Option (Text × Text)
  | [] => if sub = [] then some ([],[]) else none
  | c :: t => if sub.isPrefixOf (c :: t) then some ([],(c :: t).drop sub.length)
    else (cut sub t).map fun p => (c :: p.1,p.2)

theorem cut_some {sub t a b : Text} (h : cut sub t = some (a,b)) : t = a ++ sub ++ b := by
  induction t generalizing a with
  | nil =>
    unfold cut at h
    split at h
    · rename_i hsub
      obtain ⟨rfl,rfl⟩ := Prod.mk.inj (Option.some.inj h)
      rw [hsub]
      rfl
    · cases h
  | cons c t ih =>
    unfold cut at h
    split at h
    · rename_i hpre
      obtain ⟨rfl,rfl⟩ := Prod.mk.inj (Option.some.inj h)
      obtain ⟨tail,htail⟩ := List.isPrefixOf_iff_prefix.mp hpre
      rw [List.nil_append,← htail,List.drop_left]
    · obtain ⟨⟨front,back⟩,hcut,hpair⟩ := Option.map_eq_some_iff.mp h
      obtain ⟨rfl,rfl⟩ := Prod.mk.inj hpair
      rw [ih hcut]
      rfl

theorem cut_first {sub t a b : Text} (hne : sub ≠ []) (h : cut sub t = some (a,b)) : ¬ sub <:+: a := by
  induction t generalizing a with
  | nil =>
    rw [cut,if_neg hne] at h
    cases h
  | cons c t ih =>
    rw [cut] at h
    split at h
    · cases h
      exact fun hinfix => hne (List.infix_nil.mp hinfix)
    · rename_i hpre
      obtain ⟨⟨front,back⟩,hcut,hpair⟩ := Option.map_eq_some_iff.mp h
      cases hpair
      intro hinfix
      rcases List.infix_cons_iff.mp hinfix with hfront | hfront
      · refine hpre (List.isPrefixOf_iff_prefix.mpr (hfront.trans ?_))
        rw [cut_some hcut,List.append_assoc,← List.cons_append]
        exact List.prefix_append _ _
      · exact ih hcut hfront

theorem cut_append {sub x : Text} (hsub : ¬ sub <:+: x) (hlast : ∀ l ∈ x.getLast?, l ∉ sub) (r : Text) :
    cut sub (x ++ r) = (cut sub r).map fun p => (x ++ p.1,p.2) := by
  induction x with
  | nil => simp
  | cons c x ih =>
    have hpre : ¬ sub <+: c :: (x ++ r) := by
      intro hpre
      rcases List.prefix_or_prefix_of_prefix hpre (List.prefix_append (c :: x) r) with hfront | hfront
      · exact hsub hfront.isInfix
      · exact hlast _ (List.getLast?_eq_getLast_of_ne_nil (List.cons_ne_nil c x)) (hfront.subset (List.getLast_mem _))
    have hrest : ∀ l ∈ x.getLast?, l ∉ sub := by
      intro l hl
      refine hlast l ?_
      rwa [List.getLast?_cons_of_ne_nil fun hnil => by rw [hnil] at hl; cases hl]
    have hcut := ih (fun hinfix => hsub (List.infix_cons hinfix)) hrest
    rw [List.cons_append,cut,if_neg (by rwa [List.isPrefixOf_iff_prefix]),hcut,Option.map_map]
    rfl

theorem cut_isSome {sub t : Text} (h : sub <:+: t) : (cut sub t).isSome = true := by
  induction t with
  | nil => rw [List.infix_nil.mp h]; rfl
  | cons c t ih =>
    rw [cut]
    split
    · rfl
    · rename_i hpre
      rcases List.infix_cons_iff.mp h with hfront | htail
      · exact absurd (List.isPrefixOf_iff_prefix.mpr hfront) hpre
      · rw [Option.isSome_map]
        exact ih htail

/-- `_FENCE_BLOCK_RE.findall`, with the length of the text as fuel. -/
def fenceBlocks : ℕ → Text → List Text
  | 0, _ => []
  | fuel + 1, t =>
    if startsWith "```" t then
      match ((t.drop 3).dropWhile fun c => decide (c ≠ '\n')) with
      | [] => fenceBlocks fuel t.tail
      | _ :: inner => match cut "\n```".toList inner with
        | some (block,rest) => block :: fenceBlocks fuel rest
        | none => fenceBlocks fuel t.tail
    else fenceBlocks fuel t.tail

def isBlank (c : Char) : Bool := c = ' ' ∨ c = '\t'

/-- A line that `_BARE_FENCE_LINE_RE` matches. -/
def isBareFence (l : Text) : Bool :=
  startsWith "```" l &&
    ((((l.drop 3).dropWhile isBlank).dropWhile fun c => !isSpace c).dropWhile isBlank).isEmpty

def looksLikeDiff : Bool := (contains "--- " t && contains "+++ " t) || contains "diff --git" t

/-- The zeros of the digits that `\d` matches. -/
def zeros : List ℕ := [
  0x30,0x660,0x6f0,0x7c0,0x966,0x9e6,0xa66,0xae6,0xb66,0xbe6,0xc66,0xce6,0xd66,0xde6,0xe50,0xed0,
  0xf20,0x1040,0x1090,0x17e0,0x1810,0x1946,0x19d0,0x1a80,0x1a90,0x1b50,0x1bb0,0x1c40,0x1c50,0xa620,
  0xa8d0,0xa900,0xa9d0,0xa9f0,0xaa50,0xabf0,0xff10,0x104a0,0x10d30,0x11066,0x110f0,0x11136,0x111d0,
  0x112f0,0x11450,0x114d0,0x11650,0x116c0,0x11730,0x118e0,0x11950,0x11c50,0x11d50,0x11da0,0x16a60,
  0x16ac0,0x16b50,0x1d7ce,0x1d7d8,0x1d7e2,0x1d7ec,0x1d7f6,0x1e140,0x1e2f0,0x1e950,0x1fbf0]

def isDigit (c : Char) : Bool := zeros.any fun zero => decide (zero ≤ c.toNat ∧ c.toNat < zero + 10)

def expect (lit : String) (t : Text) : Option Text :=
  if startsWith lit t then some (t.drop lit.length) else none

/-- `\d+`. -/
def digits : Option (Text × Text) :=
  if t.takeWhile isDigit = [] then none else some (t.takeWhile isDigit,t.dropWhile isDigit)

/-- `(?:,(\d+))?`. -/
def skipCount : Text := match t with
  | ',' :: rest => ((digits rest).map Prod.snd).getD t
  | _ => t

/-- `_HUNK_RE.match`: the first lines of both sides. -/
def hunkStarts (l : Text) : Option (Text × Text) :=
  (expect "@@ -" l).bind fun rest => (digits rest).bind fun old =>
    (expect " +" (skipCount old.2)).bind fun rest => (digits rest).bind fun new =>
      (expect " @@" (skipCount new.2)).map fun _ => (old.1,new.1)

def repairMissingHunkPrefixes (body : List Text) : List Text :=
  body.map fun l => if l.head? = some '+' ∨ l.head? = some '-' ∨ l.head? = some ' ' then l else ' ' :: l

def endsHunk (l : Text) : Bool :=
  (hunkStarts l).isSome || startsWith "--- " l || startsWith "+++ " l || startsWith "diff --git " l

def number (n : ℤ) : Text := (toString n).toList

def hunkHeader (oldStart : Text) (old : ℕ) (newStart : Text) (new : ℕ) : Text :=
  "@@ -".toList ++ oldStart ++ ",".toList ++ number old ++ " +".toList ++ newStart ++ ",".toList ++ number new
    ++ " @@".toList

/-- `_recount_hunks` on the lines, whose number is the fuel. -/
def recountHunks : ℕ → List Text → Diff
  | 0, _ => []
  | _, [] => []
  | fuel + 1, l :: rest => match hunkStarts l with
    | none => l :: recountHunks fuel rest
    | some (oldStart,newStart) =>
      let body := repairMissingHunkPrefixes
        (((rest.takeWhile fun l => !endsHunk l).reverse.dropWhile fun l => decide (strip l = [])).reverse)
      hunkHeader oldStart (body.countP fun l => l.head? ≠ some '+') newStart
          (body.countP fun l => l.head? ≠ some '-') :: body
        ++ recountHunks fuel (rest.dropWhile fun l => !endsHunk l)

def openLines : List Text :=
  if (lines t).getLast? = some [] then (lines t).dropLast else lines t

def recount : Diff := recountHunks (openLines t).length (openLines t)

/-- `extract_diff`. A fence line at the end leaves a line feed that the strip takes. -/
def extractDiff (content : Text) : Except PatchError Diff :=
  let text := strip content
  if text = [] then .error .emptyReply
  else
    let blocks := ((fenceBlocks text.length text).map strip).filter looksLikeDiff
    match blocks with
    | _ :: _ :: _ => .error .conflicting
    | [block] => .ok (recount block)
    | [] =>
      let bare := strip (['\n'].intercalate ((lines text).filter fun l => !isBareFence l))
      if looksLikeDiff bare then .ok (recount bare) else .error .notDiff

end Verdict.Patch

/-! ## The paths of a diff's headers

`parse_patch_paths`, the reader of headers that guards the boundary of a unit. What
`ast.literal_eval` makes of a quoted path is left open.
-/
namespace Verdict.Patch
open GitPatch Path WorkUnit

/-- What `ast.literal_eval` makes of a text: a text, another value, a `SyntaxError` or
`ValueError`, or another exception. -/
inductive Literal
  | text (value : Text)
  | value
  | refused
  | raised

/-- How a function of the executor ends without a value. -/
inductive Stop
  | refused (e : PatchError)
  | raised

def keywords : List String := ["---","+++","rename from","rename to","copy from","copy to"]

/-- `[ \t]+(.+?)(?:\t.*)?$`, behind the keyword of a header. -/
def headerField (t : Text) : Option Text :=
  match t.takeWhile isBlank,t.dropWhile isBlank with
  | [],_ => none
  | _,c :: rest => some (c :: rest.takeWhile fun c => decide (c ≠ '\t'))
  | [_],[] => none
  | blanks,[] => blanks.getLast?.map fun c => [c]

/-- The field of a line that `_DIFF_HEADER_RE` matches. -/
def headerRaw (l : Text) : Option Text :=
  keywords.findSome? fun word => if startsWith word l then headerField (l.drop word.length) else none

def banner : Text := " (unreadable: FileNotFoundError) ---".toList

/-- `str.removesuffix`. -/
def removeBanner (raw : Text) : Text := if banner <:+ raw then raw.take (raw.length - banner.length) else raw

def isQuoted (t : Text) : Bool := t.head? = some '"' ∧ t.getLast? = some '"'

def devNull : Text := "/dev/null".toList

def stripSide (candidate : Text) : Text :=
  if startsWith "a/" candidate || startsWith "b/" candidate then candidate.drop 2 else candidate

def beforeTab (t : Text) : Text := t.takeWhile fun c => decide (c ≠ '\t')

variable (literalEval : Text → Literal)

def candidateOf (raw : Text) : Except Stop Text :=
  let candidate := removeBanner raw
  if isQuoted candidate then
    match literalEval candidate with
    | .text decoded => .ok decoded
    | .value | .refused => .error (.refused (.quoted raw))
    | .raised => .error .raised
  else .ok (beforeTab candidate)

/-- The path of one header; none for `/dev/null`. -/
def headerPath (raw : Text) : Except Stop (Option Text) := match candidateOf literalEval raw with
  | .error e => .error e
  | .ok candidate =>
    if candidate = devNull then .ok none
    else match normalizeOwnedPath (stripSide candidate) with
      | .ok path => .ok (some path)
      | .error _ => .error (.refused (.unusable raw))

def parsePatchPaths (diff : Diff) : Except Stop (List Text) :=
  match (diff.filterMap headerRaw).mapM (headerPath literalEval) with
  | .error e => .error e
  | .ok paths => if paths.reduceOption = [] then .error (.refused .noFiles) else .ok (sorted paths.reduceOption)

def isNormalName (p : Text) : Bool := normalizeOwnedPath p = .ok p ∧ strip p = p ∧ '\r' ∉ p

/-- A header that both readers take in one way: a normal name behind `a/` or `b/`, with no banner,
to a tab or to the end of the line; the names of a renaming stand without a side. -/
def plain (l : Text) : Bool :=
  if startsWith "--- " l || startsWith "+++ " l then
    let raw := beforeTab (l.drop 4)
    (startsWith "a/" raw || startsWith "b/" raw) && !decide (banner <:+ raw) && isNormalName (raw.drop 2)
  else match movers.find? (startsWith · l) with
    | some word =>
      let raw := beforeTab (l.drop word.length)
      !startsWith "a/" raw && !startsWith "b/" raw && decide (raw.head? ≠ some '"') && !decide (banner <:+ raw) &&
        isNormalName raw
    | none => false

end Verdict.Patch

import Verdict.Basics.JsonGrammar
import Verdict.Patch.Extract

/-! # The plan in an answer

`_extract_json_object` takes the first fenced block of an answer, or all of it, and reads from
the first brace to the one that closes it. Braces are counted in strings too, and a fence is
looked for in strings too: an object comes out as it is exactly when neither misleads the count.
-/
namespace Verdict.Planner
open JsonGrammar (Text Object openBrace closeBrace)
open Brackets (Balanced upToClose)
open Patch (cut)
open scoped Members
open Path (isSpace)

inductive ParsePlanError
  | noObject
  | unterminated
  deriving DecidableEq

def ParsePlanError.message : ParsePlanError → String
  | .noObject => "parse_plan: no JSON object found in planner output"
  | .unterminated => "parse_plan: unterminated JSON object in planner output"

def fence : Text := "```".toList

/-- `_JSON_FENCE_RE.search(text)`: what its group covers, between the first fence and the next. -/
def fencedBlock (text : Text) : Option Text := do
  let (_,rest) ← cut fence text
  let body := (if "json".toList <+: rest then rest.drop 4 else rest).dropWhile isSpace
  let (block,_) ← cut fence body
  return block

def extractJsonObject (text : Text) : Except ParsePlanError Text :=
  let candidate := (fencedBlock text).getD text
  match candidate.dropWhile (· ≠ openBrace) with
  | [] => .error .noObject
  | found => match upToClose openBrace closeBrace 0 found with
    | some object => .ok object
    | none => .error .unterminated

/-- `parse_plan`, with what it makes of the text of the object. -/
def parsePlan {G : Type} (read : Text → Except ParsePlanError G) (text : Text) : Except ParsePlanError G :=
  extractJsonObject text >>= read

/-- The forms in which a model gives an object. -/
inductive Answer
  | alone (object : Text)
  | within (front object rest : Text)
  | fenced (space object space' : Text)

def Answer.object : Answer → Text
  | .alone object => object
  | .within _ object _ => object
  | .fenced _ object _ => object

def Answer.text : Answer → Text
  | .alone object => object
  | .within front object rest => front ++ (object ++ rest)
  | .fenced space object space' => fence ++ "json".toList ++ (space ++ (object ++ (space' ++ fence)))

/-- The object is one; the prose before it has no brace and no fence; what separates it from its fences is blank. -/
def Answer.WellFormed (a : Answer) : Prop := Object a.object ∧ match a with
  | .alone _ => True
  | .within front _ _ => openBrace ∉ front ∧ ¬ fence <:+: front
  | .fenced space _ space' => space.all isSpace = true ∧ space'.all isSpace = true

/-- The object of the answer comes out as it is, and the plan is what it says. -/
def Answer.Parsed (a : Answer) : Prop :=
  extractJsonObject a.text = .ok a.object ∧ ∀ (G : Type) (read : Text → Except ParsePlanError G), parsePlan read a.text = read a.object

/-- No fence misleads: in the object alone there is no fenced block, in prose none unless it gives the same object first,
and in a fence the object has no fence of its own. -/
def Answer.Unfenced : Answer → Prop
  | .alone object => fencedBlock object = none
  | .within front object rest => ∀ block ∈ fencedBlock (front ++ (object ++ rest)),
      ∃ front' rest', block = front' ++ (object ++ rest') ∧ openBrace ∉ front'
  | .fenced _ object _ => ¬ fence <:+: object

variable {t a b J front rest block : Text}

theorem dropWhile_front (hfront : openBrace ∉ front) (t : Text) :
    (front ++ openBrace :: t).dropWhile (· ≠ openBrace) = openBrace :: t := by
  have hall : ∀ c ∈ front, decide (c ≠ openBrace) = true := fun c hc => decide_eq_true fun heq => hfront (heq ▸ hc)
  rw [List.dropWhile_append_of_pos hall,List.dropWhile_cons_of_neg (by simp)]

theorem extract_of_candidate (hJ : Object J) (hcandidate : (fencedBlock t).getD t = front ++ (J ++ rest)) (hfront : openBrace ∉ front) :
    extractJsonObject t = .ok J ↔ Balanced openBrace closeBrace J := by
  obtain ⟨inner,rfl,-⟩ := hJ.1.braced hJ.2
  have hread : upToClose openBrace closeBrace 1 (inner ++ [closeBrace] ++ rest) = some (inner ++ [closeBrace]) ↔
      Brackets.ClosesFrom openBrace closeBrace 1 (inner ++ [closeBrace]) := Brackets.upToClose_append_iff (by decide) rest
  rw [Brackets.balanced_cons_iff,← hread]
  simp only [extractJsonObject,hcandidate]
  rw [List.cons_append,dropWhile_front hfront]
  simp only [Brackets.upToClose,if_true,zero_add]
  cases Brackets.upToClose openBrace closeBrace 1 (inner ++ [closeBrace] ++ rest) <;> simp

theorem candidate_of_extract (h : extractJsonObject t = .ok J) :
    ∃ front rest, (fencedBlock t).getD t = front ++ (J ++ rest) ∧ openBrace ∉ front := by
  simp only [extractJsonObject] at h
  have hsplit := List.takeWhile_append_dropWhile (p := (· ≠ openBrace)) (l := (fencedBlock t).getD t)
  split at h
  · cases h
  · next found hfound =>
    split at h
    · next object hobject =>
      cases h
      obtain ⟨rest,hrest⟩ := Brackets.upToClose_prefix hobject
      refine ⟨_,rest,by rw [hrest]; exact hsplit.symm,fun hmem => ?_⟩
      simpa using List.mem_takeWhile_imp hmem
    · cases h

theorem fence_ne_nil : fence ≠ [] := by decide

theorem fencedBlock_some (h : fencedBlock t = some block) : block.length < t.length ∧ ¬ fence <:+: block := by
  obtain ⟨⟨a,rest⟩,hcut,h⟩ := Option.bind_eq_some_iff.mp h
  obtain ⟨⟨block',b⟩,hcut',h⟩ := Option.bind_eq_some_iff.mp h
  cases h
  refine ⟨?_,Patch.cut_first fence_ne_nil hcut'⟩
  have houter := congrArg List.length (Patch.cut_some hcut)
  have hinner := congrArg List.length (Patch.cut_some hcut')
  have hdrop := (List.dropWhile_suffix isSpace (l := if "json".toList <+: rest then rest.drop 4 else rest)).length_le
  have hfour : (if "json".toList <+: rest then rest.drop 4 else rest).length ≤ rest.length := by
    split
    · exact (List.drop_suffix 4 rest).length_le
    · exact le_refl _
  have hfence : fence.length = 3 := by decide
  simp only [List.length_append] at houter hinner
  omega

theorem fencedBlock_fenced (hJ : Object J) {space : Text} (hspace : space.all isSpace = true) (space' : Text) :
    fencedBlock (Answer.fenced space J space').text = (cut fence (J ++ (space' ++ fence))).map Prod.fst := by
  obtain ⟨inner,rfl,-⟩ := hJ.1.braced hJ.2
  have hdrop : (space ++ (openBrace :: (inner ++ [closeBrace]) ++ (space' ++ fence))).dropWhile isSpace =
      openBrace :: (inner ++ [closeBrace]) ++ (space' ++ fence) := by
    rw [List.dropWhile_append_of_pos (List.all_eq_true.mp hspace),List.cons_append,List.dropWhile_cons_of_neg (by decide)]
  have hopen : ∀ r, cut fence (fence ++ r) = some ([],r) := fun r => rfl
  have hjson : ∀ r, (if "json".toList <+: "json".toList ++ r then ("json".toList ++ r).drop 4 else "json".toList ++ r) = r := fun r =>
    if_pos (List.prefix_append _ _)
  rw [Answer.text,List.append_assoc,fencedBlock,hopen]
  simp only [Option.bind_eq_bind,Option.bind_some,hjson,hdrop]
  cases cut fence (openBrace :: (inner ++ [closeBrace]) ++ (space' ++ fence)) <;> rfl

theorem cut_fenced (hJ : Object J) {space' : Text} (hspace' : space'.all isSpace = true) (hnone : ¬ fence <:+: J) :
    cut fence (J ++ (space' ++ fence)) = some (J ++ space',[]) := by
  have hlast : ∀ l ∈ J.getLast?, l ∉ fence := by
    obtain ⟨inner,rfl,-⟩ := hJ.1.braced hJ.2
    intro l hl
    rw [← List.cons_append,List.getLast?_concat,Option.mem_some_iff] at hl
    rw [← hl]
    decide
  have hblank : ∀ l ∈ space', l ∉ fence := by
    intro l hl hmem
    have htick : l = '\x60' := by
      have hall : ∀ c ∈ fence, c = '\x60' := by decide
      exact hall l hmem
    have hspace := List.all_eq_true.mp hspace' l hl
    rw [htick] at hspace
    exact absurd hspace (by decide)
  have hinfix : ¬ fence <:+: space' := fun h => hblank '\x60' (h.subset (by decide)) (by decide)
  rw [Patch.cut_append hnone hlast,Patch.cut_append hinfix fun l hl => hblank l (List.mem_of_mem_getLast? hl),
    show cut fence fence = some ([],[]) from rfl]
  simp

theorem parsed_iff (a : Answer) : a.Parsed ↔ extractJsonObject a.text = .ok a.object := by
  refine ⟨And.left,fun h => ⟨h,fun G read => ?_⟩⟩
  rw [parsePlan,h]
  rfl

/-- An object comes out of an answer exactly when its braces are balanced, those in strings included, and no fence misleads. -/
theorem plan_parsed_iff (a : Answer) (h : a.WellFormed) :
    a.Parsed ↔ Balanced openBrace closeBrace a.object ∧ a.Unfenced := by
  obtain ⟨hobject,hform⟩ := h
  rw [parsed_iff]
  cases a with
  | alone J =>
    have hJ : Object J := hobject
    cases hblock : fencedBlock J with
    | none =>
      have hread := extract_of_candidate (t := J) (J := J) hJ (by rw [hblock]; exact (List.append_nil J).symm) (List.not_mem_nil)
      simpa [Answer.Unfenced,Answer.text,Answer.object,hblock] using hread
    | some block =>
      refine iff_of_false (fun hok => ?_) fun hboth => by simp [Answer.Unfenced,hblock] at hboth
      obtain ⟨front,rest,hcandidate,-⟩ := candidate_of_extract hok
      have hlength := congrArg List.length hcandidate
      have hshort := (fencedBlock_some hblock).1
      simp only [Answer.text,Answer.object,hblock,Option.getD_some,List.length_append] at hlength
      omega
  | within front J rest =>
    have hJ : Object J := hobject
    cases hblock : fencedBlock (front ++ (J ++ rest)) with
    | none =>
      have hread := extract_of_candidate (t := front ++ (J ++ rest)) hJ (by rw [hblock]; rfl) hform.1
      simpa [Answer.Unfenced,Answer.text,Answer.object,hblock] using hread
    | some block =>
      constructor
      · intro hok
        obtain ⟨front',rest',hcandidate,hfront'⟩ := candidate_of_extract hok
        have hshape : block = front' ++ (J ++ rest') := by simpa [Answer.text,Answer.object,hblock] using hcandidate
        exact ⟨(extract_of_candidate hJ hcandidate hfront').mp hok,fun b hb => ⟨front',rest',by rw [hblock] at hb; cases hb; exact hshape,hfront'⟩⟩
      · rintro ⟨hbalanced,hunfenced⟩
        obtain ⟨front',rest',hshape,hfront'⟩ := hunfenced block hblock
        exact (extract_of_candidate hJ (by rw [Answer.text,hblock]; exact hshape) hfront').mpr hbalanced
  | fenced space J space' =>
    have hJ : Object J := hobject
    by_cases hfence : fence <:+: J
    · refine iff_of_false (fun hok => ?_) (fun hboth => hboth.2 hfence)
      obtain ⟨⟨block,b⟩,hcut⟩ := Option.isSome_iff_exists.mp (Patch.cut_isSome (hfence.trans (List.prefix_append J (space' ++ fence)).isInfix))
      have hblock : fencedBlock (Answer.fenced space J space').text = some block := by
        rw [fencedBlock_fenced hJ hform.1,hcut]
        rfl
      obtain ⟨front,rest,hcandidate,-⟩ := candidate_of_extract hok
      rw [hblock,Option.getD_some] at hcandidate
      refine (fencedBlock_some hblock).2 (hfence.trans ?_)
      rw [hcandidate]
      exact ⟨front,rest,by simp [Answer.object]⟩
    · have hblock : fencedBlock (Answer.fenced space J space').text = some (J ++ space') := by
        rw [fencedBlock_fenced hJ hform.1,cut_fenced hJ hform.2 hfence]
        rfl
      have hread := extract_of_candidate hJ (by rw [hblock]; exact (List.nil_append _).symm) List.not_mem_nil
      simpa [Answer.Unfenced,Answer.object,hfence] using hread

def sample (body : Text) : Text := openBrace :: (JsonGrammar.quoted ['a'] ++ ':' :: JsonGrammar.quoted body ++ [closeBrace])

theorem sample_reads {P : Text → Prop} {body : Text} (ha : P ['a']) (hbody : JsonGrammar.Body body) (hP : P body) :
    JsonGrammar.Reads P .value (sample body) := by
  have hkey : JsonGrammar.Body ['a'] := .plain (by decide) (by decide) (by decide) .nil
  have hblank : JsonGrammar.Blank [] := rfl
  have hmember := JsonGrammar.Reads.member hblank hkey ha hblank hblank (.string hbody hP) hblank
  simpa [sample] using hmember.object

theorem sample_object {body : Text} (hbody : JsonGrammar.Body body) : Object (sample body) :=
  ⟨sample_reads trivial hbody trivial,rfl⟩

theorem levelled_plan_parsed : (Answer.within "The plan: ".toList (sample [openBrace,closeBrace]) " Done.".toList).Parsed := by
  have hbody : JsonGrammar.Body [openBrace,closeBrace] :=
    .plain (by decide) (by decide) (by decide) (.plain (by decide) (by decide) (by decide) .nil)
  have hlevel : JsonGrammar.LevelBraces [openBrace,closeBrace] := (Brackets.level_nil.balanced (by decide)).level
  have hkey : JsonGrammar.LevelBraces ['a'] := Brackets.level_of_not_mem (by decide) (by decide)
  have hblock : fencedBlock ("The plan: ".toList ++ (sample [openBrace,closeBrace] ++ " Done.".toList)) = none := by decide +kernel
  have hform : (Answer.within "The plan: ".toList (sample [openBrace,closeBrace]) " Done.".toList).WellFormed :=
    ⟨sample_object hbody,by decide,by decide⟩
  refine (plan_parsed_iff _ hform).mpr
    ⟨JsonGrammar.balanced_of_level (sample_reads hkey hbody hlevel) rfl,fun block h => ?_⟩
  rw [hblock] at h
  cases h

/-- A closing brace in a string ends the object. -/
theorem brace_in_string_ends : ¬ ∀ a : Answer, a.WellFormed → a.Parsed := by
  intro h
  have hbody : JsonGrammar.Body [closeBrace] := .plain (by decide) (by decide) (by decide) .nil
  have hparsed := (h (.alone (sample [closeBrace])) ⟨sample_object hbody,trivial⟩).1
  have hread : extractJsonObject (sample [closeBrace]) = .ok (openBrace :: (JsonGrammar.quoted ['a'] ++ [':','"',closeBrace])) := by
    decide +kernel
  have hsame := Except.ok.inj (hread.symm.trans hparsed)
  exact absurd hsame (by decide +kernel)

end Verdict.Planner

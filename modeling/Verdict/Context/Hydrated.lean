import Verdict.Context.Budget
import Verdict.Context.Worker

/-! # What a worker's prompt costs

Every text that `build_worker_context` returns has passed the checks on bytes and tokens or is
empty, and a pass that returns none removes a unit: the loop ends. The context goes into the prompt
as one line more, which the allowance has left room for.
-/
namespace Verdict.Worker
open Context Raising
open Path (isSpace)
open Planner (PlannedNode)
open List (append_assoc cons_append length_append map_cons mem_map nil_append)

variable {env : Surroundings} {node : PlannedNode} {plan : ContextPlan} {order : Text → ℕ} {source : BudgetSource}
  {maxContextBytes : ℤ} {budget : ℕ} {r r' : Removal} {pack : ContextPack} {c : WorkerContext}

/-! ### Bytes and tokens -/

@[simp] theorem byteLength_append (s t : Text) : byteLength (s ++ t) = byteLength s + byteLength t := by
  simp only [byteLength,Utf8.encode,List.flatMap_append,length_append]

theorem byteLength_cons (c : Char) (t : Text) : byteLength (c :: t) = (Utf8.encodeChar c).length + byteLength t := by
  simp only [byteLength,Utf8.encode,List.flatMap_cons,length_append]

theorem encodeChar_pos (c : Char) : 1 ≤ (Utf8.encodeChar c).length := by
  simp only [Utf8.encodeChar]
  split
  · exact le_rfl
  split
  · simp
  split <;> simp

theorem length_le_byteLength (t : Text) : t.length ≤ byteLength t := by
  induction t with
  | nil => exact Nat.zero_le _
  | cons c t ih =>
    have hpos := encodeChar_pos c
    rw [byteLength_cons,List.length_cons]
    omega

theorem byteLength_truncateUtf8 (t : Text) (n : ℕ) : byteLength (truncateUtf8 t n) ≤ n := by
  induction t generalizing n with
  | nil => exact Nat.zero_le n
  | cons c t ih =>
    rw [truncateUtf8]
    split
    · next hfits =>
      have htail := ih (n - (Utf8.encodeChar c).length)
      rw [byteLength_cons]
      omega
    · exact Nat.zero_le n

variable {t : Text} {n : ℕ}

theorem estimateTokens_le (hpos : 1 ≤ n) (h : t.length ≤ 4 * n) : estimateTokens t ≤ n := by
  unfold estimateTokens
  omega

theorem estimateTokens_insert {s u : Text} (h : u.length = s.length + t.length + 1) :
    estimateTokens u ≤ estimateTokens s + estimateTokens t + 1 := by
  unfold estimateTokens
  omega

theorem joinLines_insert (xs : List Text) (t : Text) {ys : List Text} (hys : ys ≠ []) :
    ∃ front back, joinLines (xs ++ ys) = front ++ back ∧ joinLines (xs ++ t :: ys) = front ++ (t ++ lineFeed :: back) := by
  induction xs with
  | nil =>
    obtain ⟨y,ys,rfl⟩ := List.exists_cons_of_ne_nil hys
    refine ⟨[],joinLines (y :: ys),rfl,?_⟩
    simp only [joinLines,nil_append,List.intercalate_cons_cons,append_assoc,List.singleton_append]
  | cons x xs ih =>
    obtain ⟨front,back,hold,hnew⟩ := ih
    refine ⟨x ++ lineFeed :: front,back,?_,?_⟩
    · obtain ⟨z,zs,hz⟩ := List.exists_cons_of_ne_nil (show xs ++ ys ≠ [] from List.append_ne_nil_of_right_ne_nil _ hys)
      rw [cons_append,hz]
      rw [hz] at hold
      simp only [joinLines,List.intercalate_cons_cons] at hold ⊢
      rw [hold]
      simp only [append_assoc,cons_append,nil_append]
    · obtain ⟨z,zs,hz⟩ := List.exists_cons_of_ne_nil (show xs ++ t :: ys ≠ [] by simp)
      rw [cons_append,hz]
      rw [hz] at hnew
      simp only [joinLines,List.intercalate_cons_cons] at hnew ⊢
      rw [hnew]
      simp only [append_assoc,cons_append,nil_append]

/-! ### Units keep their ids and keys -/

variable {u v : ContextUnit}

theorem withContent_ok {content : Text} (h : withContent u content = .ok v) :
    v.unitId = u.unitId ∧ v.key = u.key := by
  unfold withContent at h
  split at h
  · cases h
    exact ⟨rfl,rfl⟩
  · cases h

theorem isRequired_of_key (h : v.key = u.key) : isRequired v = isRequired u := by
  rw [isRequired,isRequired,h]

def label (u : ContextUnit) : Text × Text := (u.unitId,u.key)

variable {us vs : List ContextUnit}

theorem labels_of_forall₂ (h : List.Forall₂ (fun u v => v.unitId = u.unitId ∧ v.key = u.key) us vs) :
    vs.map label = us.map label := by
  induction h with
  | nil => rfl
  | cons huv _ ih => rw [map_cons,map_cons,ih,label,label,huv.1,huv.2]

variable {replacements : List (Text × Text)}

theorem compilerSafeUnits_labels {secret : Text → Bool} {count : ℕ}
    (h : compilerSafeUnits secret count us = .ok (vs,replacements)) : vs.map label = us.map label := by
  induction us generalizing count vs replacements with
  | nil =>
    cases h
    rfl
  | cons u us ih =>
    simp only [compilerSafeUnits] at h
    split at h
    · obtain ⟨v,hv,h⟩ := bind_ok.mp h
      obtain ⟨⟨ws,more⟩,hrest,h⟩ := bind_ok.mp h
      cases hv
      cases h
      rw [map_cons,map_cons,ih hrest]
    · obtain ⟨v,hv,h⟩ := bind_ok.mp h
      obtain ⟨⟨ws,more⟩,hrest,h⟩ := bind_ok.mp h
      cases h
      obtain ⟨hid,hkey⟩ := withContent_ok hv
      rw [map_cons,map_cons,ih hrest,label,hid,hkey]
      rfl

theorem restore_labels {original : List ContextUnit} {pack' : ContextPack}
    (h : restoreCompilerSyntax env pack replacements original = .ok pack') : pack'.units.map label = pack.units.map label := by
  unfold restoreCompilerSyntax at h
  split at h
  · cases h
    rfl
  · obtain ⟨units,hunits,h⟩ := bind_ok.mp h
    obtain ⟨costs,-,h⟩ := bind_ok.mp h
    cases h
    exact labels_of_forall₂ ((mapM_forall₂ hunits).imp fun u v huv => withContent_ok huv)

theorem packOf_ok (h : packOf env plan order r = .ok pack) : ∃ units replacements now, compilerSafeUnits
    env.valueIsSecret 0 r.cited = .ok (units,replacements) ∧ env.library.timestamp plan.createdAt = some now
    ∧ pack.units.map label = (taken env.library plan now (workerSorted order units)).map label := by
  obtain ⟨⟨units,replacements⟩,hsafe,h⟩ := bind_ok.mp h
  obtain ⟨compiledPack,hcompiled,h⟩ := bind_ok.mp h
  obtain ⟨now,hnow,hunits,-⟩ := compileSorted_ok (mapError_ok.mp hcompiled)
  exact ⟨units,replacements,now,hsafe,hnow,by rw [restore_labels h,hunits]⟩

theorem workerSorted_perm (order : Text → ℕ) (units : List ContextUnit) :
    (workerSorted order units).Perm (units.map ContextUnit.normalized) := List.perm_insertionSort _ _

theorem mem_cited_of_pack (h : packOf env plan order r = .ok pack) (hu : u ∈ pack.units) :
    ∃ v ∈ r.cited, label v = label u := by
  obtain ⟨units,replacements,now,hsafe,-,hlabels⟩ := packOf_ok h
  have hmem : label u ∈ (taken env.library plan now (workerSorted order units)).map label := hlabels ▸ List.mem_map_of_mem hu
  obtain ⟨w,hw,hwu⟩ := mem_map.mp hmem
  obtain ⟨x,hx,rfl⟩ := mem_map.mp ((workerSorted_perm order units).mem_iff.mp (Greedy.take_sublist.subset hw))
  have hcited : label x ∈ r.cited.map label := compilerSafeUnits_labels hsafe ▸ List.mem_map_of_mem hx
  obtain ⟨v,hv,hvx⟩ := mem_map.mp hcited
  exact ⟨v,hv,hvx.trans hwu⟩

/-! ### The removal loop -/

theorem pass_done (h : pass env plan order source maxContextBytes budget r = .ok (.inr c)) :
    c.text = [] ∨ (byteLength c.text : ℤ) ≤ maxContextBytes ∧ estimateTokens c.text ≤ budget := by
  obtain ⟨pack,-,h⟩ := bind_ok.mp h
  simp only at h
  split at h
  · next hchecks =>
    cases h
    exact .inr hchecks.2
  · split at h
    · cases h
      exact .inl rfl
    · cases h

theorem pass_again (h : pass env plan order source maxContextBytes budget r = .ok (.inl r')) : ∃ pack last,
    packOf env plan order r = .ok pack ∧ pack.units.getLast? = some last ∧ r'.cited = r.cited.filter
    (·.unitId ≠ last.unitId) := by
  obtain ⟨pack,hpack,h⟩ := bind_ok.mp h
  simp only at h
  split at h
  · cases h
  · split at h
    · cases h
    · next last hlast =>
      cases h
      exact ⟨pack,last,hpack,hlast,rfl⟩

theorem pass_shrinks (h : pass env plan order source maxContextBytes budget r = .ok (.inl r')) : r'.cited.length < r.cited.length := by
  obtain ⟨pack,last,hpack,hlast,hcited⟩ := pass_again h
  obtain ⟨v,hv,hlabel⟩ := mem_cited_of_pack hpack (List.mem_of_getLast? hlast)
  rw [hcited]
  have hid : v.unitId = last.unitId := congrArg Prod.fst hlabel
  exact List.length_filter_lt_length_iff_exists.mpr ⟨v,hv,by simpa using hid⟩

theorem removalLoop_ends (h : r.cited.length < n) : removalLoop env plan order source maxContextBytes budget n r ≠ .ok none := by
  induction n generalizing r with
  | zero => exact absurd h (Nat.not_lt_zero _)
  | succ n ih =>
    rw [removalLoop]
    intro hnone
    obtain ⟨out,hout,hnone⟩ := bind_ok.mp hnone
    cases out with
    | inl r' =>
      have hshrinks := pass_shrinks hout
      exact ih (by omega) hnone
    | inr c => cases hnone

theorem removalLoop_done (h : removalLoop env plan order source maxContextBytes budget n r = .ok (some c)) :
    c.text = [] ∨ (byteLength c.text : ℤ) ≤ maxContextBytes ∧ estimateTokens c.text ≤ budget := by
  induction n generalizing r with
  | zero => cases h
  | succ n ih =>
    rw [removalLoop] at h
    obtain ⟨out,hout,h⟩ := bind_ok.mp h
    cases out with
    | inl r' => exact ih h
    | inr c' =>
      cases h
      exact pass_done hout

/-! ### Required units -/

theorem isRequired_of_le (h : workerKey order u ≤ workerKey order v) (hv : isRequired v = true) : isRequired u = true := by
  by_contra hu
  rw [workerKey,workerKey,if_neg hu,if_pos hv,Prod.Lex.toLex_le_toLex] at h
  omega

theorem filter_required (h : us.Pairwise fun u v => workerKey order u ≤ workerKey order v) :
    us = us.filter isRequired ++ us.filter fun u => !isRequired u := by
  induction h with
  | nil => rfl
  | @cons u us hu _ ih =>
    cases hrequired : isRequired u with
    | true =>
      rw [List.filter_cons_of_pos hrequired,List.filter_cons_of_neg (by simp [hrequired]),cons_append,← ih]
    | false =>
      have hnone : ∀ v ∈ us, isRequired v = false := fun v hv => Bool.eq_false_iff.mpr fun hv' => by
        rw [isRequired_of_le (hu v hv) hv'] at hrequired
        cases hrequired
      have hempty : (u :: us).filter isRequired = [] := by
        rw [List.filter_cons_of_neg (by simp [hrequired])]
        exact List.filter_eq_nil_iff.mpr fun v hv => by simp [hnone v hv]
      rw [hempty,nil_append]
      refine (List.filter_eq_self.mpr fun v hv => ?_).symm
      rcases List.mem_cons.mp hv with rfl | hv
      · rw [hrequired]
        rfl
      · rw [hnone v hv]
        rfl

theorem taken_required {lib : Library} {now : Stamp} (units : List ContextUnit) : ∃ rest, taken lib plan now
    (workerSorted order units) = taken lib plan now ((workerSorted order units).filter isRequired) ++ rest ∧
    ∀ u ∈ rest, isRequired u = false := by
  have hsorted : (workerSorted order units).Pairwise fun u v => workerKey order u ≤ workerKey order v := List.pairwise_insertionSort _ _
  obtain ⟨rest,htaken,hsub⟩ : ∃ rest, taken lib plan now ((workerSorted order units).filter isRequired ++
      (workerSorted order units).filter fun u => !isRequired u) = taken lib plan now ((workerSorted order units).filter isRequired) ++ rest ∧
      rest.Sublist ((workerSorted order units).filter fun u => !isRequired u) := Greedy.take_append _ _
  rw [← filter_required hsorted] at htaken
  refine ⟨rest,htaken,fun u hu => ?_⟩
  simpa using (List.mem_filter.mp (hsub.subset hu)).2

theorem filter_labels (us : List ContextUnit) :
    (us.filter isRequired).map label = (us.map label).filter fun l => "required:".toList.isPrefixOf l.2 := by
  rw [List.filter_map]
  rfl

theorem isRequired_of_label (h : label u = label v) : isRequired u = isRequired v :=
  isRequired_of_key (congrArg Prod.snd h)

theorem packOf_required (h : packOf env plan order r = .ok pack) : ∃ units replacements now,
    compilerSafeUnits env.valueIsSecret 0 r.cited = .ok (units,replacements) ∧ env.library.timestamp plan.createdAt = some now ∧
      (pack.units.filter isRequired).map label = (taken env.library plan now ((workerSorted order units).filter isRequired)).map label ∧
      ∀ last, pack.units.getLast? = some last → isRequired last = true → ∀ u ∈ pack.units, isRequired u = true := by
  obtain ⟨units,replacements,now,hsafe,hnow,hlabels⟩ := packOf_ok h
  obtain ⟨rest,htaken,hrest⟩ : ∃ rest, taken env.library plan now (workerSorted order units) =
      taken env.library plan now ((workerSorted order units).filter isRequired) ++ rest ∧ ∀ u ∈ rest, isRequired u = false :=
    taken_required units
  have hfront : ∀ u ∈ taken env.library plan now ((workerSorted order units).filter isRequired), isRequired u = true := fun u hu =>
    (List.mem_filter.mp (Greedy.take_sublist.subset hu)).2
  rw [htaken] at hlabels
  refine ⟨units,replacements,now,hsafe,hnow,?_,fun last hlast hlastRequired u hu => ?_⟩
  · have hnone : rest.filter isRequired = [] := List.filter_eq_nil_iff.mpr fun u hu => by simp [hrest u hu]
    rw [filter_labels,hlabels,← filter_labels,List.filter_append,List.filter_eq_self.mpr hfront,hnone,List.append_nil]
  · have hempty : rest = [] := by
      by_contra hne
      obtain ⟨z,hz⟩ := Option.isSome_iff_exists.mp (List.getLast?_isSome.mpr hne)
      have hlabel : (pack.units.map label).getLast? = some (label z) := by
        rw [hlabels,List.map_append,List.getLast?_append,List.getLast?_map,hz]
        rfl
      rw [List.getLast?_map,hlast] at hlabel
      rw [isRequired_of_label (Option.some.inj hlabel),hrest z (List.mem_of_getLast? hz)] at hlastRequired
      cases hlastRequired
    have hmem : label u ∈ pack.units.map label := List.mem_map_of_mem hu
    rw [hlabels,hempty,List.append_nil] at hmem
    obtain ⟨v,hv,hvu⟩ := mem_map.mp hmem
    rw [← isRequired_of_label hvu]
    exact hfront v hv

/-! ### The context -/

theorem estimateTokens_nil : estimateTokens [] = 1 := rfl

/-- What a context keeps to: its bytes, and its tokens where the budget is not 0. -/
structure ContextFits (maxContextBytes : ℤ) (budget : ℕ) (text : Text) : Prop where
  bytes : (byteLength text : ℤ) ≤ max 0 maxContextBytes
  tokens : 0 < budget → estimateTokens text ≤ budget
  empty : budget = 0 → text = []

theorem omitted_fits (maxContextBytes : ℤ) (budget : ℕ) :
    ContextFits maxContextBytes budget (truncateUtf8 omittedNote (max 0 (min maxContextBytes (budget * 4))).toNat) := by
  have hbytes := byteLength_truncateUtf8 omittedNote (max 0 (min maxContextBytes (budget * 4))).toNat
  have hlength := length_le_byteLength (truncateUtf8 omittedNote (max 0 (min maxContextBytes (budget * 4))).toNat)
  refine ⟨by omega,fun hpos => estimateTokens_le hpos (by omega),fun hzero => ?_⟩
  refine List.length_eq_zero_iff.mp ?_
  omega

theorem build_fits {contextPlan : Option ContextPlan} {mandatory : ℤ}
    (h : buildWorkerContext env node maxContextBytes contextPlan mandatory = .ok (some c)) :
    ContextFits maxContextBytes (contextBudget maxContextBytes contextPlan mandatory) c.text := by
  unfold buildWorkerContext at h
  simp only at h
  split at h
  · cases h
    exact omitted_fits maxContextBytes _
  · next hbudget =>
    rcases removalLoop_done h with hempty | ⟨hbytes,htokens⟩
    · rw [hempty]
      exact ⟨le_max_left _ _,fun _ => by rw [estimateTokens_nil]; omega,fun _ => rfl⟩
    · exact ⟨le_max_of_le_right hbytes,fun _ => htokens,fun hzero => by omega⟩

theorem build_ends (contextPlan : Option ContextPlan) (mandatory : ℤ) :
    buildWorkerContext env node maxContextBytes contextPlan mandatory ≠ .ok none := by
  unfold buildWorkerContext
  simp only
  split
  · exact fun hnone => nomatch hnone
  · exact removalLoop_ends (Nat.lt_succ_self _)

theorem contextBudget_le (maxContextBytes : ℤ) (plan : ContextPlan) (mandatory : ℤ) :
    (contextBudget maxContextBytes (some plan) mandatory : ℤ) ≤ max 0 (ceiling plan - mandatory) := by
  simp only [contextBudget]
  omega

/-! ### The prompt -/

variable {goal suffix : Text} {maxPromptBytes : Option ℤ} {contextPlan : Option ContextPlan} {prompt : WorkerPrompt}

theorem hydrate_ok (h : hydrateNodePrompt env node goal maxContextBytes maxPromptBytes contextPlan suffix = .ok (some prompt)) :
    ∃ c, buildWorkerContext env node (allowance maxContextBytes maxPromptBytes (mandatoryPrompt env node goal suffix)) contextPlan
        (estimateTokens (mandatoryPrompt env node goal suffix) + 1) = .ok (some c) ∧
      (c.text = [] ∧ prompt.text = mandatoryPrompt env node goal suffix ∨
        c.text ≠ [] ∧ byteLength prompt.text = byteLength (mandatoryPrompt env node goal suffix) + byteLength c.text + 1 ∧
        prompt.text.length = (mandatoryPrompt env node goal suffix).length + c.text.length + 1) := by
  obtain ⟨context,hcontext,h⟩ := bind_ok.mp h
  cases context with
  | none => cases h
  | some c =>
    cases h
    refine ⟨c,hcontext,?_⟩
    by_cases hempty : c.text = []
    · simp only [hempty,if_pos]
      exact .inl ⟨trivial,rfl⟩
    · have hafter : linesAfter node ≠ [] := fun hnil => List.cons_ne_nil _ _ (List.map_eq_nil_iff.mp hnil)
      obtain ⟨front,back,hold,hnew⟩ := joinLines_insert (linesBefore env node goal) c.text hafter
      have hfeed : byteLength (lineFeed :: back) = byteLength back + 1 := by
        rw [byteLength_cons,Nat.add_comm]
        rfl
      simp only [if_neg hempty,mandatoryPrompt,hold,hnew,byteLength_append,length_append,List.length_cons,hfeed]
      exact .inr ⟨hempty,by omega,by omega⟩

theorem hydrate_ends : hydrateNodePrompt env node goal maxContextBytes maxPromptBytes contextPlan suffix ≠ .ok none := by
  intro h
  obtain ⟨context,hcontext,h⟩ := bind_ok.mp h
  cases context with
  | none => exact build_ends _ _ hcontext
  | some c => cases h

theorem hydrate_bytes {limit : ℤ} (h : hydrateNodePrompt env node goal maxContextBytes (some limit) contextPlan suffix = .ok (some prompt))
    (hmandatory : (byteLength (mandatoryPrompt env node goal suffix) : ℤ) < limit) : (byteLength prompt.text : ℤ) ≤ limit := by
  obtain ⟨c,hcontext,⟨-,hprompt⟩ | ⟨-,hbytes,-⟩⟩ := hydrate_ok h
  · rw [hprompt]
    exact hmandatory.le
  · have hfits := (build_fits hcontext).bytes
    simp only [allowance] at hfits
    omega

theorem hydrate_tokens (h : hydrateNodePrompt env node goal maxContextBytes maxPromptBytes (some plan) suffix = .ok (some prompt))
    (hmandatory : (estimateTokens (mandatoryPrompt env node goal suffix) : ℤ) + 1 ≤ ceiling plan) :
    (estimateTokens prompt.text : ℤ) ≤ ceiling plan := by
  obtain ⟨c,hcontext,⟨-,hprompt⟩ | ⟨hne,-,hlength⟩⟩ := hydrate_ok h
  · rw [hprompt]
    omega
  · obtain ⟨-,htokens,hempty⟩ := build_fits hcontext
    have hbudget := contextBudget_le (allowance maxContextBytes maxPromptBytes (mandatoryPrompt env node goal suffix)) plan
      (estimateTokens (mandatoryPrompt env node goal suffix) + 1)
    rcases Nat.eq_zero_or_pos (contextBudget (allowance maxContextBytes maxPromptBytes (mandatoryPrompt env node goal suffix)) (some plan)
      (estimateTokens (mandatoryPrompt env node goal suffix) + 1)) with hzero | hpos
    · exact absurd (hempty hzero) hne
    · have hcost := htokens hpos
      have hinsert := estimateTokens_insert hlength
      omega

/-- The limits of a worker's prompt. A context has no more bytes than allowed, and no more tokens than its budget unless that is 0;
the removal loop ends, and removes a required unit only when the pack has no others; what the compiler takes of the required units
does not depend on the others. -/
structure KeepsLimits (env : Surroundings) (node : PlannedNode) : Prop where
  ends : ∀ maxContextBytes contextPlan mandatory, buildWorkerContext env node maxContextBytes contextPlan mandatory ≠ .ok none
  context : ∀ maxContextBytes contextPlan mandatory c, buildWorkerContext env node maxContextBytes contextPlan mandatory = .ok (some c) →
    ContextFits maxContextBytes (contextBudget maxContextBytes contextPlan mandatory) c.text
  promptEnds : ∀ goal maxContextBytes maxPromptBytes contextPlan suffix,
    hydrateNodePrompt env node goal maxContextBytes maxPromptBytes contextPlan suffix ≠ .ok none
  promptBytes : ∀ goal maxContextBytes limit contextPlan suffix prompt,
    hydrateNodePrompt env node goal maxContextBytes (some limit) contextPlan suffix = .ok (some prompt) →
    (byteLength (mandatoryPrompt env node goal suffix) : ℤ) < limit → (byteLength prompt.text : ℤ) ≤ limit
  promptTokens : ∀ goal maxContextBytes maxPromptBytes plan suffix prompt,
    hydrateNodePrompt env node goal maxContextBytes maxPromptBytes (some plan) suffix = .ok (some prompt) →
    (estimateTokens (mandatoryPrompt env node goal suffix) : ℤ) + 1 ≤ ceiling plan → (estimateTokens prompt.text : ℤ) ≤ ceiling plan
  required : ∀ plan order r pack, packOf env plan order r = .ok pack → ∃ units replacements now,
    compilerSafeUnits env.valueIsSecret 0 r.cited = .ok (units,replacements) ∧ env.library.timestamp plan.createdAt = some now ∧
      (pack.units.filter isRequired).map label = (taken env.library plan now ((workerSorted order units).filter isRequired)).map label
  removed : ∀ plan order source maxContextBytes budget r r', pass env plan order source maxContextBytes budget r = .ok (.inl r') →
    ∃ pack last, packOf env plan order r = .ok pack ∧ pack.units.getLast? = some last ∧
      r'.cited = r.cited.filter (·.unitId ≠ last.unitId) ∧ (isRequired last = true → ∀ u ∈ pack.units, isRequired u = true)

theorem worker_keeps_limits (env : Surroundings) (node : PlannedNode) : KeepsLimits env node where
  ends := fun _ => build_ends
  context := fun _ _ _ _ h => build_fits h
  promptEnds := fun _ _ _ _ _ => hydrate_ends
  promptBytes := fun _ _ _ _ _ _ h => hydrate_bytes h
  promptTokens := fun _ _ _ _ _ _ h => hydrate_tokens h
  required := fun _ _ _ _ h => by
    obtain ⟨units,replacements,now,hsafe,hnow,hrequired,-⟩ := packOf_required h
    exact ⟨units,replacements,now,hsafe,hnow,hrequired⟩
  removed := fun _ _ _ _ _ _ _ h => by
    obtain ⟨pack,last,hpack,hlast,hcited⟩ := pass_again h
    obtain ⟨-,-,-,-,-,-,hremoved⟩ := packOf_required hpack
    exact ⟨pack,last,hpack,hlast,hcited,hremoved last hlast⟩

/-! ### A required unit that does not fit -/

def citation (authority digest source : Text) (lines : ℕ) : Text :=
  "CITE: ".toList ++ ("\x7b\"authority\": \"".toList ++ authority ++ "\", \"excerpt_digest\": \"".toList ++ digest ++
    "\", \"observed_at\": ".toList ++ "\"2026-01-01T00:00:00Z\", ".toList ++ "\"revision\": \"unknown\", ".toList ++
    "\"source\": \"".toList ++ source ++ "\", \"span\": \x7b\"end_line\": ".toList ++ (toString lines).toList ++
    ", \"start_line\": 1\x7d, ".toList ++ "\"trust\": ".toList ++ "\"local-observation\"\x7d\n".toList)

theorem citation_nonBlank (authority digest source excerpt : Text) (lines : ℕ) : NonBlank (citation authority digest source lines ++ excerpt) := by
  have hmem : 'C' ∈ citation authority digest source lines := List.mem_append_left _ (by decide)
  exact Path.strip_ne_nil (List.mem_append_left _ hmem) (by decide)

/-- A unit as `_cited` makes it of an excerpt. -/
def citedUnit (unitId key source : String) (authority digest excerpt : Text) (lines : ℕ)
    (named : ∀ t ∈ [unitId.toList,key.toList,"x".toList,source.toList], NonBlank t) : ContextUnit :=
  { plainUnit unitId key "x" source named with
    slotType := .evidence
    content := citation authority digest source.toList lines ++ excerpt
    sourceDigest := digest
    named := by
      have hplain := (plainUnit unitId key "x" source named).named
      simp only [List.forall_mem_cons] at hplain ⊢
      exact ⟨hplain.1,hplain.2.1,citation_nonBlank _ _ _ _ _,hplain.2.2.2⟩ }

def ownedUnit : ContextUnit :=
  citedUnit "357925d51f6985abaa93927e" "required:a.txt" "a.txt" "native-required-context".toList
    ("sha256:".toList ++ "80ff58aedba1c58f8a0a0b0c4e3f968d".toList ++ "fe90f2bbdf520726ae7fafc6a1963ade".toList)
    ("Every page has a number.\n".toList ++ "The index lists the pages in their order.".toList) 2 (by decide)

def readmeUnit : ContextUnit :=
  citedUnit "sha256:2805ce3f46e790916" "docs:README.md" "README.md" "project-docs".toList
    ("sha256:".toList ++ "6fb9ca6f9eb93bfba0b1c4ab567390fa".toList ++ "ac7256d3e8c1a3d707d958bb1fe0e80a".toList)
    "# Pages\nSee a.txt.\n".toList 2 (by decide)

def folded (content : Text) : Text := ([' '].intercalate (splitWords content)).map Char.toLower

/-- What is found in a repository of the owned text and the README, without a memory: no code names a word of the objective. -/
def surroundings : Surroundings where
  library := plainLibrary
    [(folded ownedUnit.content,"e3992fdff0608167439b3cad99da5de5".toList ++ "a7a230de316a6a9ce7a7df984b20099c".toList),
     (folded readmeUnit.content,"f577b99ea4629bddd3ca4337d4c71748".toList ++ "1a20ca0d312aad8b25c28a728964f560".toList),
     ("[EVIDENCE:docs:README.md (source: README.md)]\n".toList ++ readmeUnit.content ++ ['\n'],
      "06de6b83659c48b2923f81a21a811e66".toList ++ "28ebe98888f1c868e2bfad5744cef0bf".toList)] []
  redactText := fun text => text
  valueIsSecret := fun _ => false
  commandLine := fun _ => "pytest".toList
  now := "2026-01-01T00:00:00Z".toList
  gather := fun _ => ⟨[ownedUnit,readmeUnit],["code.definitions:not_found".toList,"code.references:not_found".toList,
    "tests.impact:not_found".toList,"code.symbols:not_found".toList,"memory.search:no_default_location".toList]⟩

def pagesNode : PlannedNode :=
  ⟨{ nodeId := "n", objective := "index the pages", ownedFiles := ["a.txt"], verificationCommand := ["pytest"]
     ownedNormal := by decide, contextNormal := WorkNode.normal_nil, implementOwns := WorkNode.implement_one "a.txt"
     implementVerifies := WorkNode.verifies_pytest, notSelf := List.not_mem_nil },.null,[],[],.null,.null,.null⟩

def packedLabels (maxContextBytes : ℤ) : Option (List (Text × Text)) :=
  ((buildWorkerContext surroundings pagesNode maxContextBytes none 0).toOption.join.bind WorkerContext.pack).map fun pack =>
    pack.units.map label

theorem packed_readme : packedLabels 760 = some [label readmeUnit] := by decide +kernel

theorem nothing_fits : buildWorkerContext surroundings pagesNode 0 none 0 =
    .ok (some ⟨[],none,.conservativeUnknownCandidate,["budget_exhausted".toList]⟩) := by
  unfold buildWorkerContext
  rw [if_pos (by decide)]
  rfl

/-- Without bytes the context is empty, which counts as a token; and a required file that does not fit is passed over while a
document that fits stays. -/
theorem limits_exceeded :
    (∃ c, buildWorkerContext surroundings pagesNode 0 none 0 = .ok (some c) ∧ ¬ estimateTokens c.text ≤ contextBudget 0 none 0) ∧
    ∃ c pack, buildWorkerContext surroundings pagesNode 760 none 0 = .ok (some c) ∧ c.pack = some pack ∧
      ownedUnit ∈ (surroundings.gather (contextBudget 760 none 0)).cited ∧ isRequired ownedUnit = true ∧
      ownedUnit.unitId ∉ pack.units.map ContextUnit.unitId ∧ ∃ u ∈ pack.units, isRequired u = false := by
  refine ⟨⟨_,nothing_fits,by decide⟩,?_⟩
  obtain ⟨pack,hpack,hlabels⟩ := Option.map_eq_some_iff.mp packed_readme
  obtain ⟨c,hc,hcpack⟩ := Option.bind_eq_some_iff.mp hpack
  obtain ⟨u,hu⟩ : ∃ u, pack.units = [u] := List.map_eq_singleton_iff.mp hlabels |>.imp fun _ h => h.1
  have hlabel : label u = label readmeUnit := by simpa [hu] using hlabels
  refine ⟨c,pack,toOption_some.mp (Option.join_eq_some_iff.mp hc),hcpack,List.mem_cons_self,by decide +kernel,?_,u,by rw [hu]; exact List.mem_cons_self,?_⟩
  · have hid : u.unitId = readmeUnit.unitId := congrArg Prod.fst hlabel
    rw [hu,map_cons,List.map_nil,hid]
    decide +kernel
  · rw [isRequired_of_label hlabel]
    decide +kernel

end Verdict.Worker

import Mathlib.Data.Fintype.Pigeonhole
import Mathlib.Data.Set.Finite.List
import Mathlib.Algebra.Order.BigOperators.Group.List
import Mathlib.Algebra.GroupWithZero.Nat
import Mathlib.Algebra.Order.Group.Nat

/-! # Stack search and layer peeling in a finite graph

Two traversals of a graph given by successor lists. The stack search computes the nodes reachable
from its start; the peeling loop takes all nodes whose predecessors are done, again and again, and
supplies an induction principle when it succeeds. The layers put everything as early as it may
stand, and what a peeling leaves over is what has a cycle behind it.
-/
namespace Verdict.Search

open List (mem_append mem_cons mem_cons_of_mem mem_cons_self mem_filter mem_map mem_map_of_mem)
open Prod (fst)
variable {α : Type} [DecidableEq α]

def search (next : α → List α) : ℕ → List α → List α → List α
  | 0, _, seen => seen
  | _+1, [], seen => seen
  | fuel+1, x :: stack, seen =>
    if x ∈ seen then search next fuel stack seen
    else search next fuel ((next x).reverse ++ stack) (x :: seen)

def Edge (next : α → List α) (a b : α) : Prop := b ∈ next a

def cost (next : α → List α) (dom stack seen : List α) : ℕ :=
  stack.length + ((dom.filter fun x => decide (x ∉ seen)).map fun x => (next x).length).sum

variable {stack seen : List α} {x : α}

theorem search_sound {next : α → List α} {fuel : ℕ} (h : x ∈ search next fuel stack seen) : x ∈ seen ∨ ∃ y ∈
    stack, Relation.ReflTransGen (Edge next) y x := by
  induction fuel generalizing stack seen with
  | zero => exact .inl h
  | succ fuel ih =>
    cases stack with
    | nil => exact .inl h
    | cons y stack =>
      simp only [search] at h
      split at h
      · rcases ih h with hs | ⟨z,hz,hr⟩
        · exact .inl hs
        · exact .inr ⟨z,mem_cons_of_mem _ hz,hr⟩
      · rcases ih h with hs | ⟨z,hz,hr⟩
        · rcases mem_cons.mp hs with rfl | hs
          · exact .inr ⟨x,mem_cons_self,.refl⟩
          · exact .inl hs
        · rcases mem_append.mp hz with hz | hz
          · exact .inr ⟨y,mem_cons_self,.head (List.mem_reverse.mp hz) hr⟩
          · exact .inr ⟨z,mem_cons_of_mem _ hz,hr⟩

variable {dom : List α}

theorem cost_push {next : α → List α} (stack : List α) (hdom : next x ≠ [] → x ∈ dom) (hx : x ∉ seen) : cost
    next dom ((next x).reverse ++ stack) (x :: seen) + 1 ≤ cost next dom (x :: stack) seen := by
  have hsum : ∀ xs : List α, (next x ≠ [] → x ∈ xs) →
      (next x).length + ((xs.filter fun y => decide (y ∉ x :: seen)).map fun y => (next y).length).sum
        ≤ ((xs.filter fun y => decide (y ∉ seen)).map fun y => (next y).length).sum := by
    intro xs hxs
    have hle : ∀ ys : List α,
        ((ys.filter fun y => decide (y ∉ x :: seen)).map fun y => (next y).length).sum
          ≤ ((ys.filter fun y => decide (y ∉ seen)).map fun y => (next y).length).sum := by
      intro ys
      refine ((List.monotone_filter_right ys ?_).map _).sum_le_sum fun _ _ => Nat.zero_le _
      intro y hy
      simp only [mem_cons,not_or,decide_eq_true_eq] at hy ⊢
      exact hy.2
    induction xs with
    | nil =>
      have hnil : next x = [] := by
        by_contra hne
        simpa using hxs hne
      simp [hnil]
    | cons y ys ih =>
      by_cases hxy : y = x
      · subst hxy
        rw [List.filter_cons_of_neg (by simp),List.filter_cons_of_pos (by simpa using hx)]
        simpa using hle ys
      · have hys : next x ≠ [] → x ∈ ys := by
          intro hne
          rcases mem_cons.mp (hxs hne) with h | h
          · exact absurd h.symm hxy
          · exact h
        have hrest := ih hys
        by_cases hy : y ∈ seen
        · rw [List.filter_cons_of_neg (by simp [hy]),List.filter_cons_of_neg (by simp [hy])]
          exact hrest
        · rw [List.filter_cons_of_pos (by simp [hy,hxy]),List.filter_cons_of_pos (by simp [hy])]
          simp only [List.map_cons,List.sum_cons]
          omega
  have := hsum dom hdom
  simp only [cost,List.length_append,List.length_reverse,List.length_cons]
  omega

theorem search_closed {next : α → List α} (hdom : ∀ x, next x ≠ [] → x ∈ dom) {fuel : ℕ}
    (hfuel : cost next dom stack seen ≤ fuel) (hseen : ∀ x ∈ seen, ∀ y ∈ next x, y ∈ seen ∨ y ∈ stack) :
    (∀ x, x ∈ seen ∨ x ∈ stack → x ∈ search next fuel stack seen) ∧ ∀ x ∈ search next fuel stack seen, ∀ y ∈
    next x, y ∈ search next fuel stack seen := by
  have hempty : ∀ fuel seen, (∀ x ∈ seen, ∀ y ∈ next x, y ∈ seen ∨ y ∈ ([] : List α)) →
      (∀ x, x ∈ seen ∨ x ∈ ([] : List α) → x ∈ search next fuel [] seen) ∧
        ∀ x ∈ search next fuel [] seen, ∀ y ∈ next x, y ∈ search next fuel [] seen := by
    intro fuel seen hclosed
    have hs : search next fuel [] seen = seen := by cases fuel <;> rfl
    simp only [hs]
    exact ⟨by simp,fun x hx y hy => by simpa using hclosed x hx y hy⟩
  induction fuel generalizing stack seen with
  | zero =>
    cases stack with
    | nil => exact hempty 0 seen hseen
    | cons x stack => simp [cost] at hfuel
  | succ fuel ih =>
    cases stack with
    | nil => exact hempty (fuel+1) seen hseen
    | cons x stack =>
      by_cases hx : x ∈ seen
      · simp only [search,if_pos hx]
        have hcost : cost next dom stack seen ≤ fuel := by
          simp only [cost,List.length_cons] at hfuel ⊢
          omega
        have hih := ih hcost (fun z hz y hy => by
          rcases hseen z hz y hy with h | h
          · exact .inl h
          · rcases mem_cons.mp h with rfl | h
            · exact .inl hx
            · exact .inr h)
        refine ⟨fun z hz => hih.1 z ?_,hih.2⟩
        rcases hz with h | h
        · exact .inl h
        · rcases mem_cons.mp h with rfl | h
          · exact .inl hx
          · exact .inr h
      · simp only [search,if_neg hx]
        have hcost : cost next dom ((next x).reverse ++ stack) (x :: seen) ≤ fuel := by
          have := cost_push stack (hdom x) hx
          omega
        have hih := ih hcost (fun z hz y hy => by
          rcases mem_cons.mp hz with rfl | hz
          · exact .inr (mem_append.mpr (.inl (List.mem_reverse.mpr hy)))
          · rcases hseen z hz y hy with h | h
            · exact .inl (mem_cons_of_mem _ h)
            · rcases mem_cons.mp h with rfl | h
              · exact .inl mem_cons_self
              · exact .inr (mem_append.mpr (.inr h)))
        refine ⟨fun z hz => hih.1 z ?_,hih.2⟩
        rcases hz with h | h
        · exact .inl (mem_cons_of_mem _ h)
        · rcases mem_cons.mp h with rfl | h
          · exact .inl mem_cons_self
          · exact .inr (mem_append.mpr (.inr h))

theorem mem_search_iff {next : α → List α} (hdom : ∀ x, next x ≠ [] → x ∈ dom)
    {fuel : ℕ} (hfuel : cost next dom stack [] ≤ fuel) :
    x ∈ search next fuel stack [] ↔ ∃ y ∈ stack, Relation.ReflTransGen (Edge next) y x := by
  obtain ⟨hstart,hclosed⟩ := search_closed hdom hfuel (by simp)
  constructor
  · intro h
    rcases search_sound h with h | h
    · simp at h
    · exact h
  · rintro ⟨y,hy,hr⟩
    induction hr with
    | refl => exact hstart y (.inr hy)
    | tail _ hbc ih => exact hclosed _ ih _ hbc

def peel (sort : List α → List α) : ℕ → List (α × List α) → List α → Except (List α) (List (List α))
  | _, [], _ => .ok []
  | 0, remaining, _ => .error (sort (remaining.map fst))
  | fuel+1, remaining, done =>
    let ready := sort ((remaining.filter fun e => decide (e.2 ⊆ done)).map fst)
    if ready = [] then .error (sort (remaining.map fst))
    else match peel sort fuel (remaining.filter fun e => decide (e.1 ∉ ready)) (done ++ ready) with
      | .ok rest => .ok (ready :: rest)
      | .error left => .error left

theorem peel_induction {sort : List α → List α} (hsort : ∀ xs x, x ∈ sort xs ↔ x ∈ xs) {P : α → Prop}
    {fuel : ℕ} {remaining : List (α × List α)} {done : List α} {layers : List (List α)}
    (h : peel sort fuel remaining done = .ok layers) (hdone : ∀ x ∈ done, P x)
    (hstep : ∀ e ∈ remaining, (∀ d ∈ e.2, P d) → P e.1) : ∀ e ∈ remaining, P e.1 := by
  induction fuel generalizing remaining done layers with
  | zero =>
    cases remaining with
    | nil => simp
    | cons e rest => simp [peel] at h
  | succ fuel ih =>
    cases remaining with
    | nil => simp
    | cons f rest =>
      generalize hrem : f :: rest = remaining at h hstep ⊢
      have hne : remaining ≠ [] := by simp [← hrem]
      generalize hready : sort ((remaining.filter fun e => decide (e.2 ⊆ done)).map fst) = ready at h
      have hP : ∀ x ∈ ready, P x := by
        intro x hx
        rw [← hready,hsort] at hx
        obtain ⟨e,he,rfl⟩ := mem_map.mp hx
        obtain ⟨he,hd⟩ := mem_filter.mp he
        have hsub : e.2 ⊆ done := by simpa using hd
        exact hstep e he fun d hd => hdone d (hsub hd)
      simp only [peel,hready] at h
      split at h
      · cases h
      · split at h
        · rename_i rest' hrest
          have hih := ih hrest (fun x hx => (mem_append.mp hx).elim (hdone x) (hP x))
            (fun e he => hstep e (mem_filter.mp he).1)
          intro e he
          by_cases hr : e.1 ∈ ready
          · exact hP _ hr
          · exact hih e (mem_filter.mpr ⟨he,by simpa using hr⟩)
        · cases h

section
variable {α : Type} {next : α → List α}

def Layered (next : α → List α) : List α → List (List α) → Prop
  | _, [] => True
  | done, layer :: rest => (∀ x ∈ layer, next x ⊆ done) ∧ (∀ x ∈ rest.flatten, ¬ next x ⊆ done) ∧
    Layered next (done ++ layer) rest

/-- `x` stands in layer `k`. -/
def At (layers : List (List α)) (k : ℕ) (x : α) : Prop := ∃ layer, layers[k]? = some layer ∧ x ∈ layer

variable {layers : List (List α)} {k : ℕ} {x : α}

theorem Layered.above {done : List α} (h : Layered next done layers)
    {d : α} (hx : At layers k x) (hd : d ∈ next x) : d ∈ done ∨ ∃ j < k, At layers j d := by
  induction layers generalizing done k with
  | nil => simp [At] at hx
  | cons layer rest ih =>
    obtain ⟨hready,-,hrest⟩ := h
    cases k with
    | zero =>
      obtain ⟨l,hl,hxl⟩ := hx
      cases hl
      exact .inl (hready x hxl hd)
    | succ k =>
      obtain hdone | ⟨j,hj,hat⟩ := ih hrest hx
      · rcases mem_append.mp hdone with hdone | hlayer
        · exact .inl hdone
        · exact .inr ⟨0,k.succ_pos,layer,rfl,hlayer⟩
      · exact .inr ⟨j+1,Nat.succ_lt_succ hj,hat⟩

theorem Layered.earliest {done : List α} (h : Layered next done layers)
    (hx : At layers (k+1) x) : ∃ d ∈ next x, At layers k d := by
  induction layers generalizing done k with
  | nil => simp [At] at hx
  | cons layer rest ih =>
    obtain ⟨-,hlate,hrest⟩ := h
    cases k with
    | succ k => exact ih hrest hx
    | zero =>
      have hx' : At rest 0 x := hx
      cases rest with
      | nil => simp [At] at hx'
      | cons second rest =>
        obtain ⟨l,hl,hxl⟩ := hx'
        cases hl
        -- what blocked `x` a round ago was taken in that round
        obtain ⟨d,hd,hnot⟩ : ∃ d ∈ next x, d ∉ done := by
          simpa [List.subset_def] using hlate x (List.mem_flatten.mpr ⟨_,mem_cons_self,hxl⟩)
        exact ⟨d,hd,layer,rfl,(mem_append.mp (hrest.1 x hxl hd)).resolve_left hnot⟩

/-- A cycle lies behind `x`. -/
def Circular (next : α → List α) (x : α) : Prop :=
  ∃ c, Relation.ReflTransGen (Edge next) x c ∧ Relation.TransGen (Edge next) c c

theorem not_circular_of_next (h : ∀ d ∈ next x, ¬ Circular next d) : ¬ Circular next x := by
  rintro ⟨c,hxc,hcc⟩
  rcases Relation.ReflTransGen.cases_head hxc with rfl | ⟨d,hd,hdc⟩
  · obtain ⟨d,hd,hdx⟩ := Relation.TransGen.head'_iff.mp hcc
    exact h d hd ⟨x,hdx,hcc⟩
  · exact h d hd ⟨c,hdc,hcc⟩

theorem circular_of_closed {xs : List α} (hxs : ∀ x ∈ xs, ∃ d ∈ next x, d ∈ xs) (hx : x ∈ xs) :
    Circular next x := by
  choose succ hsucc using fun x : {x // x ∈ xs} => (hxs x.1 x.2)
  let f : {x // x ∈ xs} → {x // x ∈ xs} := fun x => ⟨succ x,(hsucc x).2⟩
  have hwalk : ∀ n y, Relation.ReflTransGen (Edge next) y.1 (f^[n] y).1 := by
    intro n
    induction n with
    | zero => exact fun y => .refl
    | succ n ih => exact fun y => .head (hsucc y).1 (ih (f y))
  have hfinite : Finite {x // x ∈ xs} := List.finite_toSet xs
  obtain ⟨m,n,hne,heq⟩ := Finite.exists_ne_map_eq_of_infinite fun n => f^[n] ⟨x,hx⟩
  wlog hmn : m < n generalizing m n
  · exact this n m hne.symm heq.symm (lt_of_le_of_ne (not_lt.mp hmn) hne.symm)
  refine ⟨(f^[m] ⟨x,hx⟩).1,hwalk m ⟨x,hx⟩,?_⟩
  obtain ⟨k,rfl⟩ := Nat.exists_eq_add_of_lt hmn
  have hround : f^[k] (f (f^[m] ⟨x,hx⟩)) = f^[m] ⟨x,hx⟩ := by
    rw [← Function.iterate_succ_apply,← Function.iterate_add_apply]
    simpa [Nat.add_comm,Nat.add_left_comm,Nat.add_assoc] using heq.symm
  exact .head' (hsucc _).1 (by simpa [hround] using hwalk k (f (f^[m] ⟨x,hx⟩)))

end

section peel
variable {α : Type} [DecidableEq α] {sort : List α → List α} {next : α → List α} {fuel : ℕ} {remaining : List (α × List α)} {done : List α}

theorem mem_ready (hsort : ∀ xs, (sort xs).Perm xs) (hnext : ∀ e ∈ remaining, e.2 = next e.1) {x : α} :
    x ∈ sort ((remaining.filter fun e => decide (e.2 ⊆ done)).map fst) ↔
      x ∈ remaining.map fst ∧ next x ⊆ done := by
  rw [(hsort _).mem_iff]
  constructor
  · intro hx
    obtain ⟨e,he,rfl⟩ := mem_map.mp hx
    obtain ⟨he,hd⟩ := mem_filter.mp he
    exact ⟨mem_map_of_mem he,hnext e he ▸ of_decide_eq_true hd⟩
  · rintro ⟨hx,hd⟩
    obtain ⟨e,he,rfl⟩ := mem_map.mp hx
    exact mem_map_of_mem (mem_filter.mpr ⟨he,decide_eq_true (hnext e he ▸ hd)⟩)

theorem peel_layered (hsort : ∀ xs, (sort xs).Perm xs) (hnext : ∀ e ∈ remaining, e.2 = next e.1) {layers : List (List α)}
    (h : peel sort fuel remaining done = .ok layers) :
    layers.flatten.Perm (remaining.map fst) ∧ Layered next done layers ∧ ∀ l ∈ layers, l ≠ [] ∧ ∃ xs, l = sort xs := by
  induction fuel generalizing remaining done layers with
  | zero =>
    cases remaining with
    | nil => cases h; simp [Layered]
    | cons e rest => cases h
  | succ fuel ih =>
    cases remaining with
    | nil => cases h; simp [Layered]
    | cons f rest =>
      generalize hrem : f :: rest = remaining at h hnext ⊢
      have hmem := fun x => @mem_ready α _ sort next remaining done hsort hnext x
      have hperm := hsort ((remaining.filter fun e => decide (e.2 ⊆ done)).map fst)
      generalize hready : sort ((remaining.filter fun e => decide (e.2 ⊆ done)).map fst) = ready at h hmem hperm
      simp only [← hrem,peel] at h
      simp only [hrem,hready] at h
      split at h
      · cases h
      · next hne =>
        split at h
        · next later hlater =>
          cases h
          obtain ⟨hflat,hlayered,hsorted⟩ := ih (fun e he => hnext e (mem_filter.mp he).1) hlater
          have hkept : remaining.filter (fun e => decide (e.1 ∉ ready)) =
              remaining.filter fun e => !decide (e.2 ⊆ done) := by
            refine List.filter_congr fun e he => ?_
            rw [hnext e he]
            simp [hmem,mem_map_of_mem he]
          refine ⟨?_,⟨fun x hx => ((hmem x).mp hx).2,fun x hx hd => ?_,hlayered⟩,?_⟩
          · calc (ready :: later).flatten = ready ++ later.flatten := rfl
              _ |>.Perm ((remaining.filter fun e => decide (e.2 ⊆ done)).map fst ++
                  (remaining.filter fun e => decide (e.1 ∉ ready)).map fst) := hperm.append hflat
              _ |>.Perm (remaining.map fst) := by
                rw [hkept,← List.map_append]
                exact (List.filter_append_perm _ _).map _
          · obtain ⟨e,he,rfl⟩ := mem_map.mp (hflat.mem_iff.mp hx)
            obtain ⟨he,hnot⟩ := mem_filter.mp he
            exact of_decide_eq_true hnot ((hmem _).mpr ⟨mem_map_of_mem he,hd⟩)
          · intro l hl
            rcases mem_cons.mp hl with rfl | hl
            · exact ⟨hne,_,hready.symm⟩
            · exact hsorted l hl
        · cases h

/-- What is left of a peeling that stops: everything in it waits for something in it, and
whatever climbs the successors holds of the rest. -/
theorem peel_stuck (hsort : ∀ xs, (sort xs).Perm xs) (hnext : ∀ e ∈ remaining, e.2 = next e.1)
    {left : List α} (hfuel : remaining.length ≤ fuel) (h : peel sort fuel remaining done = .error left) : ∃
    rest : List (α × List α), rest.Sublist remaining ∧ rest ≠ [] ∧ left = sort (rest.map fst) ∧
    (∀ e ∈ rest, ∃ d ∈ e.2, d ∉ done ∧ (d ∈ remaining.map fst → d ∈ rest.map fst)) ∧ ∀ P : α → Prop,
    (∀ x ∈ done, P x) → (∀ e ∈ remaining, (∀ d ∈ e.2, P d) → P e.1) → ∀ e ∈ remaining, e.1 ∈ rest.map fst ∨
    P e.1 := by
  induction fuel generalizing remaining done with
  | zero =>
    rw [List.length_eq_zero_iff.mp (Nat.le_zero.mp hfuel)] at h
    cases h
  | succ fuel ih =>
    cases remaining with
    | nil => cases h
    | cons f rest =>
      generalize hrem : f :: rest = remaining at h hnext hfuel ⊢
      have hmem := fun x => @mem_ready α _ sort next remaining done hsort hnext x
      generalize hready : sort ((remaining.filter fun e => decide (e.2 ⊆ done)).map fst) = ready at h hmem
      simp only [← hrem,peel] at h
      simp only [hrem,hready] at h
      split at h
      · next hnone =>
        cases h
        refine ⟨remaining,.refl _,by simp [← hrem],rfl,fun e he => ?_,fun P _ _ e he => .inl (mem_map_of_mem he)⟩
        have hblocked : ¬ e.2 ⊆ done := by
          intro hd
          have := (hmem e.1).mpr ⟨mem_map_of_mem he,hnext e he ▸ hd⟩
          simp [hnone] at this
        obtain ⟨d,hd,hnot⟩ : ∃ d ∈ e.2, d ∉ done := by simpa [List.subset_def] using hblocked
        exact ⟨d,hd,hnot,id⟩
      · next hne =>
        split at h
        · cases h
        · next left' hpeel =>
          cases h
          obtain ⟨x,hx⟩ := List.exists_mem_of_ne_nil _ hne
          obtain ⟨e,he,hex⟩ := mem_map.mp ((hmem x).mp hx).1
          have hshort : (remaining.filter fun e => decide (e.1 ∉ ready)).length < remaining.length :=
            List.length_filter_lt_length_iff_exists.mpr ⟨e,he,by simp [hex,hx]⟩
          obtain ⟨rest,hsub,hnil,hleft,hwaits,hclimb⟩ := ih (fun e he => hnext e (mem_filter.mp he).1) (by omega) hpeel
          refine ⟨rest,hsub.trans List.filter_sublist,hnil,hleft,fun e he => ?_,fun P hdone hstep e he => ?_⟩
          · obtain ⟨d,hd,hnot,hin⟩ := hwaits e he
            rw [mem_append,not_or] at hnot
            refine ⟨d,hd,hnot.1,fun hmemd => hin ?_⟩
            obtain ⟨e',he',rfl⟩ := mem_map.mp hmemd
            exact mem_map_of_mem (mem_filter.mpr ⟨he',decide_eq_true hnot.2⟩)
          · have hP : ∀ x ∈ ready, P x := by
              intro x hx
              obtain ⟨hx,hd⟩ := (hmem x).mp hx
              obtain ⟨e,he,rfl⟩ := mem_map.mp hx
              exact hstep e he fun d hde => hdone d (hd (hnext e he ▸ hde))
            by_cases her : e.1 ∈ ready
            · exact .inr (hP _ her)
            · exact hclimb P (fun x hx => (mem_append.mp hx).elim (hdone x) (hP x))
                (fun e he => hstep e (mem_filter.mp he).1) e (mem_filter.mpr ⟨he,decide_eq_true her⟩)

end peel

end Verdict.Search

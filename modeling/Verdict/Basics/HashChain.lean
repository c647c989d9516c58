import Mathlib.Data.List.Forall2
import Mathlib.Data.List.Induction

/-! # Hash chains

A chain whose entries name the hash of their predecessor, over any type of entries and of
hashes. Where equal hashes mean equal entries, the last hash of a chain fixes all of it.
-/
namespace Verdict.HashChain

variable {ε η : Type} (hash : ε → η) (prev : ε → Option η)

/-- Every entry names the hash of the one in front of it, the first one names `p`. -/
def Linked : Option η → List ε → Prop
  | _,[] => True
  | p,e :: es => prev e = p ∧ Linked (some (hash e)) es

def lastHash : Option η → List ε → Option η
  | p,[] => p
  | _,e :: es => lastHash (some (hash e)) es

@[simp] theorem lastHash_append (p : Option η) (xs ys : List ε) :
    lastHash hash p (xs ++ ys) = lastHash hash (lastHash hash p xs) ys := by
  induction xs generalizing p with
  | nil => rfl
  | cons x xs ih => exact ih (some (hash x))

theorem lastHash_eq_getLast? (xs : List ε) : lastHash hash none xs = xs.getLast?.map hash := by
  induction xs using List.reverseRecOn with
  | nil => rfl
  | append_singleton xs x _ => simp [lastHash]

@[simp] theorem linked_append (p : Option η) (xs ys : List ε) :
    Linked hash prev p (xs ++ ys) ↔ Linked hash prev p xs ∧ Linked hash prev (lastHash hash p xs) ys := by
  induction xs generalizing p with
  | nil => simp [Linked,lastHash]
  | cons x xs ih => simp only [List.cons_append,Linked,lastHash,ih,and_assoc]

theorem Linked.prev_eq {p : Option η} {xs ys : List ε} {e : ε} (h : Linked hash prev p (xs ++ e :: ys)) :
    prev e = lastHash hash p xs :=
  ((linked_append hash prev p xs (e :: ys)).mp h).2.1

variable {hash prev}

theorem Linked.commits {Same : ε → ε → Prop} (hprev : ∀ e f, Same e f → prev e = prev f) {xs ys : List ε}
    (hsame : ∀ e ∈ xs, ∀ f ∈ ys, hash e = hash f → Same e f) (hx : Linked hash prev none xs)
    (hy : Linked hash prev none ys) (hlast : lastHash hash none xs = lastHash hash none ys) :
    List.Forall₂ Same xs ys := by
  induction xs using List.reverseRecOn generalizing ys with
  | nil =>
    rcases List.eq_nil_or_concat ys with rfl | ⟨ys,y,rfl⟩
    · exact .nil
    · simp [lastHash] at hlast
  | append_singleton xs x ih =>
    rcases List.eq_nil_or_concat ys with rfl | ⟨ys,y,rfl⟩
    · simp [lastHash] at hlast
    · rw [List.concat_eq_append] at hy hlast ⊢
      simp only [lastHash_append,lastHash,Option.some.injEq] at hlast
      obtain ⟨hxs,hxprev,-⟩ := (linked_append hash prev none xs [x]).mp hx
      obtain ⟨hys,hyprev,-⟩ := (linked_append hash prev none ys [y]).mp hy
      have hpair := hsame x (by simp) y (by simp) hlast
      have hbefore : lastHash hash none xs = lastHash hash none ys := by
        rw [← hxprev,← hyprev]
        exact hprev x y hpair
      have hrest := ih (fun e he f hf => hsame e (by simp [he]) f (by simp [hf])) hxs hys hbefore
      exact List.rel_append hrest (.cons hpair .nil)

end Verdict.HashChain

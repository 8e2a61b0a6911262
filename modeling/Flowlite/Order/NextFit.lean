import Mathlib.Algebra.Order.Ring.Nat
import Mathlib.Algebra.BigOperators.Group.List.Basic

/-!
# Packing in order

Items come one after the other, and each goes into the group that is open as long as the
group has room for it; otherwise it opens the next one. An item that is larger than a
whole group still opens one, and is then alone in it.

The group that is open at the start may have something in it already, which `used` counts.
-/

namespace Flowlite.Order

variable {α : Type} (weight : α → Nat) (budget : Nat)

def load (group : List α) : Nat := (group.map weight).sum

@[simp] theorem load_nil : load weight [] = 0 := rfl

@[simp] theorem load_cons (x : α) (group : List α) :
    load weight (x :: group) = weight x + load weight group := by
  simp [load]

/-- The item goes in front of the first group. -/
def intoFirst (x : α) : List (List α) → List (List α)
  | [] => [[x]]
  | group :: groups => (x :: group) :: groups

@[simp] theorem intoFirst_flatten (x : α) (groups : List (List α)) :
    (intoFirst x groups).flatten = x :: groups.flatten := by
  cases groups <;> rfl

def nextFit : Nat → List α → List (List α)
  | _, [] => [[]]
  | used, x :: xs =>
      if used + weight x > budget then [] :: intoFirst x (nextFit (weight x) xs)
      else intoFirst x (nextFit (used + weight x) xs)

example : nextFit id 5 1 [2, 3, 1, 9, 2] = [[2], [3, 1], [9], [2]] := by decide

/-- Every item is in one group, in the order they came in. -/
theorem nextFit_flatten (used : Nat) (xs : List α) :
    (nextFit weight budget used xs).flatten = xs := by
  induction xs generalizing used with
  | nil => rfl
  | cons x xs ih =>
      unfold nextFit
      split
      · rw [List.flatten_cons, intoFirst_flatten, ih, List.nil_append]
      · rw [intoFirst_flatten, ih]

/-- No group is over the budget, unless it is one item that is so on its own. Only the
first group can be empty, when what was in it left no room. -/
theorem nextFit_fits (used : Nat) (xs : List α) :
    ∃ first rest, nextFit weight budget used xs = first :: rest ∧
      (first ≠ [] → used + load weight first ≤ budget) ∧
      ∀ group ∈ rest, group ≠ [] ∧ (load weight group ≤ budget ∨ ∃ x, group = [x]) := by
  induction xs generalizing used with
  | nil => exact ⟨[], [], rfl, fun h => absurd rfl h, fun _ h => nomatch h⟩
  | cons x xs ih =>
      by_cases hover : used + weight x > budget
      · obtain ⟨first, rest, heq, hfirst, hrest⟩ := ih (weight x)
        refine ⟨[], (x :: first) :: rest, ?_, fun h => absurd rfl h, ?_⟩
        · rw [nextFit, if_pos hover, heq, intoFirst]
        · intro group hgroup
          rcases List.mem_cons.mp hgroup with rfl | hgroup
          · refine ⟨List.cons_ne_nil x first, ?_⟩
            cases first with
            | nil => exact Or.inr ⟨x, rfl⟩
            | cons y ys => exact Or.inl (hfirst (List.cons_ne_nil y ys))
          · exact hrest group hgroup
      · obtain ⟨first, rest, heq, hfirst, hrest⟩ := ih (used + weight x)
        refine ⟨x :: first, rest, ?_, fun _ => ?_, hrest⟩
        · rw [nextFit, if_neg hover, heq, intoFirst]
        · cases first with
          | nil =>
              show used + (weight x + 0) ≤ budget
              omega
          | cons y ys =>
              have hload := hfirst (List.cons_ne_nil y ys)
              rw [load_cons]
              omega

end Flowlite.Order

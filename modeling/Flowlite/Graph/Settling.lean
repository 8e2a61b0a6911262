import Mathlib.Order.WellFoundedSet
import Flowlite.Graph.Cycles

/-!
# What the nodes of a graph come to

Work is done in the order of a relation: a node behind one that has gone wrong is passed
over, and any other comes to what it makes of itself once everything it waits for has gone
well. `Settles` says so as a derivation. A node comes to one thing only, whatever the order,
and on a graph without cycles every account that keeps the rule at each node is derived.
-/

namespace Flowlite.Graph

open Relation

variable {V S : Type*} {R : V → V → Prop}

/-! ## Walks come to an end -/

/-- A relation without a cycle that leads out of a finite number of elements only can be gone
through from the end. -/
theorem Acyclic.wellFounded (h : Acyclic R) (l : List V) (hl : ∀ a b, R a b → a ∈ l) :
    WellFounded fun b a => R a b := by
  have horder : IsStrictOrder V fun b a => TransGen R a b :=
    { irrefl := h, trans := fun a b c hba hcb => hcb.trans hba }
  have hon : {a | a ∈ l}.WellFoundedOn fun b a => TransGen R a b :=
    (List.finite_toSet l).wellFoundedOn
  have hmem : ∀ a ∈ l, Acc (fun b a => R a b) a := by
    intro a ha
    refine hon.induction ha fun b hb ih => ⟨b, fun c hbc => ?_⟩
    by_cases hc : c ∈ l
    · exact ih c hc (.single hbc)
    · exact ⟨c, fun d hcd => absurd (hl c d hcd) hc⟩
  refine ⟨fun a => ⟨a, fun b hab => ?_⟩⟩
  by_cases hb : b ∈ l
  · exact hmem b hb
  · exact ⟨b, fun c hbc => absurd (hl b c hbc) hb⟩

/-- Some element of those with a property leads to none of them. -/
theorem Acyclic.exists_last (h : Acyclic R) (l : List V) (hl : ∀ a b, R a b → a ∈ l)
    {P : V → Prop} {a : V} (ha : P a) : ∃ b, P b ∧ ∀ c, R b c → ¬ P c := by
  obtain ⟨b, hb, hlast⟩ := (h.wellFounded l hl).has_min {b | P b} ⟨a, ha⟩
  exact ⟨b, hb, fun c hbc hc => hlast c hc hbc⟩

/-! ## The rule -/

/-- `a` comes to `s`: `own` is what a node makes of itself, `ok` is what it takes of the nodes
it waits for, and `passed` is what it comes to behind a `bad` one. -/
inductive Settles (R : V → V → Prop) (own : V → Option S) (ok passed : S) (bad : S → Prop) :
    V → S → Prop
  | passed {a b : V} {s : S} : R a b → Settles R own ok passed bad b s → bad s →
      Settles R own ok passed bad a passed
  | own {a : V} {s : S} : (∀ b, R a b → Settles R own ok passed bad b ok) → own a = some s →
      Settles R own ok passed bad a s

variable {own : V → Option S} {ok passed : S} {bad : S → Prop}

/-- A node comes to one thing only. -/
theorem Settles.unique (hok : ¬ bad ok) {a : V} {s s' : S}
    (h : Settles R own ok passed bad a s) (h' : Settles R own ok passed bad a s') : s = s' := by
  induction h generalizing s' with
  | passed hab _ hbad ih =>
      cases h' with
      | passed => rfl
      | own hall _ => exact absurd (ih (hall _ hab) ▸ hbad) hok
  | own _ hown ih =>
      cases h' with
      | passed hab hb hbad => exact absurd (ih _ hab hb ▸ hbad) hok
      | own _ hown' => exact Option.some.inj (hown.symm.trans hown')

/-- An account of the nodes keeps the rule at each of them. -/
def KeepsRule (R : V → V → Prop) (own : V → Option S) (ok passed : S) (bad : S → Prop)
    (account : V → S → Prop) : Prop :=
  ∀ a s, account a s → (s = passed ∧ ∃ b s', R a b ∧ account b s' ∧ bad s') ∨
    (∀ b, R a b → account b ok) ∧ own a = some s

/-- Then it is derived. -/
theorem KeepsRule.settles {account : V → S → Prop} (hwf : WellFounded fun b a => R a b)
    (h : KeepsRule R own ok passed bad account) {a : V} {s : S} (ha : account a s) :
    Settles R own ok passed bad a s := by
  induction a using hwf.induction generalizing s with
  | _ a ih =>
      rcases h a s ha with ⟨rfl, b, s', hab, hb, hbad⟩ | ⟨hall, hown⟩
      · exact .passed hab (ih b hab hb) hbad
      · exact .own (fun b hab => ih b hab (hall b hab)) hown

end Flowlite.Graph

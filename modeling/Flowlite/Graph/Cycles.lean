import Mathlib.Data.List.Chain
import Mathlib.Logic.Relation

/-!
# Cycles of a relation

A relation has a cycle when some element reaches itself in one step or more. A search that
looks for one finds it as a list (`IsCycle`), and knows that there is none below an element
once it knows it of every successor (`noCycleBelow_of_next`).
-/

namespace Flowlite.Graph

open Relation

variable {V : Type*} {R : V → V → Prop} {a b : V} {l : List V}

def Acyclic (R : V → V → Prop) : Prop := ∀ a, ¬ TransGen R a a

/-- A walk along `R` that ends where it starts. -/
structure IsCycle (R : V → V → Prop) (l : List V) : Prop where
  closed : ∃ a between, l = a :: (between ++ [a])
  chain : l.IsChain R

/-- Nothing that can be reached from `a` reaches itself. -/
def NoCycleBelow (R : V → V → Prop) (a : V) : Prop :=
  ∀ b, ReflTransGen R a b → ¬ TransGen R b b

theorem transGen_of_chain {between : List V} (h : (a :: (between ++ [b])).IsChain R) :
    TransGen R a b := by
  induction between generalizing a with
  | nil =>
      rw [List.nil_append, List.isChain_cons_cons] at h
      exact .single h.1
  | cons c between ih =>
      rw [List.cons_append, List.isChain_cons_cons] at h
      exact .head h.1 (ih h.2)

theorem IsCycle.not_acyclic (h : IsCycle R l) : ¬ Acyclic R := by
  obtain ⟨a, between, rfl⟩ := h.closed
  exact fun hacyclic => hacyclic a (transGen_of_chain h.chain)

/-- There is no cycle below `a` if there is none below what comes next: a cycle through `a`
goes through one of those. -/
theorem noCycleBelow_of_next (h : ∀ b, R a b → NoCycleBelow R b) : NoCycleBelow R a := by
  intro c hac hcycle
  rcases ReflTransGen.cases_head hac with rfl | ⟨b, hab, hbc⟩
  · obtain ⟨b, hab, hba⟩ := TransGen.head'_iff.mp hcycle
    exact h b hab b .refl (.tail' hba hab)
  · exact h b hab c hbc hcycle

/-- A cycle is below each element it goes through, so it is enough to look there. -/
theorem acyclic_of_noCycleBelow (h : ∀ a b, R a b → NoCycleBelow R a) : Acyclic R := by
  intro a hcycle
  obtain ⟨b, hab, -⟩ := TransGen.head'_iff.mp hcycle
  exact h a b hab a .refl hcycle

/-- The way back from the last element of a walk to one that is on it. -/
theorem isCycle_of_mem_path {before after : List V}
    (hchain : (before ++ a :: after).IsChain R)
    (hback : ∀ last ∈ (before ++ a :: after).getLast?, R last a) :
    IsCycle R (a :: (after ++ [a])) := by
  refine ⟨⟨a, after, rfl⟩, ?_⟩
  have hafter : (a :: after).IsChain R := hchain.right_of_append
  rw [← List.cons_append]
  refine hafter.append (.singleton a) ?_
  intro x hx y hy
  rw [List.head?_singleton, Option.mem_some_iff] at hy
  rw [← hy]
  refine hback x ?_
  rw [List.getLast?_append]
  simp [Option.mem_def.mp hx]

end Flowlite.Graph

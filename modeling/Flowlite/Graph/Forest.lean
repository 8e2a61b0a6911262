import Flowlite.Graph.Cycles
import Mathlib.Data.List.Perm.Subperm
import Mathlib.Data.List.Nodup

/-!
# Searching a forest

In a forest every node has one parent at most. A search that takes a node off a stack and
puts its children there finds everything below the node it starts at, each once and after
its parent (`searchBelow_spec`), in no more steps than there are nodes.
-/

namespace Flowlite.Graph

open Relation

variable {V : Type*} {children : V → List V} {top v c : V}
  {done stack found : List V} {fuel : Nat}

/-- Nobody is a child twice, of two nodes, or of a node below it. -/
structure Forest (children : V → List V) : Prop where
  once : ∀ v, (children v).Nodup
  oneParent : ∀ u v c, c ∈ children u → c ∈ children v → u = v
  acyclic : Acyclic fun u c => c ∈ children u

/-- The search: `stack` is still to be looked below, `found` has been found. -/
def searchBelow (children : V → List V) : Nat → List V → List V → List V
  | 0, _, found => found
  | _ + 1, [], found => found
  | fuel + 1, v :: stack, found =>
      searchBelow children fuel ((children v).reverse ++ stack) (found ++ children v)

/-- How far a search below `top` has come. -/
structure Searching (children : V → List V) (top : V) (done stack found : List V) : Prop where
  seen : (done ++ stack).Perm (top :: found)
  once : (top :: found).Nodup
  below : ∀ c ∈ found, TransGen (fun u c => c ∈ children u) top c
  closed : ∀ v ∈ done, ∀ c ∈ children v, c ∈ found
  byParent : ∀ c ∈ found, ∃ v ∈ done, c ∈ children v
  after : ∀ before c rest, found = before ++ c :: rest → ∃ v ∈ top :: before, c ∈ children v

theorem searching_start (children : V → List V) (top : V) :
    Searching children top [] [top] [] where
  seen := List.Perm.refl _
  once := List.nodup_singleton top
  below c hc := (List.not_mem_nil hc).elim
  closed v hv := (List.not_mem_nil hv).elim
  byParent c hc := (List.not_mem_nil hc).elim
  after before c rest h := by simp at h

theorem Searching.step (hforest : Forest children)
    (h : Searching children top done (v :: stack) found) :
    Searching children top (v :: done) ((children v).reverse ++ stack) (found ++ children v) := by
  have hv : v ∈ top :: found := h.seen.mem_iff.mp (by simp)
  have hbelow : ∀ c ∈ children v, TransGen (fun u c => c ∈ children u) top c := by
    intro c hc
    rcases List.mem_cons.mp hv with rfl | hv
    · exact .single hc
    · exact .tail (h.below v hv) hc
  constructor
  case seen =>
    have hmoved : (v :: done ++ ((children v).reverse ++ stack)).Perm
        (done ++ v :: stack ++ children v) := by
      rw [List.cons_append, List.append_assoc, List.cons_append]
      refine List.Perm.trans ?_ List.perm_middle.symm
      refine (List.Perm.append_left done ?_).cons v
      exact ((List.reverse_perm _).append_right stack).trans List.perm_append_comm
    exact hmoved.trans (h.seen.append_right _)
  case once =>
    rw [← List.cons_append]
    refine h.once.append (hforest.once v) ?_
    intro c hc hchild
    rcases List.mem_cons.mp hc with rfl | hc
    · exact hforest.acyclic c (hbelow c hchild)
    · -- its parent would have been looked below already
      obtain ⟨u, hu, hcu⟩ := h.byParent c hc
      have hnodup := h.seen.nodup_iff.mpr h.once
      rw [hforest.oneParent u v c hcu hchild] at hu
      exact (List.nodup_append.mp hnodup).2.2 v hu v List.mem_cons_self rfl
  case below =>
    intro c hc
    rcases List.mem_append.mp hc with hc | hc
    · exact h.below c hc
    · exact hbelow c hc
  case closed =>
    intro u hu c hc
    rcases List.mem_cons.mp hu with rfl | hu
    · exact List.mem_append_right _ hc
    · exact List.mem_append_left _ (h.closed u hu c hc)
  case byParent =>
    intro c hc
    rcases List.mem_append.mp hc with hc | hc
    · obtain ⟨u, hu, hcu⟩ := h.byParent c hc
      exact ⟨u, List.mem_cons_of_mem _ hu, hcu⟩
    · exact ⟨v, List.mem_cons_self, hc⟩
  case after =>
    intro before c rest heq
    rcases List.append_eq_append_iff.mp heq with ⟨between, hbefore, hrest⟩ | ⟨between, hfound, hrest⟩
    · -- one of the children just found: `v` comes before all of them
      refine ⟨v, ?_, by rw [hrest]; simp⟩
      rw [hbefore, ← List.cons_append]
      exact List.mem_append_left _ hv
    · cases between with
      | nil =>
          refine ⟨v, ?_, ?_⟩
          · rw [hfound, List.append_nil] at hv
            exact hv
          · rw [List.nil_append] at hrest
            rw [← hrest]
            exact List.mem_cons_self
      | cons d between =>
          rw [List.cons_append] at hrest
          cases hrest
          exact h.after before c between hfound

/-- A search that has nothing left to look below has found everything. -/
theorem Searching.complete (h : Searching children top done [] found)
    (hbelow : TransGen (fun u c => c ∈ children u) top c) : c ∈ found := by
  have hdone : ∀ u ∈ top :: found, u ∈ done := by
    intro u hu
    have hmem := h.seen.mem_iff.mpr hu
    rwa [List.append_nil] at hmem
  induction hbelow with
  | single hc => exact h.closed top (hdone top List.mem_cons_self) _ hc
  | tail _ hc ih => exact h.closed _ (hdone _ (List.mem_cons_of_mem _ ih)) _ hc

/-- What a search has found when it comes to its end. -/
structure FoundBelow (children : V → List V) (top : V) (found : List V) : Prop where
  once : found.Nodup
  mem_iff : ∀ c, c ∈ found ↔ TransGen (fun u c => c ∈ children u) top c
  after : ∀ before c rest, found = before ++ c :: rest → ∃ v ∈ top :: before, c ∈ children v

theorem Searching.foundBelow (h : Searching children top done [] found) :
    FoundBelow children top found where
  once := (List.nodup_cons.mp h.once).2
  mem_iff c := ⟨h.below c, h.complete⟩
  after := h.after

/-- A search has looked below every node there is, at the latest, and found the same
whatever fuel it has left. -/
theorem Searching.ends (hforest : Forest children) {nodes : List V}
    (hnodes : ∀ v, children v ⊆ nodes) (h : Searching children top done stack found)
    (hfuel : nodes.length < fuel + done.length) :
    ∃ all, FoundBelow children top all ∧
      ∀ more, searchBelow children (fuel + more) stack found = all := by
  induction fuel generalizing done stack found with
  | zero =>
      have hsub : found ⊆ nodes := by
        intro c hc
        obtain ⟨v, -, hcv⟩ := h.byParent c hc
        exact hnodes v hcv
      have hle := ((List.nodup_cons.mp h.once).2.subperm hsub).length_le
      have hlen := h.seen.length_eq
      rw [List.length_append, List.length_cons] at hlen
      have hstack : stack = [] := List.eq_nil_of_length_eq_zero (by omega)
      subst hstack
      refine ⟨found, h.foundBelow, fun more => ?_⟩
      cases more <;> rfl
  | succ fuel ih =>
      cases stack with
      | nil =>
          refine ⟨found, h.foundBelow, fun more => ?_⟩
          rw [Nat.succ_add]
          rfl
      | cons v stack =>
          obtain ⟨all, hall, hsame⟩ := ih (h.step hforest) (by rw [List.length_cons]; omega)
          refine ⟨all, hall, fun more => ?_⟩
          rw [Nat.succ_add]
          exact hsame more

/-- **The search**: with fuel for every node and one more it finds what is below `top`. -/
theorem searchBelow_spec (hforest : Forest children) {nodes : List V}
    (hnodes : ∀ v, children v ⊆ nodes) (top : V) :
    ∃ all, FoundBelow children top all ∧
      ∀ fuel, nodes.length < fuel → searchBelow children fuel [top] [] = all := by
  obtain ⟨all, hall, hsame⟩ := (searching_start children top).ends hforest hnodes
    (Nat.lt_succ_self nodes.length)
  refine ⟨all, hall, fun fuel hfuel => ?_⟩
  obtain ⟨more, rfl⟩ := Nat.exists_eq_add_of_le hfuel
  exact hsame more

/-- In the reverse order every node comes after all its children. -/
theorem FoundBelow.children_first (h : FoundBelow children top found)
    (hforest : Forest children) {before rest : List V}
    (heq : found.reverse ++ [top] = before ++ v :: rest) (hc : c ∈ children v) :
    c ∈ before := by
  have hmem : c ∈ found := by
    rw [h.mem_iff]
    have hv : v ∈ found.reverse ++ [top] := by
      rw [heq]
      simp
    rcases List.mem_append.mp hv with hv | hv
    · exact .tail ((h.mem_iff v).mp (List.mem_reverse.mp hv)) hc
    · rw [List.mem_singleton.mp hv] at hc
      exact .single hc
  -- otherwise it would stand before its parent in `found`
  by_contra hnot
  have hrest : c ∈ v :: rest := by
    have hall : c ∈ before ++ v :: rest := by
      rw [← heq]
      exact List.mem_append_left _ (List.mem_reverse.mpr hmem)
    exact (List.mem_append.mp hall).resolve_left hnot
  have hne : c ≠ v := by
    rintro rfl
    exact hforest.acyclic c (.single hc)
  obtain ⟨between, after, hsplit⟩ :=
    List.append_of_mem ((List.mem_cons.mp hrest).resolve_left hne)
  rw [hsplit] at heq
  have hback := congrArg List.reverse heq
  simp only [List.reverse_append, List.reverse_reverse, List.reverse_cons, List.reverse_nil,
    List.nil_append, List.append_assoc, List.singleton_append] at hback
  -- `top` comes first of all, then what was found before `c`
  cases hafter : after.reverse with
  | nil =>
      rw [hafter] at hback
      simp only [List.nil_append, List.cons_append] at hback
      have htop := (List.cons.inj hback).1
      have hnotop : ¬ TransGen (fun u c => c ∈ children u) top top := hforest.acyclic top
      exact hnotop (by rw [h.mem_iff, ← htop] at hmem; exact hmem)
  | cons first others =>
      rw [hafter] at hback
      simp only [List.cons_append] at hback
      obtain ⟨rfl, hfound⟩ := List.cons.inj hback
      obtain ⟨u, hu, hcu⟩ := h.after others c _ hfound
      rw [hforest.oneParent u v c hcu hc] at hu
      have hnodup : (top :: found).Nodup := by
        rw [List.nodup_cons]
        refine ⟨fun htop => ?_, h.once⟩
        exact hforest.acyclic top ((h.mem_iff top).mp htop)
      rw [hfound] at hnodup
      have hlater : v ∈ between.reverse ++ v :: before.reverse := by simp
      rcases List.mem_cons.mp hu with rfl | hu
      · exact (List.nodup_cons.mp hnodup).1 (by simp)
      · have happ := (List.nodup_cons.mp hnodup).2
        exact (List.nodup_append.mp happ).2.2 v hu v (List.mem_cons_of_mem _ hlater) rfl

end Flowlite.Graph

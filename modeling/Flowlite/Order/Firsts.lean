import Mathlib.Data.Set.Card
import Mathlib.Order.Bounds.Basic

/-!
# The first elements of a set

`FirstOf S n l` says that `l` lists the first `n` elements of `S` in increasing order, all of
them where there are fewer. A search that takes the least element again and again lists them
(`FirstOf.cons`), and one list is the first elements of two sets iff the sets differ only
after `n` elements (`firstOf_iff_of_firstOf`).
-/

namespace Flowlite.Firsts

variable {α : Type*} [LinearOrder α]

/-- `l` is the first `n` elements of `S`, in increasing order. -/
structure FirstOf (S : Set α) (n : Nat) (l : List α) : Prop where
  increasing : l.Pairwise (· < ·)
  length_le : l.length ≤ n
  mem : ∀ a ∈ l, a ∈ S
  /-- One that is left out comes after a full list. -/
  complete : ∀ a ∈ S, a ∉ l → l.length = n ∧ ∀ b ∈ l, b < a

namespace FirstOf

variable {S A B : Set α} {n : Nat} {l : List α} {a b m : α}

theorem zero (S : Set α) : FirstOf S 0 [] where
  increasing := List.Pairwise.nil
  length_le := le_rfl
  mem := by simp
  complete := by simp

theorem nil (n : Nat) (hS : ∀ a, a ∉ S) : FirstOf S n [] where
  increasing := List.Pairwise.nil
  length_le := Nat.zero_le n
  mem := by simp
  complete a ha := absurd ha (hS a)

/-- The least element, then the first of what comes after it. -/
theorem cons (hm : IsLeast S m) (h : FirstOf {a | a ∈ S ∧ m < a} n l) :
    FirstOf S (n + 1) (m :: l) where
  increasing := List.pairwise_cons.mpr ⟨fun a ha => (h.mem a ha).2, h.increasing⟩
  length_le := Nat.succ_le_succ h.length_le
  mem a ha := by
    rcases List.mem_cons.mp ha with heq | ha
    · rw [heq]; exact hm.1
    · exact (h.mem a ha).1
  complete a ha hout := by
    have hlt : m < a := lt_of_le_of_ne (hm.2 ha) fun heq => hout (heq ▸ List.mem_cons_self ..)
    obtain ⟨hlength, hbelow⟩ :=
      h.complete a ⟨ha, hlt⟩ fun hin => hout (List.mem_cons_of_mem _ hin)
    refine ⟨by rw [List.length_cons, hlength], fun b hb => ?_⟩
    rcases List.mem_cons.mp hb with heq | hb
    · rw [heq]; exact hlt
    · exact hbelow b hb

theorem congr (hAB : ∀ a, a ∈ A ↔ a ∈ B) (h : FirstOf A n l) : FirstOf B n l := by
  rwa [← Set.ext hAB]

/-- The elements of `S` before `a`, as many as there are. -/
theorem length_le_before (h : FirstOf S n l) (hall : ∀ b ∈ l, b < a) :
    (l.length : ℕ∞) ≤ {b | b ∈ S ∧ b < a}.encard := by
  have hsub : (↑l.toFinset : Set α) ⊆ {b | b ∈ S ∧ b < a} := by
    intro b hb
    have hb : b ∈ l := by simpa using hb
    exact ⟨h.mem b hb, hall b hb⟩
  have hcard : l.toFinset.card = l.length :=
    List.toFinset_card_of_nodup (h.increasing.imp fun hlt => hlt.ne)
  calc (l.length : ℕ∞) = (↑l.toFinset : Set α).encard := by
        rw [Set.encard_coe_eq_coe_finsetCard, hcard]
    _ ≤ _ := Set.encard_le_encard hsub

/-- Where `n` elements come before `a`, the first `n` do. -/
theorem before_of_card (h : FirstOf S n l) (hcard : (n : ℕ∞) ≤ {b | b ∈ S ∧ b < a}.encard) :
    l.length = n ∧ ∀ b ∈ l, b < a := by
  by_cases hsub : {b | b ∈ S ∧ b < a} ⊆ {b | b ∈ l ∧ b < a}
  · -- all of them are in the list, which leaves no room for others
    have hfilter : {b | b ∈ l ∧ b < a} = ↑(l.filter (· < a)).toFinset := by
      ext b; simp
    have hle : n ≤ (l.filter (· < a)).length := by
      have hcount := hcard.trans (Set.encard_le_encard hsub)
      rw [hfilter, Set.encard_coe_eq_coe_finsetCard] at hcount
      exact (Nat.cast_le.mp hcount).trans (List.toFinset_card_le _)
    have hlength := h.length_le
    have hkeeps := List.length_filter_le (· < a) l
    have hall : (l.filter (· < a)).length = l.length := by omega
    refine ⟨by omega, fun b hb => ?_⟩
    have hb := List.length_filter_eq_length_iff.mp hall b hb
    simpa using hb
  · obtain ⟨b, ⟨hb, hlt⟩, hout⟩ := Set.not_subset.mp hsub
    obtain ⟨hlength, hbelow⟩ := h.complete b hb fun hin => hout ⟨hin, hlt⟩
    exact ⟨hlength, fun c hc => (hbelow c hc).trans hlt⟩

end FirstOf

variable {A B : Set α} {n : Nat} {l : List α}

/-- The first `n` of one set are the first `n` of another iff what only one of them has
comes after `n` elements of the other. -/
theorem firstOf_iff_of_firstOf (h : FirstOf A n l)
    (hleast : ∀ a, ¬ (a ∈ A ↔ a ∈ B) → ∃ m, IsLeast {a | ¬ (a ∈ A ↔ a ∈ B)} m) :
    FirstOf B n l ↔
      ∀ a, ¬ (a ∈ A ↔ a ∈ B) → (n : ℕ∞) ≤ {b | b ∈ B ∧ b < a}.encard := by
  constructor
  · intro hB a ha
    have hout : a ∉ l := fun hin => ha ⟨fun _ => hB.mem a hin, fun _ => h.mem a hin⟩
    have hbefore : l.length = n ∧ ∀ b ∈ l, b < a := by
      by_cases haA : a ∈ A
      · exact h.complete a haA hout
      · have haB : a ∈ B := by
          by_contra haB
          exact ha ⟨fun hin => absurd hin haA, fun hin => absurd hin haB⟩
        exact hB.complete a haB hout
    rw [← hbefore.1]
    exact hB.length_le_before hbefore.2
  · intro hfar
    by_cases hsame : ∀ a, a ∈ A ↔ a ∈ B
    · exact h.congr hsame
    · obtain ⟨a, ha⟩ := not_forall.mp hsame
      obtain ⟨m, hm, hleast⟩ := hleast a ha
      -- up to the first difference the two sets are one
      have hbelow : ∀ b, b < m → (b ∈ A ↔ b ∈ B) := by
        intro b hb
        by_contra hdiffer
        exact absurd (hleast hdiffer) (not_le.mpr hb)
      have hsets : {b | b ∈ B ∧ b < m} = {b | b ∈ A ∧ b < m} := by
        ext b
        exact ⟨fun hb => ⟨(hbelow b hb.2).mpr hb.1, hb.2⟩,
          fun hb => ⟨(hbelow b hb.2).mp hb.1, hb.2⟩⟩
      have hcard := hfar m hm
      rw [hsets] at hcard
      obtain ⟨hlength, hall⟩ := h.before_of_card hcard
      refine ⟨h.increasing, h.length_le, fun b hb => (hbelow b (hall b hb)).mp (h.mem b hb),
        fun b hb hout => ?_⟩
      by_cases hlt : b < m
      · exact h.complete b ((hbelow b hlt).mpr hb) hout
      · exact ⟨hlength, fun c hc => (hall c hc).trans_le (not_lt.mp hlt)⟩

end Flowlite.Firsts

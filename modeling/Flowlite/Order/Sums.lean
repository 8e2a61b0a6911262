import Mathlib.Algebra.Order.BigOperators.Group.List
import Mathlib.Algebra.Order.Ring.Nat

/-!
# Sums over rows with a key

Two lists of weighed entries are compared by what the entries are filed under. Where every
entry of the one is in the other and weighs no more there, the sums compare (`sum_le`); and
where the sums are one, nothing is new in the other and nothing weighs more (`of_sum_eq`).
A weight that rises with every step bounds the number of the steps
(`length_le_of_rising`).
-/

namespace Flowlite.Sums

variable {α β γ κ : Type*} {key : α → κ} {key' : β → κ} {f : α → Nat} {g : β → Nat}

/-- Every entry of the one list is, under the same key, in the other, and weighs no more. -/
def Outweighs (key : α → κ) (key' : β → κ) (f : α → Nat) (g : β → Nat) (l : List α)
    (l' : List β) : Prop :=
  ∀ x ∈ l, ∃ y ∈ l', key' y = key x ∧ f x ≤ g y

/-- With its first entry the one list loses the key, so the other may lose an entry of it. -/
theorem Outweighs.tail {x : α} {y : β} {l : List α} {s t : List β}
    (h : Outweighs key key' f g (x :: l) (s ++ y :: t)) (hkey : key' y = key x)
    (hnodup : ((x :: l).map key).Nodup) : Outweighs key key' f g l (s ++ t) := by
  intro z hz
  obtain ⟨v, hv, hvkey, hle⟩ := h z (List.mem_cons_of_mem x hz)
  refine ⟨v, ?_, hvkey, hle⟩
  have hne : v ≠ y := by
    rintro rfl
    rw [List.map_cons, List.nodup_cons] at hnodup
    apply hnodup.1
    rw [← hkey, hvkey]
    exact List.mem_map_of_mem hz
  simp only [List.mem_append, List.mem_cons] at hv ⊢
  rcases hv with hs | heq | ht
  · exact .inl hs
  · exact absurd heq hne
  · exact .inr ht

theorem sum_around (s t : List β) (y : β) :
    ((s ++ y :: t).map g).sum = g y + ((s ++ t).map g).sum := by
  simp only [List.map_append, List.map_cons, List.sum_append, List.sum_cons]
  omega

/-- **The other list weighs at least as much.** -/
theorem sum_le {l : List α} {l' : List β} (hnodup : (l.map key).Nodup)
    (h : Outweighs key key' f g l l') : (l.map f).sum ≤ (l'.map g).sum := by
  induction l generalizing l' with
  | nil => exact Nat.zero_le _
  | cons x l ih =>
      obtain ⟨y, hy, hkey, hle⟩ := h x List.mem_cons_self
      obtain ⟨s, t, rfl⟩ := List.append_of_mem hy
      have hrest := ih (List.nodup_cons.mp hnodup).2 (h.tail hkey hnodup)
      rw [sum_around, List.map_cons, List.sum_cons]
      omega

/-- **Where both weigh the same**, every entry of the other is one of the first list, at its
weight. -/
theorem of_sum_eq {l : List α} {l' : List β} (hnodup : (l.map key).Nodup)
    (h : Outweighs key key' f g l l') (hpos : ∀ y ∈ l', 0 < g y)
    (hsum : (l.map f).sum = (l'.map g).sum) :
    ∀ y ∈ l', ∃ x ∈ l, key' y = key x ∧ f x = g y := by
  induction l generalizing l' with
  | nil =>
      intro y hy
      have hle : g y ≤ (l'.map g).sum := List.le_sum_of_mem (List.mem_map_of_mem hy)
      have hzero : (l'.map g).sum = 0 := hsum.symm
      have hy := hpos y hy
      omega
  | cons x l ih =>
      obtain ⟨y, hy, hkey, hle⟩ := h x List.mem_cons_self
      obtain ⟨s, t, rfl⟩ := List.append_of_mem hy
      have htail := h.tail hkey hnodup
      have hnodup' := (List.nodup_cons.mp hnodup).2
      have hrest := sum_le hnodup' htail
      rw [sum_around, List.map_cons, List.sum_cons] at hsum
      have hmem : ∀ v, v ∈ s ++ y :: t ↔ v = y ∨ v ∈ s ++ t := fun v => by
        simp only [List.mem_append, List.mem_cons]
        tauto
      intro z hz
      rcases (hmem z).mp hz with rfl | hz
      · exact ⟨x, List.mem_cons_self, hkey, by omega⟩
      · obtain ⟨v, hv, hsame⟩ := ih hnodup' htail
          (fun v hv => hpos v ((hmem v).mpr (.inr hv))) (by omega) z hz
        exact ⟨v, List.mem_cons_of_mem x hv, hsame⟩

/-- **A rising weight bounds the number of steps.** -/
theorem length_le_of_rising {m : γ → Nat} {c : γ} {cs : List γ}
    (h : (c :: cs).IsChain fun c c' => m c < m c') :
    m c + cs.length ≤ m ((c :: cs).getLast (List.cons_ne_nil c cs)) := by
  induction cs generalizing c with
  | nil => exact le_rfl
  | cons c' cs ih =>
      obtain ⟨hlt, hchain⟩ := List.isChain_cons_cons.mp h
      have hrest := ih hchain
      rw [List.getLast_cons (List.cons_ne_nil c' cs), List.length_cons]
      omega

end Flowlite.Sums

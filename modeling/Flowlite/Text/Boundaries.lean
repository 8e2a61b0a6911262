import Mathlib.Algebra.Order.Ring.Nat
import Mathlib.Data.List.Basic

/-!
# Cutting text on a character boundary

Text is a list of characters, each so many bytes long in UTF-8. What is said here is what
a slice on a byte count takes: `splitAtByte` gives the characters that fit, and the
positions a slice may be made at are the boundaries.
-/

namespace Flowlite.Text

/-- How long the text is in UTF-8. -/
def byteLen (s : List Char) : Nat := (s.map Char.utf8Size).sum

@[simp] theorem byteLen_nil : byteLen [] = 0 := rfl

@[simp] theorem byteLen_cons (c : Char) (s : List Char) :
    byteLen (c :: s) = c.utf8Size + byteLen s := by
  simp [byteLen]

@[simp] theorem byteLen_append (s t : List Char) :
    byteLen (s ++ t) = byteLen s + byteLen t := by
  simp [byteLen]

theorem byteLen_pos {s : List Char} (h : s ≠ []) : 0 < byteLen s := by
  cases s with
  | nil => exact absurd rfl h
  | cons c s =>
      have hc : 0 < c.utf8Size := Char.utf8Size_pos c
      rw [byteLen_cons]
      omega

/-- The characters that fit into the first `n` bytes, and the rest. -/
def splitAtByte : List Char → Nat → List Char × List Char
  | [], _ => ([], [])
  | c :: s, n =>
      if c.utf8Size ≤ n then
        (c :: (splitAtByte s (n - c.utf8Size)).1, (splitAtByte s (n - c.utf8Size)).2)
      else ([], c :: s)

theorem splitAtByte_cons (c : Char) (s : List Char) (n : Nat) :
    splitAtByte (c :: s) n =
      if c.utf8Size ≤ n then
        (c :: (splitAtByte s (n - c.utf8Size)).1, (splitAtByte s (n - c.utf8Size)).2)
      else ([], c :: s) := rfl

/-- A character starts at byte `n`, or the text ends there. -/
def isCharBoundary : List Char → Nat → Bool
  | _, 0 => true
  | [], _ + 1 => false
  | c :: s, n + 1 => c.utf8Size ≤ n + 1 && isCharBoundary s (n + 1 - c.utf8Size)

@[simp] theorem splitAtByte_append (s : List Char) (n : Nat) :
    (splitAtByte s n).1 ++ (splitAtByte s n).2 = s := by
  induction s generalizing n with
  | nil => rfl
  | cons c s ih =>
      rw [splitAtByte_cons]
      split
      · rw [List.cons_append, ih]
      · rfl

theorem byteLen_splitAtByte_le (s : List Char) (n : Nat) :
    byteLen (splitAtByte s n).1 ≤ n := by
  induction s generalizing n with
  | nil => exact Nat.zero_le n
  | cons c s ih =>
      rw [splitAtByte_cons]
      split
      · have hrest := ih (n - c.utf8Size)
        rw [byteLen_cons]
        omega
      · exact Nat.zero_le n

/-- The character that was left is longer than the room that was left for it. -/
theorem room_lt_of_splitAtByte {s : List Char} {n : Nat} {c : Char} {rest : List Char}
    (h : (splitAtByte s n).2 = c :: rest) : n - byteLen (splitAtByte s n).1 < c.utf8Size := by
  induction s generalizing n with
  | nil => cases h
  | cons d s ih =>
      rw [splitAtByte_cons] at h ⊢
      split
      · rw [if_pos ‹_›] at h
        have hroom := ih h
        rw [byteLen_cons]
        omega
      · rw [if_neg ‹_›] at h
        cases h
        rw [byteLen_nil]
        omega

/-- Text that fits is taken whole, and the next one gets the room it leaves. -/
theorem splitAtByte_of_fits {s : List Char} {n : Nat} (h : byteLen s ≤ n) (t : List Char) :
    splitAtByte (s ++ t) n =
      (s ++ (splitAtByte t (n - byteLen s)).1, (splitAtByte t (n - byteLen s)).2) := by
  induction s generalizing n with
  | nil => rfl
  | cons c s ih =>
      rw [byteLen_cons] at h
      have hroom : n - c.utf8Size - byteLen s = n - byteLen (c :: s) := by
        rw [byteLen_cons]
        omega
      rw [List.cons_append, splitAtByte_cons, if_pos (by omega), ih (by omega), hroom]
      rfl

theorem splitAtByte_of_le {s : List Char} {n : Nat} (h : byteLen s ≤ n) :
    splitAtByte s n = (s, []) := by
  have hfits := splitAtByte_of_fits h []
  simpa [splitAtByte] using hfits

/-- Nothing of a text fits whose first character does not. -/
theorem splitAtByte_of_head {s : List Char} {n : Nat}
    (h : ∀ c ∈ s.head?, n < c.utf8Size) : splitAtByte s n = ([], s) := by
  cases s with
  | nil => rfl
  | cons c s => rw [splitAtByte_cons, if_neg (Nat.not_le_of_lt (h c rfl))]

/-- What comes after text that does not fit is all left. -/
theorem splitAtByte_of_not_fits {s : List Char} {n : Nat} (h : n < byteLen s)
    (t : List Char) :
    splitAtByte (s ++ t) n = ((splitAtByte s n).1, (splitAtByte s n).2 ++ t) := by
  induction s generalizing n with
  | nil => exact absurd h (Nat.not_lt_zero n)
  | cons c s ih =>
      rw [byteLen_cons] at h
      rw [List.cons_append, splitAtByte_cons, splitAtByte_cons]
      by_cases hfits : c.utf8Size ≤ n
      · rw [if_pos hfits, if_pos hfits, ih (by omega)]
      · rw [if_neg hfits, if_neg hfits]
        rfl

@[simp] theorem isCharBoundary_zero (s : List Char) : isCharBoundary s 0 = true := by
  cases s <;> rfl

/-- The end of the text is a boundary. -/
@[simp] theorem isCharBoundary_byteLen (s : List Char) :
    isCharBoundary s (byteLen s) = true := by
  induction s with
  | nil => rfl
  | cons c s ih =>
      have hc : 0 < c.utf8Size := Char.utf8Size_pos c
      obtain ⟨n, hn⟩ : ∃ n, byteLen (c :: s) = n + 1 :=
        ⟨byteLen (c :: s) - 1, by rw [byteLen_cons]; omega⟩
      have hrest : n + 1 - c.utf8Size = byteLen s := by
        rw [← hn, byteLen_cons]
        omega
      rw [hn, isCharBoundary, hrest, ih]
      simp only [Bool.and_true, decide_eq_true_eq]
      rw [byteLen_cons] at hn
      omega

/-- At a boundary, a slice is as long as it was asked to be. -/
theorem byteLen_splitAtByte_of_boundary {s : List Char} {n : Nat}
    (h : isCharBoundary s n = true) : byteLen (splitAtByte s n).1 = n := by
  induction s generalizing n with
  | nil =>
      cases n with
      | zero => rfl
      | succ n => cases h
  | cons c s ih =>
      have hc : 0 < c.utf8Size := Char.utf8Size_pos c
      cases n with
      | zero =>
          rw [splitAtByte_cons]
          rw [if_neg (by omega)]
          rfl
      | succ n =>
          obtain ⟨hfits, hrest⟩ := Bool.and_eq_true_iff.mp h
          have hfits := of_decide_eq_true hfits
          rw [splitAtByte_cons]
          rw [if_pos hfits, byteLen_cons, ih hrest]
          omega

/-- What fits ends at a boundary. -/
theorem isCharBoundary_splitAtByte (s : List Char) (n : Nat) :
    isCharBoundary s (byteLen (splitAtByte s n).1) = true := by
  induction s generalizing n with
  | nil => rfl
  | cons c s ih =>
      have hc : 0 < c.utf8Size := Char.utf8Size_pos c
      rw [splitAtByte_cons]
      split
      · rw [byteLen_cons]
        obtain ⟨m, hm⟩ : ∃ m, c.utf8Size + byteLen (splitAtByte s (n - c.utf8Size)).1 = m + 1 :=
          ⟨c.utf8Size + byteLen (splitAtByte s (n - c.utf8Size)).1 - 1, by omega⟩
        have hrest : m + 1 - c.utf8Size = byteLen (splitAtByte s (n - c.utf8Size)).1 := by omega
        rw [hm, isCharBoundary, hrest, ih]
        simp only [Bool.and_true, decide_eq_true_eq]
        omega
      · rfl

/-- No boundary lies past the last character that fits. -/
theorem boundary_le_splitAtByte {s : List Char} {m n : Nat} (hm : isCharBoundary s m = true)
    (hle : m ≤ n) : m ≤ byteLen (splitAtByte s n).1 := by
  induction s generalizing m n with
  | nil =>
      cases m with
      | zero => exact Nat.zero_le _
      | succ m => cases hm
  | cons c s ih =>
      cases m with
      | zero => exact Nat.zero_le _
      | succ m =>
          obtain ⟨hfits, hrest⟩ := Bool.and_eq_true_iff.mp hm
          have hfits := of_decide_eq_true hfits
          have hlast := ih hrest (show m + 1 - c.utf8Size ≤ n - c.utf8Size by omega)
          rw [splitAtByte_cons]
          rw [if_pos (by omega), byteLen_cons]
          omega

/-- A slice where the last fitting character ends takes what fits. -/
theorem splitAtByte_byteLen (s : List Char) (n : Nat) :
    splitAtByte s (byteLen (splitAtByte s n).1) = splitAtByte s n := by
  induction s generalizing n with
  | nil => rfl
  | cons c s ih =>
      have hc : 0 < c.utf8Size := Char.utf8Size_pos c
      by_cases hfits : c.utf8Size ≤ n
      · have hsplit : splitAtByte (c :: s) n = (c :: (splitAtByte s (n - c.utf8Size)).1,
            (splitAtByte s (n - c.utf8Size)).2) := by
          rw [splitAtByte_cons, if_pos hfits]
        rw [hsplit, byteLen_cons, splitAtByte_cons, if_pos (by omega), Nat.add_sub_cancel_left, ih]
      · have hsplit : splitAtByte (c :: s) n = ([], c :: s) := by
          rw [splitAtByte_cons, if_neg hfits]
        rw [hsplit, byteLen_nil, splitAtByte_cons, if_neg (by omega)]

/-! ## The end of a text -/

/-- The longest end of the text that is at most `n` bytes long. -/
def lastBytes (n : Nat) : List Char → List Char
  | [] => []
  | c :: s => if byteLen (c :: s) ≤ n then c :: s else lastBytes n s

theorem isCharBoundary_cons_add (c : Char) (s : List Char) (n : Nat) :
    isCharBoundary (c :: s) (c.utf8Size + n) = isCharBoundary s n := by
  have hc : 0 < c.utf8Size := Char.utf8Size_pos c
  obtain ⟨m, hm⟩ : ∃ m, c.utf8Size + n = m + 1 := ⟨c.utf8Size + n - 1, by omega⟩
  have hrest : m + 1 - c.utf8Size = n := by omega
  rw [hm, isCharBoundary, hrest, decide_eq_true (show c.utf8Size ≤ m + 1 by omega),
    Bool.true_and]

/-- The first boundary that leaves no more than `n` bytes leaves the longest end that fits. -/
theorem splitAtByte_of_first {s : List Char} {n cut : Nat}
    (hcut : isCharBoundary s cut = true) (hroom : byteLen s ≤ cut + n)
    (hfirst : ∀ m < cut, byteLen s ≤ m + n → isCharBoundary s m = false) :
    (splitAtByte s cut).2 = lastBytes n s := by
  induction s generalizing cut with
  | nil => rfl
  | cons c s ih =>
      have hc : 0 < c.utf8Size := Char.utf8Size_pos c
      unfold lastBytes
      split
      · obtain rfl : cut = 0 := by
          by_contra hne
          have hzero := hfirst 0 (by omega) (by omega)
          rw [isCharBoundary_zero] at hzero
          cases hzero
        rw [splitAtByte_cons, if_neg (by omega)]
      · obtain ⟨k, rfl⟩ : ∃ k, cut = k + 1 := ⟨cut - 1, by omega⟩
        obtain ⟨hfits, hrest⟩ := Bool.and_eq_true_iff.mp hcut
        have hfits := of_decide_eq_true hfits
        rw [byteLen_cons] at hroom hfirst
        rw [splitAtByte_cons, if_pos hfits]
        apply ih hrest (by omega)
        intro m hm hle
        rw [← isCharBoundary_cons_add c]
        exact hfirst _ (by omega) (by omega)

end Flowlite.Text

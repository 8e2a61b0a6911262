import Mathlib.Data.List.Infix
import Mathlib.Data.List.TakeDrop

/-!
# Replacing a pattern in a text

`replaceAll` goes through the text once, from the left: where the pattern stands it writes
the replacement and goes on behind it. What is written is not looked at again, so the
pattern can come up anew where a replacement meets what stands beside it.

* a character that is not in the pattern separates what stands before it from what stands
  after it (`replaceAll_separator`);
* the same is so of the places where a pattern occurs (`occursAt_separator`).
-/

namespace Flowlite.Text

variable {α : Type}

/-! ## Where a pattern occurs -/

/-- The pattern stands in the text from position `i` on. -/
def OccursAt (pattern s : List α) (i : Nat) : Prop := pattern <+: s.drop i

theorem OccursAt.le {pattern s : List α} {i : Nat} (hp : pattern ≠ [])
    (h : OccursAt pattern s i) : i + pattern.length ≤ s.length := by
  have hle := h.length_le
  have hpos : 0 < pattern.length := List.length_pos_iff.mpr hp
  rw [List.length_drop] at hle
  omega

theorem not_occursAt_of_length_lt {pattern s : List α} (h : s.length < pattern.length)
    (i : Nat) : ¬ OccursAt pattern s i := by
  intro hocc
  have hle := hocc.length_le
  rw [List.length_drop] at hle
  omega

/-- A pattern without the separator does not reach over it. -/
theorem prefix_append_separator {pattern : List α} {c : α} (hc : c ∉ pattern) (s t : List α) :
    pattern <+: s ++ c :: t ↔ pattern <+: s := by
  constructor
  · intro h
    rcases Nat.lt_or_ge s.length pattern.length with hlt | hge
    · have hs : s ++ [c] <+: s ++ c :: t := ⟨t, by simp⟩
      have hle : (s ++ [c]).length ≤ pattern.length := by
        rw [List.length_append]
        exact hlt
      have hsep : s ++ [c] <+: pattern := List.prefix_of_prefix_length_le hs h hle
      exact absurd (hsep.subset (List.mem_append_right s (List.mem_singleton_self c))) hc
    · exact List.prefix_of_prefix_length_le h (List.prefix_append s _) hge
  · intro h
    exact h.trans (List.prefix_append s _)

/-- With a separator between two texts the pattern stands in the one or in the other. -/
theorem occursAt_separator {pattern : List α} {c : α} (hp : pattern ≠ []) (hc : c ∉ pattern)
    (s t : List α) (i : Nat) :
    OccursAt pattern (s ++ c :: t) i ↔
      OccursAt pattern s i ∨ s.length + 1 ≤ i ∧ OccursAt pattern t (i - (s.length + 1)) := by
  unfold OccursAt
  rcases Nat.lt_or_ge s.length i with hlt | hge
  · have hleft : ¬ pattern <+: s.drop i := by
      rw [List.drop_of_length_le (Nat.le_of_lt hlt)]
      exact fun h => hp (List.prefix_nil.mp h)
    have hright : (s ++ c :: t).drop i = t.drop (i - (s.length + 1)) := by
      rw [List.drop_append, List.drop_of_length_le (Nat.le_of_lt hlt), List.nil_append]
      obtain ⟨k, rfl⟩ : ∃ k, i = s.length + 1 + k := ⟨i - (s.length + 1), by omega⟩
      rw [show s.length + 1 + k - s.length = k + 1 by omega,
        show s.length + 1 + k - (s.length + 1) = k by omega]
      rfl
    rw [hright]
    constructor
    · intro h
      exact Or.inr ⟨hlt, h⟩
    · intro h
      exact (h.resolve_left hleft).2
  · rw [List.drop_append_of_le_length hge, prefix_append_separator hc]
    constructor
    · intro h
      exact Or.inl h
    · intro h
      exact h.resolve_right fun hright => by omega

/-- So it is with several of them in a row. -/
theorem occursAt_separators {pattern mid : List α} (hp : pattern ≠ []) (hne : mid ≠ [])
    (hmid : ∀ c ∈ mid, c ∉ pattern) (s t : List α) (i : Nat) :
    OccursAt pattern (s ++ mid ++ t) i ↔ OccursAt pattern s i ∨
      s.length + mid.length ≤ i ∧ OccursAt pattern t (i - (s.length + mid.length)) := by
  induction mid generalizing s i with
  | nil => exact absurd rfl hne
  | cons c mid ih =>
      have hc : c ∉ pattern := hmid c List.mem_cons_self
      rw [List.append_assoc, List.cons_append, occursAt_separator hp hc, List.length_cons]
      cases mid with
      | nil => rfl
      | cons d mid =>
          have hnil : ∀ j, ¬ OccursAt pattern ([] : List α) j :=
            fun j h => hp (List.prefix_nil.mp (List.drop_nil (i := j) ▸ h))
          have hrest := ih (List.cons_ne_nil d mid)
            (fun e he => hmid e (List.mem_cons_of_mem c he)) [] (i - (s.length + 1))
          rw [List.nil_append] at hrest
          rw [hrest, List.length_nil, List.length_cons]
          have hshift : i - (s.length + 1) - (0 + (mid.length + 1)) =
              i - (s.length + (mid.length + 1 + 1)) := by omega
          rw [hshift]
          constructor
          · rintro (h | ⟨hle, h | ⟨hle', h⟩⟩)
            · exact Or.inl h
            · exact absurd h (hnil _)
            · exact Or.inr ⟨by omega, h⟩
          · rintro (h | ⟨hle, h⟩)
            · exact Or.inl h
            · exact Or.inr ⟨by omega, Or.inr ⟨by omega, h⟩⟩

/-- What is cut off takes the occurrences with it that end behind the cut. -/
theorem occursAt_take {pattern s : List α} (hp : pattern ≠ []) (k i : Nat) :
    OccursAt pattern (s.take k) i ↔ OccursAt pattern s i ∧ i + pattern.length ≤ k := by
  have hpos : 0 < pattern.length := List.length_pos_iff.mpr hp
  unfold OccursAt
  rw [List.drop_take, List.prefix_take_iff]
  constructor
  · rintro ⟨h, hle⟩
    exact ⟨h, by omega⟩
  · rintro ⟨h, hle⟩
    exact ⟨h, by omega⟩

/-- A text is taken apart at its separators: the last stretch has none, and any other ends
at one. -/
theorem separated_induction (sep : α → Prop) {P : List α → Prop}
    (last : ∀ s, (∀ c ∈ s, ¬ sep c) → P s)
    (more : ∀ s c t, (∀ d ∈ s, ¬ sep d) → sep c → P t → P (s ++ c :: t))
    (text : List α) : P text := by
  -- `s` is the stretch that has been read so far
  suffices h : ∀ s, (∀ c ∈ s, ¬ sep c) → P (s ++ text) from h [] fun _ hc => nomatch hc
  induction text with
  | nil =>
      intro s hs
      rw [List.append_nil]
      exact last s hs
  | cons c t ih =>
      intro s hs
      by_cases hc : sep c
      · exact more s c t hs hc (ih [] fun _ hd => nomatch hd)
      · rw [List.append_cons]
        apply ih
        intro d hd
        rcases List.mem_append.mp hd with hd | hd
        · exact hs d hd
        · rw [List.mem_singleton.mp hd]
          exact hc

/-! ## Replacing -/

variable [DecidableEq α]

/-- The first `skip` characters are those of a match that has been replaced. -/
def replaceFrom (pattern new : List α) : Nat → List α → List α
  | _, [] => []
  | skip + 1, _ :: s => replaceFrom pattern new skip s
  | 0, c :: s =>
      if pattern.isPrefixOf (c :: s) then new ++ replaceFrom pattern new (pattern.length - 1) s
      else c :: replaceFrom pattern new 0 s

def replaceAll (pattern new s : List α) : List α := replaceFrom pattern new 0 s

@[simp] theorem replaceAll_nil (pattern new : List α) : replaceAll pattern new [] = [] := rfl

theorem replaceFrom_eq_drop (pattern new : List α) (skip : Nat) (s : List α) :
    replaceFrom pattern new skip s = replaceAll pattern new (s.drop skip) := by
  induction s generalizing skip with
  | nil => cases skip <;> rfl
  | cons c s ih =>
      cases skip with
      | zero => rfl
      | succ skip => exact ih skip

theorem replaceAll_match {pattern : List α} (hp : pattern ≠ []) (new s : List α) :
    replaceAll pattern new (pattern ++ s) = new ++ replaceAll pattern new s := by
  cases pattern with
  | nil => exact absurd rfl hp
  | cons c rest =>
      have hmatch : (c :: rest).isPrefixOf (c :: (rest ++ s)) = true :=
        List.isPrefixOf_iff_prefix.mpr (List.prefix_append (c :: rest) s)
      show replaceFrom _ _ 0 (c :: (rest ++ s)) = _
      rw [replaceFrom, if_pos hmatch, replaceFrom_eq_drop]
      show new ++ replaceAll _ _ ((rest ++ s).drop rest.length) = _
      rw [List.drop_left]

theorem replaceAll_cons_of_not {pattern : List α} {c : α} {s : List α}
    (h : ¬ pattern <+: c :: s) (new : List α) :
    replaceAll pattern new (c :: s) = c :: replaceAll pattern new s := by
  have hmatch : ¬ pattern.isPrefixOf (c :: s) = true :=
    fun hm => h (List.isPrefixOf_iff_prefix.mp hm)
  show replaceFrom _ _ 0 (c :: s) = _
  rw [replaceFrom, if_neg hmatch]
  rfl

/-- For a pattern of one character every character is looked at on its own. -/
theorem replaceAll_singleton (a : α) (new s : List α) :
    replaceAll [a] new s = s.flatMap fun c => if c = a then new else [c] := by
  induction s with
  | nil => rfl
  | cons c s ih =>
      rw [List.flatMap_cons, ← ih]
      by_cases hc : c = a
      · subst hc
        rw [if_pos rfl]
        exact replaceAll_match (List.cons_ne_nil c []) new s
      · rw [if_neg hc]
        refine replaceAll_cons_of_not ?_ new
        intro h
        exact hc ((List.cons_prefix_cons.mp h).1.symm)

/-- A text that is too short for the pattern stays as it is. -/
theorem replaceAll_of_length_lt {pattern s : List α} (h : s.length < pattern.length)
    (new : List α) : replaceAll pattern new s = s := by
  induction s with
  | nil => rfl
  | cons c s ih =>
      have hlt : s.length < pattern.length := by
        rw [List.length_cons] at h
        omega
      rw [replaceAll_cons_of_not, ih hlt]
      intro hp
      have hle := hp.length_le
      omega

theorem replaceFrom_separator {pattern : List α} {c : α} (hp : pattern ≠ []) (hc : c ∉ pattern)
    (new s t : List α) {skip : Nat} (hskip : skip ≤ s.length) :
    replaceFrom pattern new skip (s ++ c :: t) =
      replaceFrom pattern new skip s ++ c :: replaceAll pattern new t := by
  induction s generalizing skip with
  | nil =>
      obtain rfl : skip = 0 := Nat.le_zero.mp hskip
      refine replaceAll_cons_of_not ?_ new
      intro h
      exact hp (List.prefix_nil.mp ((prefix_append_separator hc [] t).mp h))
  | cons d s ih =>
      cases skip with
      | succ skip => exact ih (Nat.le_of_succ_le_succ hskip)
      | zero =>
          have hiff := prefix_append_separator hc (d :: s) t
          show replaceFrom pattern new 0 (d :: (s ++ c :: t)) = _
          by_cases hm : pattern <+: d :: s
          · have hlen : pattern.length - 1 ≤ s.length := by
              have hle := hm.length_le
              rw [List.length_cons] at hle
              omega
            have hm' : pattern <+: d :: (s ++ c :: t) := hiff.mpr hm
            rw [replaceFrom, replaceFrom, if_pos (List.isPrefixOf_iff_prefix.mpr hm'),
              if_pos (List.isPrefixOf_iff_prefix.mpr hm), ih hlen, List.append_assoc]
          · have hm' : ¬ pattern <+: d :: (s ++ c :: t) := fun h => hm (hiff.mp h)
            rw [replaceFrom, replaceFrom,
              if_neg fun h => hm' (List.isPrefixOf_iff_prefix.mp h),
              if_neg fun h => hm (List.isPrefixOf_iff_prefix.mp h), ih (Nat.zero_le _)]
            rfl

theorem replaceAll_separator {pattern : List α} {c : α} (hp : pattern ≠ []) (hc : c ∉ pattern)
    (new s t : List α) :
    replaceAll pattern new (s ++ c :: t) =
      replaceAll pattern new s ++ c :: replaceAll pattern new t :=
  replaceFrom_separator hp hc new s t (Nat.zero_le _)

/-- Several separators in a row stay as they are. -/
theorem replaceAll_separators {pattern mid : List α} (hp : pattern ≠ []) (hne : mid ≠ [])
    (hmid : ∀ c ∈ mid, c ∉ pattern) (new s t : List α) :
    replaceAll pattern new (s ++ mid ++ t) =
      replaceAll pattern new s ++ mid ++ replaceAll pattern new t := by
  induction mid generalizing s with
  | nil => exact absurd rfl hne
  | cons c mid ih =>
      have hc : c ∉ pattern := hmid c List.mem_cons_self
      rw [List.append_assoc, List.cons_append, replaceAll_separator hp hc]
      cases mid with
      | nil => simp
      | cons d mid =>
          have hrest := ih (List.cons_ne_nil d mid)
            (fun e he => hmid e (List.mem_cons_of_mem c he)) []
          rw [List.nil_append] at hrest
          rw [hrest]
          simp

/-- A character of the result was there, or has been written. -/
theorem mem_of_mem_replaceFrom {pattern new s : List α} {skip : Nat} {c : α}
    (h : c ∈ replaceFrom pattern new skip s) : c ∈ s ∨ c ∈ new := by
  induction s generalizing skip with
  | nil => cases skip <;> cases h
  | cons d s ih =>
      cases skip with
      | succ skip => exact (ih h).imp_left fun hc => List.mem_cons_of_mem d hc
      | zero =>
          rw [replaceFrom] at h
          split at h
          · rcases List.mem_append.mp h with h | h
            · exact Or.inr h
            · exact (ih h).imp_left fun hc => List.mem_cons_of_mem d hc
          · rcases List.mem_cons.mp h with rfl | h
            · exact Or.inl List.mem_cons_self
            · exact (ih h).imp_left fun hc => List.mem_cons_of_mem d hc

end Flowlite.Text

import Mathlib.Tactic.IntervalCases
import Flowlite.Notifications.Slack

/-!
# Markup that a cut can break

A text is handed to Slack escaped, and cut where it is too long. What is written for a
character that Slack reads as its own is four or five characters, and a cut that falls
within them leaves an ampersand that begins nothing.

* `Escaped` is what Slack takes a text for that holds no markup of its own;
* `Quoting` is a rewrite that escapes those characters and brings up none of them
  elsewhere: `escaping`, and `fencing`, which also breaks the fences;
* `Quoting.escaped_take_iff`: the cut text is escaped unless the cut falls within what
  one character is written as.
-/

namespace Flowlite.Slack

open Text

/-- Each ampersand begins one of the three entities, and neither bracket stands raw. -/
def Escaped : List Char → Prop
  | [] => True
  | c :: s =>
      (c = '&' → ['a', 'm', 'p', ';'] <+: s ∨ ['l', 't', ';'] <+: s ∨ ['g', 't', ';'] <+: s) ∧
        c ≠ '<' ∧ c ≠ '>' ∧ Escaped s

instance decidableEscaped : DecidablePred Escaped
  | [] => isTrue trivial
  | _ :: s =>
      have := decidableEscaped s
      inferInstanceAs (Decidable ((_ → _ ∨ _ ∨ _) ∧ _ ∧ _ ∧ _))

theorem escaped_cons_iff {c : Char} (hc : ¬ IsSpecial c) (s : List Char) :
    Escaped (c :: s) ↔ Escaped s := by
  unfold IsSpecial at hc
  rw [Escaped]
  constructor
  · intro h
    exact h.2.2.2
  · intro h
    exact ⟨fun ha => absurd (Or.inl ha) hc, fun hl => hc (Or.inr (Or.inl hl)),
      fun hg => hc (Or.inr (Or.inr hg)), h⟩

theorem escaped_append_iff {p : List Char} (hp : Plain p) (s : List Char) :
    Escaped (p ++ s) ↔ Escaped s := by
  induction p with
  | nil => rfl
  | cons c p ih =>
      rw [List.cons_append, escaped_cons_iff (hp c List.mem_cons_self)]
      exact ih fun d hd => hp d (List.mem_cons_of_mem c hd)

theorem escaped_of_plain {p : List Char} (hp : Plain p) : Escaped p := by
  have h := (escaped_append_iff hp []).mpr trivial
  rwa [List.append_nil] at h

/-- What is written for a character is whole wherever it stands. -/
theorem escaped_entity_iff (c : Char) (hc : IsSpecial c) (s : List Char) :
    Escaped (entity c ++ s) ↔ Escaped s := by
  rcases hc with rfl | rfl | rfl
  · show Escaped ('&' :: 'a' :: 'm' :: 'p' :: ';' :: s) ↔ _
    simp [Escaped]
  · show Escaped ('&' :: 'l' :: 't' :: ';' :: s) ↔ _
    simp [Escaped]
  · show Escaped ('&' :: 'g' :: 't' :: ';' :: s) ↔ _
    simp [Escaped]

/-- Part of it begins nothing. -/
theorem not_escaped_of_cut {c : Char} (hc : IsSpecial c) {k : Nat} (hpos : 0 < k)
    (hk : k < (entity c).length) (s : List Char) :
    ¬ Escaped ((entity c).take k ++ '…' :: s) := by
  rcases hc with rfl | rfl | rfl
  · have hlen : k < 5 := hk
    show ¬ Escaped (['&', 'a', 'm', 'p', ';'].take k ++ '…' :: s)
    interval_cases k <;> simp [Escaped, List.cons_prefix_cons]
  · have hlen : k < 4 := hk
    show ¬ Escaped (['&', 'l', 't', ';'].take k ++ '…' :: s)
    interval_cases k <;> simp [Escaped, List.cons_prefix_cons]
  · have hlen : k < 4 := hk
    show ¬ Escaped (['&', 'g', 't', ';'].take k ++ '…' :: s)
    interval_cases k <;> simp [Escaped, List.cons_prefix_cons]

/-- A special character is the first one, or stands behind it. -/
theorem special_cases {s t before after : List Char} {c d : Char} (hs : Plain s)
    (hd : IsSpecial d) (heq : s ++ c :: t = before ++ d :: after) :
    (before = s ∧ d = c) ∨ ∃ mid, before = s ++ c :: mid ∧ t = mid ++ d :: after := by
  rcases List.append_eq_append_iff.mp heq with ⟨mid, hbefore, hmid⟩ | ⟨mid, hs', hmid⟩
  · cases mid with
    | nil =>
        rw [List.append_nil] at hbefore
        exact Or.inl ⟨hbefore, (List.cons.inj hmid).1.symm⟩
    | cons e mid =>
        obtain ⟨rfl, ht⟩ := List.cons.inj hmid
        exact Or.inr ⟨mid, hbefore, ht⟩
  · cases mid with
    | nil =>
        rw [List.append_nil] at hs'
        exact Or.inl ⟨hs'.symm, (List.cons.inj hmid).1⟩
    | cons e mid =>
        obtain ⟨rfl, -⟩ := List.cons.inj hmid
        exact absurd hd (hs d (hs' ▸ List.mem_append_right before List.mem_cons_self))

/-! ## Rewrites that escape -/

/-- A rewrite that writes a special character as its entity, whatever stands around it, and
brings up none where there was none. -/
structure Quoting where
  quote : List Char → List Char
  plain : ∀ s, Plain s → Plain (quote s)
  special : ∀ s c t, IsSpecial c → quote (s ++ c :: t) = quote s ++ entity c ++ quote t

namespace Quoting

variable (q : Quoting)

/-- The first `k` characters of the quoted text end within what one character of `text` is
written as. -/
def Splits (k : Nat) (text : List Char) : Prop :=
  ∃ before c after, text = before ++ c :: after ∧ IsSpecial c ∧
    (q.quote before).length < k ∧ k < (q.quote before).length + (entity c).length

/-- Where the first stretch and the entity behind it are within the cut, the cut is one in
what is left. -/
theorem splits_append {s t : List Char} {c : Char} {k : Nat} (hs : Plain s) (hc : IsSpecial c)
    (hk : (q.quote s).length + (entity c).length ≤ k) :
    q.Splits k (s ++ c :: t) ↔
      q.Splits (k - ((q.quote s).length + (entity c).length)) t := by
  constructor
  · rintro ⟨before, d, after, heq, hd, hlo, hhi⟩
    rcases special_cases hs hd heq with ⟨rfl, rfl⟩ | ⟨mid, rfl, rfl⟩
    · omega
    · rw [q.special s c mid hc, List.length_append, List.length_append] at hlo hhi
      exact ⟨mid, d, after, rfl, hd, by omega, by omega⟩
  · rintro ⟨before, d, after, rfl, hd, hlo, hhi⟩
    refine ⟨s ++ c :: before, d, after, by simp, hd, ?_, ?_⟩
    · rw [q.special s c before hc, List.length_append, List.length_append]
      omega
    · rw [q.special s c before hc, List.length_append, List.length_append]
      omega

/-- Cut after `k` characters, the text is escaped unless the cut splits an entity. -/
theorem escaped_take_iff (text : List Char) (k : Nat) {tail : List Char} (htail : Plain tail) :
    Escaped ((q.quote text).take k ++ '…' :: tail) ↔ ¬ q.Splits k text := by
  have hdots : Plain ('…' :: tail) := by
    intro d hd
    rcases List.mem_cons.mp hd with rfl | hd
    · decide
    · exact htail d hd
  induction text using separated_induction IsSpecial generalizing k with
  | last s hs =>
      have htake : Plain ((q.quote s).take k) :=
        fun d hd => q.plain s hs d (List.mem_of_mem_take hd)
      constructor
      · rintro - ⟨before, c, after, rfl, hc, -⟩
        exact hs c (List.mem_append_right before List.mem_cons_self) hc
      · intro _
        exact (escaped_append_iff htake _).mpr (escaped_of_plain hdots)
  | more s c t hs hc ih =>
      have hplain : Plain (q.quote s) := q.plain s hs
      rw [q.special s c t hc, List.append_assoc]
      rcases Nat.lt_or_ge (q.quote s).length k with hk | hk
      · rw [List.take_append, List.take_of_length_le (Nat.le_of_lt hk), List.append_assoc,
          escaped_append_iff hplain]
        rcases Nat.lt_or_ge k ((q.quote s).length + (entity c).length) with hin | hout
        · -- the cut falls within the entity
          rw [List.take_append_of_le_length (by omega)]
          constructor
          · intro h
            exact absurd h (not_escaped_of_cut hc (by omega) (by omega) tail)
          · intro h
            exact absurd ⟨s, c, t, rfl, hc, hk, hin⟩ h
        · rw [List.take_append, List.take_of_length_le (by omega), List.append_assoc,
            escaped_entity_iff c hc, q.splits_append hs hc hout, Nat.sub_sub]
          exact ih _
      · rw [List.take_append_of_le_length hk]
        have htake : Plain ((q.quote s).take k) := fun d hd => hplain d (List.mem_of_mem_take hd)
        constructor
        · rintro - ⟨before, d, after, heq, hd, hlo, -⟩
          rcases special_cases hs hd heq with ⟨rfl, -⟩ | ⟨mid, rfl, -⟩
          · omega
          · rw [q.special s c mid hc, List.length_append, List.length_append] at hlo
            omega
        · intro _
          exact (escaped_append_iff htake _).mpr (escaped_of_plain hdots)

/-- Uncut, it is. -/
theorem escaped_quote (text : List Char) {tail : List Char} (htail : Plain tail) :
    Escaped (q.quote text ++ tail) := by
  induction text using separated_induction IsSpecial with
  | last s hs => exact (escaped_append_iff (q.plain s hs) _).mpr (escaped_of_plain htail)
  | more s c t hs hc ih =>
      rw [q.special s c t hc, List.append_assoc, List.append_assoc,
        escaped_append_iff (q.plain s hs), escaped_entity_iff c hc]
      exact ih

end Quoting

end Flowlite.Slack

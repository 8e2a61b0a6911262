import Flowlite.Text.Replace

/-!
# What Slack reads as its own

The two rewrites a text goes through before Slack is handed it: `escape` for the three
characters Slack reads before it reads anything else, and `fenceSafe` for the fence that
would close a code block.
-/

namespace Flowlite.Slack

open Text

/-- What opens a code block and closes it. -/
def fence : List Char := "```".toList

def fenceSafe (body : List Char) : List Char := replaceAll fence "` ` `".toList body

/-- `&` first, or the ampersands written by the other two are escaped a second time. -/
def escape (text : List Char) : List Char :=
  replaceAll ['>'] "&gt;".toList
    (replaceAll ['<'] "&lt;".toList (replaceAll ['&'] "&amp;".toList text))

example : escape "a<&b".toList = "a&lt;&amp;b".toList := by decide +kernel

example : fenceSafe "a````".toList = "a` ` ``".toList := by decide +kernel

/-! ## Escaping, character by character -/

def IsSpecial (c : Char) : Prop := c = '&' ∨ c = '<' ∨ c = '>'

instance (c : Char) : Decidable (IsSpecial c) := inferInstanceAs (Decidable (_ ∨ _ ∨ _))

/-- No character of the text is one that Slack reads as its own. -/
def Plain (s : List Char) : Prop := ∀ c ∈ s, ¬ IsSpecial c

instance (s : List Char) : Decidable (Plain s) := List.decidableBAll _ s

/-- What a character is written as. -/
def entity (c : Char) : List Char :=
  if c = '&' then ['&', 'a', 'm', 'p', ';']
  else if c = '<' then ['&', 'l', 't', ';']
  else if c = '>' then ['&', 'g', 't', ';']
  else [c]

theorem escape_eq (text : List Char) : escape text = text.flatMap entity := by
  have hamp : "&amp;".toList = ['&', 'a', 'm', 'p', ';'] := rfl
  have hlt : "&lt;".toList = ['&', 'l', 't', ';'] := rfl
  have hgt : "&gt;".toList = ['&', 'g', 't', ';'] := rfl
  unfold escape
  rw [replaceAll_singleton, replaceAll_singleton, replaceAll_singleton, List.flatMap_assoc,
    List.flatMap_assoc, hamp, hlt, hgt]
  congr 1
  funext c
  unfold entity
  by_cases hc : c = '&'
  · subst hc
    rfl
  · rw [if_neg hc, if_neg hc]
    by_cases hc' : c = '<'
    · subst hc'
      rfl
    · simp [hc']

theorem escape_append (s t : List Char) : escape (s ++ t) = escape s ++ escape t := by
  rw [escape_eq, escape_eq, escape_eq, List.flatMap_append]

theorem entity_of_not_special {c : Char} (h : ¬ IsSpecial c) : entity c = [c] := by
  unfold IsSpecial at h
  unfold entity
  rw [if_neg fun hc => h (Or.inl hc), if_neg fun hc => h (Or.inr (Or.inl hc)),
    if_neg fun hc => h (Or.inr (Or.inr hc))]

/-- A text without the three characters stays as it is. -/
theorem escape_of_plain {s : List Char} (h : Plain s) : escape s = s := by
  rw [escape_eq]
  induction s with
  | nil => rfl
  | cons c s ih =>
      have hc : entity c = [c] := entity_of_not_special (h c List.mem_cons_self)
      rw [List.flatMap_cons, hc, ih fun d hd => h d (List.mem_cons_of_mem c hd)]
      rfl

theorem escape_cons (c : Char) (s : List Char) : escape (c :: s) = entity c ++ escape s := by
  rw [escape_eq, escape_eq, List.flatMap_cons]

theorem length_le_escape (s : List Char) : s.length ≤ (escape s).length := by
  induction s with
  | nil => exact Nat.zero_le _
  | cons c s ih =>
      have hc : 0 < (entity c).length := by
        unfold entity
        split_ifs <;> exact Nat.succ_pos _
      rw [escape_cons, List.length_append, List.length_cons]
      omega

end Flowlite.Slack

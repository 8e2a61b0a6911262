import Mathlib.Data.List.Basic

/-!
# Decoding UTF-8

Octets are decoded a character at a time. A sequence that is no character ends with the
octet that rules it out, and is as long as what came before that octet; one that is cut
short by the end of the input may still become a character, so it is told apart
(`Scan.incomplete`).

* `fromUtf8` decodes the longest valid prefix, and says what stopped it;
* `fromUtf8Lossy` decodes everything, with one replacement character for each sequence
  that is none;
* `nextChar_append`: only an incomplete sequence can be read differently once more octets
  are there;
* `length_lt_of_incomplete`: such a sequence is shorter than a character.
-/

namespace Flowlite.Text

/-- U+FFFD, what stands for octets that are no character. -/
def replacementCharacter : Char := Char.ofNat 0xFFFD

/-- What starts at an octet, and how many more octets belong to it. -/
inductive Scan
  | char (c : Char) (more : Nat)
  | invalid (more : Nat)
  | incomplete

/-- How many octets a character that starts with this one has, 0 if none does. -/
def utf8CharWidth (b : UInt8) : Nat :=
  if b < 0x80 then 1
  else if b < 0xC2 then 0
  else if b < 0xE0 then 2
  else if b < 0xF0 then 3
  else if b < 0xF5 then 4
  else 0

/-- The bits of the character that its first octet carries. -/
def firstBits (b : UInt8) : Nat → Nat
  | 2 => b.toNat % 32
  | 3 => b.toNat % 16
  | _ => b.toNat % 8

def isContinuation (b : UInt8) : Bool := 0x80 ≤ b && b < 0xC0

/-- Which second octets may follow the first: no overlong form, no surrogate, nothing
past the last code point. -/
def maySecond (b₀ b₁ : UInt8) : Bool :=
  if b₀ = 0xE0 then 0xA0 ≤ b₁ && b₁ < 0xC0
  else if b₀ = 0xED then 0x80 ≤ b₁ && b₁ < 0xA0
  else if b₀ = 0xF0 then 0x90 ≤ b₁ && b₁ < 0xC0
  else if b₀ = 0xF4 then 0x80 ≤ b₁ && b₁ < 0x90
  else isContinuation b₁

/-- The rest of a character that is owed so many continuation octets. -/
def scanRest : Nat → Nat → Nat → List UInt8 → Scan
  | 0, more, bits, _ => .char (Char.ofNat bits) more
  | _ + 1, _, _, [] => .incomplete
  | owed + 1, more, bits, b :: bs =>
      if isContinuation b then scanRest owed (more + 1) (bits * 64 + b.toNat % 64) bs
      else .invalid more

/-- What starts at the octet `b`. -/
def nextChar (b : UInt8) (bs : List UInt8) : Scan :=
  match utf8CharWidth b with
  | 0 => .invalid 0
  | 1 => .char (Char.ofNat b.toNat) 0
  | owed + 2 =>
      match bs with
      | [] => .incomplete
      | b₁ :: bs =>
          if maySecond b b₁ then
            scanRest owed 1 (firstBits b (owed + 2) * 64 + b₁.toNat % 64) bs
          else .invalid 0

theorem scanRest_append {owed more bits : Nat} {bs : List UInt8} (ys : List UInt8)
    (h : scanRest owed more bits bs ≠ .incomplete) :
    scanRest owed more bits (bs ++ ys) = scanRest owed more bits bs := by
  induction owed generalizing more bits bs with
  | zero => rfl
  | succ owed ih =>
      cases bs with
      | nil => exact absurd rfl h
      | cons b bs =>
          rw [List.cons_append]
          unfold scanRest at h ⊢
          by_cases hb : isContinuation b = true
          · rw [if_pos hb] at h
            rw [if_pos hb, if_pos hb, ih h]
          · rw [if_neg hb, if_neg hb]

/-- Once it is known what starts at an octet, more octets change nothing about it. -/
theorem nextChar_append {b : UInt8} {bs : List UInt8} (ys : List UInt8)
    (h : nextChar b bs ≠ .incomplete) : nextChar b (bs ++ ys) = nextChar b bs := by
  unfold nextChar at h ⊢
  cases hwidth : utf8CharWidth b with
  | zero => rfl
  | succ owed =>
      cases owed with
      | zero => rfl
      | succ owed =>
          rw [hwidth] at h
          cases bs with
          | nil => exact absurd rfl h
          | cons b₁ bs =>
              show (if maySecond b b₁ then _ else Scan.invalid 0)
                = if maySecond b b₁ then _ else Scan.invalid 0
              by_cases hb : maySecond b b₁ = true
              · simp only [hb, if_true] at h ⊢
                exact scanRest_append ys h
              · rw [if_neg hb, if_neg hb]

/-- What belongs to a sequence is there. -/
def Scan.within (bs : List UInt8) : Scan → Prop
  | .char _ more => more ≤ bs.length
  | .invalid more => more ≤ bs.length
  | .incomplete => True

theorem scanRest_within (before : List UInt8) {owed bits : Nat} {bs : List UInt8} :
    (scanRest owed before.length bits bs).within (before ++ bs) := by
  induction owed generalizing before bits bs with
  | zero =>
      show before.length ≤ _
      rw [List.length_append]
      omega
  | succ owed ih =>
      cases bs with
      | nil => trivial
      | cons b bs =>
          unfold scanRest
          by_cases hb : isContinuation b = true
          · have hrest := @ih (before ++ [b]) (bits * 64 + b.toNat % 64) bs
            rw [List.append_assoc, List.length_append] at hrest
            rw [if_pos hb]
            exact hrest
          · rw [if_neg hb]
            show before.length ≤ _
            rw [List.length_append]
            omega

theorem nextChar_within (b : UInt8) (bs : List UInt8) : (nextChar b bs).within bs := by
  unfold nextChar
  cases utf8CharWidth b with
  | zero => exact Nat.zero_le _
  | succ owed =>
      cases owed with
      | zero => exact Nat.zero_le _
      | succ owed =>
          cases bs with
          | nil => trivial
          | cons b₁ bs =>
              show Scan.within _ (if maySecond b b₁ then _ else Scan.invalid 0)
              by_cases hb : maySecond b b₁ = true
              · rw [if_pos hb]
                exact scanRest_within [b₁]
              · rw [if_neg hb]
                exact Nat.zero_le _

theorem utf8CharWidth_le (b : UInt8) : utf8CharWidth b ≤ 4 := by
  unfold utf8CharWidth
  split_ifs <;> omega

theorem scanRest_incomplete {owed more bits : Nat} {bs : List UInt8}
    (h : scanRest owed more bits bs = .incomplete) : bs.length < owed := by
  induction owed generalizing more bits bs with
  | zero => cases h
  | succ owed ih =>
      cases bs with
      | nil => exact Nat.succ_pos owed
      | cons b bs =>
          unfold scanRest at h
          by_cases hb : isContinuation b = true
          · rw [if_pos hb] at h
            exact Nat.succ_lt_succ (ih h)
          · rw [if_neg hb] at h
            cases h

/-- A sequence that is cut short lacks at least one of its octets. -/
theorem length_lt_of_incomplete {b : UInt8} {bs : List UInt8}
    (h : nextChar b bs = .incomplete) : (b :: bs).length < utf8CharWidth b := by
  unfold nextChar at h
  cases hwidth : utf8CharWidth b with
  | zero =>
      rw [hwidth] at h
      cases h
  | succ owed =>
      rw [hwidth] at h
      cases owed with
      | zero => cases h
      | succ owed =>
          cases bs with
          | nil =>
              show 1 < owed + 2
              omega
          | cons b₁ bs =>
              dsimp only at h
              by_cases hb : maySecond b b₁ = true
              · rw [if_pos hb] at h
                have hshort := scanRest_incomplete h
                show bs.length + 1 + 1 < owed + 2
                omega
              · rw [if_neg hb] at h
                cases h

/-- How far octets are valid: the characters of the valid prefix, the octets after it, and
how long the invalid sequence there is, `none` for one that the input ends in. -/
structure Utf8Prefix where
  valid : List Char
  rest : List UInt8
  errorLen : Option Nat

/-- One more valid character in front. -/
def Utf8Prefix.cons (c : Char) (p : Utf8Prefix) : Utf8Prefix :=
  { p with valid := c :: p.valid }

/-- The longest valid prefix; all of the input if nothing is left. -/
def fromUtf8 : List UInt8 → Utf8Prefix
  | [] => { valid := [], rest := [], errorLen := none }
  | b :: bs =>
      match nextChar b bs with
      | .char c more => (fromUtf8 (bs.drop more)).cons c
      | .invalid more => { valid := [], rest := b :: bs, errorLen := some (more + 1) }
      | .incomplete => { valid := [], rest := b :: bs, errorLen := none }
termination_by bs => bs.length
decreasing_by all_goals (rw [List.length_drop, List.length_cons]; omega)

/-- Everything, with a replacement character for each sequence that is no character. -/
def fromUtf8Lossy : List UInt8 → List Char
  | [] => []
  | b :: bs =>
      match nextChar b bs with
      | .char c more => c :: fromUtf8Lossy (bs.drop more)
      | .invalid more => replacementCharacter :: fromUtf8Lossy (bs.drop more)
      | .incomplete => [replacementCharacter]
termination_by bs => bs.length
decreasing_by all_goals (rw [List.length_drop, List.length_cons]; omega)

example : fromUtf8Lossy [0x61, 0xff, 0x62, 0xfe, 0xe2, 0x82] =
    ['a', replacementCharacter, 'b', replacementCharacter, replacementCharacter] := by
  decide +kernel

theorem length_rest_fromUtf8 (bs : List UInt8) : (fromUtf8 bs).rest.length ≤ bs.length := by
  induction bs using fromUtf8.induct with
  | case1 => exact Nat.le_of_eq (by rw [fromUtf8])
  | case2 b bs c more hnext ih =>
      rw [fromUtf8, hnext]
      show (fromUtf8 (bs.drop more)).rest.length ≤ (b :: bs).length
      rw [List.length_drop] at ih
      rw [List.length_cons]
      omega
  | case3 b bs more hnext => exact Nat.le_of_eq (by rw [fromUtf8, hnext])
  | case4 b bs hnext => exact Nat.le_of_eq (by rw [fromUtf8, hnext])

end Flowlite.Text

import Flowlite.Logic.Capture

/-!
# Decoding a stream read by read

What the reads of a stream complete, one after the other, is the stream decoded at once,
and what is carried from one read to the next is the start of one character.
-/

namespace Flowlite

open Services Text

/-- What `take_valid_utf8` returns after each read, and the carry after the last. -/
def takeEach (carry : List UInt8) : List (List UInt8) → List (List Char) × List UInt8
  | [] => ([], carry)
  | bytes :: reads =>
      let taken := takeValidUtf8 (carry ++ bytes)
      let later := takeEach taken.2 reads
      (taken.1 :: later.1, later.2)

/-- What is carried is a character that is cut short, if anything is. -/
theorem length_carry_le (bs : List UInt8) : (takeValidUtf8 bs).2.length ≤ 3 := by
  induction bs using fromUtf8Lossy.induct with
  | case1 =>
      rw [takeValidUtf8_nil]
      exact Nat.zero_le 3
  | case2 b bs c more hnext ih =>
      rw [takeValidUtf8_char hnext]
      exact ih
  | case3 b bs more hnext ih =>
      rw [takeValidUtf8_invalid hnext]
      exact ih
  | case4 b bs hnext =>
      rw [takeValidUtf8_incomplete hnext]
      have hshort := length_lt_of_incomplete hnext
      have hwidth := utf8CharWidth_le b
      show (b :: bs).length ≤ 3
      omega

/-- Reading on from a carry is taking what the carry and the reads are together. -/
theorem takeEach_spec (bs : List UInt8) (reads : List (List UInt8)) :
    (takeValidUtf8 bs).1 ++ (takeEach (takeValidUtf8 bs).2 reads).1.flatten =
        (takeValidUtf8 (bs ++ reads.flatten)).1 ∧
      (takeEach (takeValidUtf8 bs).2 reads).2 = (takeValidUtf8 (bs ++ reads.flatten)).2 := by
  induction reads generalizing bs with
  | nil =>
      show (takeValidUtf8 bs).1 ++ [] = (takeValidUtf8 (bs ++ [])).1 ∧
        (takeValidUtf8 bs).2 = (takeValidUtf8 (bs ++ [])).2
      rw [List.append_nil, List.append_nil]
      exact ⟨rfl, rfl⟩
  | cons bytes reads ih =>
      -- the octets read so far go on with this read
      obtain ⟨htaken, hcarry⟩ := ih (bs ++ bytes)
      rw [List.append_assoc, takeValidUtf8_append] at htaken hcarry
      show (takeValidUtf8 bs).1 ++ ((takeValidUtf8 ((takeValidUtf8 bs).2 ++ bytes)).1 ++
          (takeEach (takeValidUtf8 ((takeValidUtf8 bs).2 ++ bytes)).2 reads).1.flatten) =
            (takeValidUtf8 (bs ++ (bytes ++ reads.flatten))).1 ∧
        (takeEach (takeValidUtf8 ((takeValidUtf8 bs).2 ++ bytes)).2 reads).2 =
          (takeValidUtf8 (bs ++ (bytes ++ reads.flatten))).2
      exact ⟨by rw [← List.append_assoc]; exact htaken, hcarry⟩

theorem carry_foldl (r : StreamReader) (reads : List (List UInt8)) :
    (reads.foldl StreamReader.read r).carry = (takeEach r.carry reads).2 := by
  induction reads generalizing r with
  | nil => rfl
  | cons bytes reads ih =>
      have hcarry : (r.read bytes).carry = (takeValidUtf8 (r.carry ++ bytes)).2 := by
        unfold StreamReader.read
        dsimp only
        split <;> rfl
      show (reads.foldl StreamReader.read (r.read bytes)).carry = _
      rw [ih, hcarry]
      rfl

/-- **Chunked decoding is whole decoding**, however the octets come, and the reader never
carries more than three of them from one read to the next. -/
theorem chunked_decoding_is_whole (reads : List (List UInt8)) :
    (takeEach [] reads).1.flatten ++
        (if (takeEach [] reads).2.isEmpty then [] else [replacementCharacter]) =
      fromUtf8Lossy reads.flatten ∧
    ∀ before, before <+: reads → ∀ maxStreamBytes,
      (before.foldl StreamReader.read (.new maxStreamBytes)).carry = (takeEach [] before).2 ∧
        (takeEach [] before).2.length ≤ 3 := by
  constructor
  · obtain ⟨htaken, hcarry⟩ := takeEach_spec [] reads
    rw [takeValidUtf8_nil] at htaken hcarry
    rw [fromUtf8Lossy_eq, lastContent, ← List.nil_append reads.flatten, ← htaken, ← hcarry]
    congr 1
    split <;> rfl
  · intro before _ maxStreamBytes
    obtain ⟨-, hcarry⟩ := takeEach_spec [] before
    rw [takeValidUtf8_nil] at hcarry
    refine ⟨carry_foldl _ before, ?_⟩
    rw [hcarry]
    exact length_carry_le _

example : takeEach [] [[0x61, 0xe2], [0x82], [0xac, 0xf0, 0x9f]] =
    ([['a'], [], ['€']], [0xf0, 0x9f]) := by
  decide +kernel

end Flowlite

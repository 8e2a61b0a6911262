import Flowlite.Services.StreamReader
import Mathlib.Data.List.TakeWhile

/-!
# What a reader sends

Decoding first: whatever the reads are, the contents a reader records are those of the
whole stream, cut in pieces (`flatten_contents`). Then the budget. Up to the first content
that overflows the head everything is sent; from there on `Holding` says how the tail, the
count and the flag go with what has been kept out of the head, and `record_overflows` is
the step.
-/

namespace Flowlite.Services

open Flowlite.Text

/-! ## Decoding -/

@[simp] theorem takeValidUtf8_nil : takeValidUtf8 [] = ([], []) := by
  rw [takeValidUtf8, fromUtf8]

/-- What is taken when the octets start with the character `c`. -/
theorem takeValidUtf8_char {b : UInt8} {bs : List UInt8} {c : Char} {more : Nat}
    (h : nextChar b bs = .char c more) :
    takeValidUtf8 (b :: bs) =
      (c :: (takeValidUtf8 (bs.drop more)).1, (takeValidUtf8 (bs.drop more)).2) := by
  have hstart : fromUtf8 (b :: bs) = (fromUtf8 (bs.drop more)).cons c := by
    rw [fromUtf8, h]
  rw [takeValidUtf8, takeValidUtf8.eq_def (bs.drop more), hstart]
  rcases fromUtf8 (bs.drop more) with ⟨valid, rest, errorLen⟩
  cases rest with
  | nil => rfl
  | cons d ds => cases errorLen <;> rfl

theorem takeValidUtf8_invalid {b : UInt8} {bs : List UInt8} {more : Nat}
    (h : nextChar b bs = .invalid more) :
    takeValidUtf8 (b :: bs) =
      (replacementCharacter :: (takeValidUtf8 (bs.drop more)).1,
        (takeValidUtf8 (bs.drop more)).2) := by
  rw [takeValidUtf8, fromUtf8, h]
  rfl

theorem takeValidUtf8_incomplete {b : UInt8} {bs : List UInt8}
    (h : nextChar b bs = .incomplete) : takeValidUtf8 (b :: bs) = ([], b :: bs) := by
  rw [takeValidUtf8, fromUtf8, h]

/-- Octets that come in two reads are taken as if they had come in one. -/
theorem takeValidUtf8_append (xs ys : List UInt8) :
    takeValidUtf8 (xs ++ ys) =
      ((takeValidUtf8 xs).1 ++ (takeValidUtf8 ((takeValidUtf8 xs).2 ++ ys)).1,
        (takeValidUtf8 ((takeValidUtf8 xs).2 ++ ys)).2) := by
  induction xs using fromUtf8Lossy.induct with
  | case1 => simp
  | case2 b bs c more hnext ih =>
      have hmore : more ≤ bs.length := by
        have hwithin := nextChar_within b bs
        rwa [hnext] at hwithin
      have hwhole : nextChar b bs ≠ .incomplete := by
        rw [hnext]
        exact nofun
      have hlonger := nextChar_append ys hwhole
      rw [hnext] at hlonger
      rw [List.cons_append, takeValidUtf8_char hlonger, takeValidUtf8_char hnext,
        List.drop_append_of_le_length hmore, ih]
      rfl
  | case3 b bs more hnext ih =>
      have hmore : more ≤ bs.length := by
        have hwithin := nextChar_within b bs
        rwa [hnext] at hwithin
      have hwhole : nextChar b bs ≠ .incomplete := by
        rw [hnext]
        exact nofun
      have hlonger := nextChar_append ys hwhole
      rw [hnext] at hlonger
      rw [List.cons_append, takeValidUtf8_invalid hlonger, takeValidUtf8_invalid hnext,
        List.drop_append_of_le_length hmore, ih]
      rfl
  | case4 b bs hnext =>
      rw [takeValidUtf8_incomplete hnext]
      rfl

/-- What a carry is worth when nothing follows it. -/
def lastContent (carry : List UInt8) : List (List Char) :=
  if carry.isEmpty then [] else [[replacementCharacter]]

theorem fromUtf8Lossy_eq (bs : List UInt8) :
    fromUtf8Lossy bs = (takeValidUtf8 bs).1 ++ (lastContent (takeValidUtf8 bs).2).flatten := by
  induction bs using fromUtf8Lossy.induct with
  | case1 =>
      rw [fromUtf8Lossy, takeValidUtf8_nil]
      rfl
  | case2 b bs c more hnext ih =>
      rw [fromUtf8Lossy, hnext, takeValidUtf8_char hnext]
      exact congrArg (c :: ·) ih
  | case3 b bs more hnext ih =>
      rw [fromUtf8Lossy, hnext, takeValidUtf8_invalid hnext]
      exact congrArg (replacementCharacter :: ·) ih
  | case4 b bs hnext =>
      rw [fromUtf8Lossy, hnext, takeValidUtf8_incomplete hnext]
      rfl

/-- The contents a reader records, read by read: what each read completes, unless that is
nothing, and what the stream ended in the middle of. -/
def contents : List UInt8 → List (List UInt8) → List (List Char)
  | carry, [] => lastContent carry
  | carry, bytes :: reads =>
      if (takeValidUtf8 (carry ++ bytes)).1.isEmpty then
        contents (takeValidUtf8 (carry ++ bytes)).2 reads
      else (takeValidUtf8 (carry ++ bytes)).1 :: contents (takeValidUtf8 (carry ++ bytes)).2 reads

theorem contents_ne_nil {carry : List UInt8} {reads : List (List UInt8)} {content : List Char}
    (h : content ∈ contents carry reads) : content ≠ [] := by
  induction reads generalizing carry with
  | nil =>
      unfold contents lastContent at h
      split at h
      · cases h
      · rw [List.mem_singleton.mp h]
        exact List.cons_ne_nil _ _
  | cons bytes reads ih =>
      unfold contents at h
      split at h
      · exact ih h
      · rename_i hempty
        cases h with
        | head => exact fun hnil => hempty (List.isEmpty_iff.mpr hnil)
        | tail _ h => exact ih h

theorem flatten_contents_carry (carry : List UInt8) (reads : List (List UInt8)) :
    (takeValidUtf8 carry).1 ++ (contents (takeValidUtf8 carry).2 reads).flatten =
      fromUtf8Lossy (carry ++ reads.flatten) := by
  induction reads generalizing carry with
  | nil => simp [contents, fromUtf8Lossy_eq carry]
  | cons bytes reads ih =>
      have hread := ih (carry ++ bytes)
      rw [takeValidUtf8_append] at hread
      rw [List.flatten_cons, ← List.append_assoc, ← hread, List.append_assoc]
      congr 1
      rw [contents]
      split
      · rename_i hempty
        rw [List.isEmpty_iff.mp hempty]
        rfl
      · rfl

/-- **Decoding does not depend on the reads**: together the contents are the stream. -/
theorem flatten_contents (reads : List (List UInt8)) :
    (contents [] reads).flatten = fromUtf8Lossy reads.flatten := by
  have h := flatten_contents_carry [] reads
  rwa [takeValidUtf8_nil] at h

/-- Record one content after the other. -/
def recordAll (capture : StreamCapture) : List (List Char) → StreamCapture × List Sent
  | [] => (capture, [])
  | content :: later =>
      let recorded := record capture content
      let rest := recordAll recorded.1 later
      (rest.1, recorded.2 ++ rest.2)

theorem finish_foldl (r : StreamReader) (reads : List (List UInt8)) :
    (reads.foldl StreamReader.read r).finish =
      r.sent ++ (recordAll r.capture (contents r.carry reads)).2 ++
        flushTail (recordAll r.capture (contents r.carry reads)).1 := by
  induction reads generalizing r with
  | nil =>
      show r.finish = _
      unfold StreamReader.finish contents lastContent
      cases r.carry with
      | nil => simp [recordAll]
      | cons b bs => simp [recordAll, StreamReader.record]
  | cons bytes reads ih =>
      rw [List.foldl_cons, ih]
      unfold StreamReader.read
      rw [contents]
      by_cases hempty : (takeValidUtf8 (r.carry ++ bytes)).1.isEmpty = true
      · simp only [hempty, if_true]
      · simp [hempty, recordAll, StreamReader.record]

/-- What is sent for a stream is what is sent for its contents. -/
theorem readTaskRunAttemptStream_eq {maxStreamBytes : Nat} {reads : List (List UInt8)}
    (h : ∀ bytes ∈ reads, bytes ≠ []) :
    readTaskRunAttemptStream maxStreamBytes reads =
      (recordAll (.new maxStreamBytes) (contents [] reads)).2 ++
        flushTail (recordAll (.new maxStreamBytes) (contents [] reads)).1 := by
  have hall : reads.takeWhile (!·.isEmpty) = reads := by
    rw [List.takeWhile_eq_self_iff]
    intro bytes hbytes
    simpa using h bytes hbytes
  unfold readTaskRunAttemptStream
  rw [hall, finish_foldl]
  rfl

/-! ## Cutting -/

theorem downToBoundary_boundary (content : List Char) (n : Nat) :
    isCharBoundary content (downToBoundary content n) = true := by
  induction n with
  | zero => exact isCharBoundary_zero content
  | succ n ih =>
      unfold downToBoundary
      split
      · assumption
      · exact ih

theorem le_downToBoundary {content : List Char} {m n : Nat}
    (hm : isCharBoundary content m = true) (hle : m ≤ n) : m ≤ downToBoundary content n := by
  induction n with
  | zero => exact hle
  | succ n ih =>
      unfold downToBoundary
      split
      · exact hle
      · rename_i hno
        have hne : m ≠ n + 1 := by
          intro heq
          rw [heq] at hm
          exact hno hm
        exact ih (by omega)

theorem downToBoundary_le (content : List Char) (n : Nat) : downToBoundary content n ≤ n := by
  induction n with
  | zero => exact Nat.le_refl 0
  | succ n ih =>
      unfold downToBoundary
      split
      · exact Nat.le_refl _
      · omega

/-- The head that is cut off is what fits. -/
theorem truncateAtCharBoundary_eq (content : List Char) (n : Nat) :
    truncateAtCharBoundary content n = (splitAtByte content n).1 := by
  unfold truncateAtCharBoundary
  split
  · rename_i hfits
    rw [splitAtByte_of_le hfits]
  · have hle := boundary_le_splitAtByte (downToBoundary_boundary content n)
      (downToBoundary_le content n)
    have hge := le_downToBoundary (isCharBoundary_splitAtByte content n)
      (byteLen_splitAtByte_le content n)
    rw [Nat.le_antisymm hle hge, splitAtByte_byteLen]

/-- A tail loses its front, and only when it is too long. -/
theorem trimToTail_spec (tail : List Char) (n : Nat) :
    ∃ dropped, tail = dropped ++ trimToTail tail n ∧ byteLen (trimToTail tail n) ≤ n ∧
      (dropped ≠ [] ↔ n < byteLen tail) := by
  unfold trimToTail
  split
  · rename_i hfits
    exact ⟨[], rfl, hfits, by simp [hfits]⟩
  · rename_i hlong
    dsimp only
    generalize hstart : ((List.range' (byteLen tail - n)
      (byteLen tail + 1 - (byteLen tail - n))).find? (isCharBoundary tail)).getD
        (byteLen tail) = start
    -- whichever way it was found, the start is a boundary at or past `cut_at`
    obtain ⟨hbound, hcut⟩ : isCharBoundary tail start = true ∧ byteLen tail - n ≤ start := by
      cases hfind : (List.range' (byteLen tail - n)
          (byteLen tail + 1 - (byteLen tail - n))).find? (isCharBoundary tail) with
      | none =>
          rw [hfind] at hstart
          subst hstart
          exact ⟨isCharBoundary_byteLen tail, Nat.sub_le _ _⟩
      | some i =>
          rw [hfind] at hstart
          subst hstart
          exact ⟨List.find?_some hfind, (List.mem_range'_1.mp (List.mem_of_find?_eq_some hfind)).1⟩
    have hlen := byteLen_splitAtByte_of_boundary hbound
    have hsum := congrArg byteLen (splitAtByte_append tail start)
    rw [byteLen_append, hlen] at hsum
    refine ⟨(splitAtByte tail start).1, (splitAtByte_append tail start).symm, by omega, ?_⟩
    constructor
    · intro _
      omega
    · intro _ hnil
      rw [hnil, byteLen_nil] at hlen
      omega

/-! ## What is kept out of the head -/

/-- `past` is what the stream has held past its head: its end is the tail, and the front is
what the tail has lost. -/
structure Holding (maxBytes : Nat) (past : List Char) (capture : StreamCapture) : Prop where
  budget : capture.maxBytes = maxBytes
  tailBytes : capture.tailBytes = maxBytes - maxBytes / 2
  held : capture.held = byteLen past
  tail : ∃ lost, past = lost ++ capture.tail ∧
    (lost ≠ [] ↔ maxBytes - maxBytes / 2 < byteLen past)
  fits : byteLen capture.tail ≤ maxBytes - maxBytes / 2
  capped : capture.capped = true ↔ maxBytes - maxBytes / 2 < byteLen past

theorem holding_new (maxBytes : Nat) : Holding maxBytes [] (.new maxBytes) where
  budget := rfl
  tailBytes := rfl
  held := rfl
  tail := ⟨[], rfl, by simp⟩
  fits := Nat.zero_le _
  capped := by simp [StreamCapture.new]

/-- A text that is sent, unless it is empty. -/
def sentText (s : List Char) : List Sent := if s.isEmpty then [] else [.text s]

/-- The marker that is sent when what is past the head grows from `before` to `after`. -/
def capMarker (maxBytes : Nat) (before after : List Char) : List Sent :=
  if byteLen before ≤ maxBytes - maxBytes / 2 ∧ maxBytes - maxBytes / 2 < byteLen after then
    [.overBudget maxBytes (maxBytes - maxBytes / 2)]
  else []

theorem capMarker_append (maxBytes : Nat) (a b c : List Char) :
    capMarker maxBytes a (a ++ b) ++ capMarker maxBytes (a ++ b) (a ++ b ++ c) =
      capMarker maxBytes a (a ++ b ++ c) := by
  have hb : byteLen (a ++ b) = byteLen a + byteLen b := byteLen_append a b
  have hc : byteLen (a ++ b ++ c) = byteLen (a ++ b) + byteLen c := byteLen_append _ c
  unfold capMarker
  by_cases hbefore : maxBytes - maxBytes / 2 < byteLen (a ++ b)
  · rw [if_neg (c := byteLen (a ++ b) ≤ _ ∧ _) (by omega), List.append_nil]
    congr 1
    apply propext
    constructor <;> intro h <;> exact ⟨h.1, by omega⟩
  · rw [if_neg (c := byteLen a ≤ _ ∧ _ < byteLen (a ++ b)) (by omega), List.nil_append]
    congr 1
    apply propext
    constructor <;> intro h <;> exact ⟨by omega, h.2⟩

variable {maxBytes : Nat} {past : List Char} {capture : StreamCapture} {content : List Char}

/-- A content that fits the head is sent, and that is all. -/
theorem record_fits (h : byteLen content ≤ capture.headRoom) :
    record capture content =
      ({ capture with headRoom := capture.headRoom - byteLen content }, [.text content]) := by
  rw [record, if_pos h]

/-- The flag goes up with the first content that makes the tail lose something. -/
theorem caps_iff (h : Holding maxBytes past capture) (rest : List Char) :
    (!capture.capped && decide (byteLen (trimToTail (capture.tail ++ rest) capture.tailBytes) <
        capture.held + byteLen rest)) = true ↔
      byteLen past ≤ maxBytes - maxBytes / 2 ∧
        maxBytes - maxBytes / 2 < byteLen (past ++ rest) := by
  obtain ⟨lost, hpast, hlost⟩ := h.tail
  obtain ⟨now, hnow, -, hdrop⟩ := trimToTail_spec (capture.tail ++ rest) capture.tailBytes
  have hlen := congrArg byteLen hnow
  rw [byteLen_append, byteLen_append] at hlen
  rw [byteLen_append, h.tailBytes] at hdrop
  rw [byteLen_append, Bool.and_eq_true, Bool.not_eq_true', decide_eq_true_eq, h.held,
    Bool.eq_false_iff, Ne, h.capped]
  by_cases hover : maxBytes - maxBytes / 2 < byteLen past
  · constructor <;> intro hcaps <;> omega
  · have hwhole : lost = [] := by
      by_contra hne
      exact hover (hlost.mp hne)
    have htail : byteLen past = byteLen capture.tail := by
      rw [hpast, hwhole, List.nil_append]
    constructor
    · intro hcaps
      have hnew : now ≠ [] := by
        intro hnil
        rw [hnil, byteLen_nil] at hlen
        omega
      have := hdrop.mp hnew
      omega
    · intro hcaps
      have := byteLen_pos (hdrop.mpr (by omega))
      omega

/-- **One content that overflows the head**: what fits is sent, the rest goes past the
head, and the first time the tail cannot hold it all the marker is sent. -/
theorem record_overflows (h : Holding maxBytes past capture)
    (hlong : capture.headRoom < byteLen content) :
    let cut := splitAtByte content capture.headRoom
    Holding maxBytes (past ++ cut.2) (record capture content).1 ∧
      (record capture content).1.headRoom = capture.headRoom - byteLen cut.1 ∧
      (record capture content).2 =
        sentText cut.1 ++ capMarker maxBytes past (past ++ cut.2) := by
  intro cut
  have hcaps := caps_iff h cut.2
  have hbudget := h.capped
  have hgrows := byteLen_append past cut.2
  unfold record
  simp only [if_neg (Nat.not_le_of_lt hlong), truncateAtCharBoundary_eq, splitAtByte_byteLen]
  refine ⟨?_, rfl, ?_⟩
  · obtain ⟨lost, hpast, hlost⟩ := h.tail
    obtain ⟨now, hnow, hfits, hdrop⟩ :=
      trimToTail_spec (capture.tail ++ cut.2) capture.tailBytes
    have hpastLen := congrArg byteLen hpast
    rw [byteLen_append] at hpastLen
    rw [byteLen_append, h.tailBytes] at hdrop
    constructor
    case budget => exact h.budget
    case tailBytes => exact h.tailBytes
    case held => show capture.held + _ = _; rw [h.held, hgrows]
    case fits => rw [← h.tailBytes]; exact hfits
    case capped =>
      rw [Bool.or_eq_true, hcaps, hbudget]
      omega
    case tail =>
      have hsum := congrArg (lost ++ ·) hnow
      simp only [← List.append_assoc, ← hpast] at hsum
      refine ⟨lost ++ now, hsum, ?_⟩
      constructor
      · intro hne
        by_cases hbefore : lost = []
        · have hnew : now ≠ [] := by
            intro hnil
            rw [hbefore, hnil] at hne
            exact hne rfl
          have := hdrop.mp hnew
          omega
        · have := hlost.mp hbefore
          omega
      · intro hover hnil
        obtain ⟨hbefore, hnew⟩ := List.append_eq_nil_iff.mp hnil
        have hsame : byteLen lost = 0 := by rw [hbefore, byteLen_nil]
        exact hdrop.mpr (by omega) hnew
  · rw [h.budget, h.tailBytes, capMarker]
    congr 1
    rw [h.tailBytes] at hcaps
    by_cases hgo : byteLen past ≤ maxBytes - maxBytes / 2 ∧
        maxBytes - maxBytes / 2 < byteLen (past ++ cut.2)
    · rw [if_pos (hcaps.mpr hgo), if_pos hgo]
    · rw [if_neg (fun hyes => hgo (hcaps.mp hyes)), if_neg hgo]

/-! ## What a whole stream sends -/

/-- From the cut on, no content starts with a character that the head has room for. -/
def KeptOut (room : Nat) (later : List (List Char)) : Prop :=
  ∀ content ∈ later, ∀ c ∈ content.head?, room < c.utf8Size

instance (room : Nat) (later : List (List Char)) : Decidable (KeptOut room later) :=
  have (content : List Char) : Decidable (∀ c ∈ content.head?, room < c.utf8Size) :=
    Option.decidableForallMem content.head?
  List.decidableBAll _ later

/-- The contents after the one that overflows the head. -/
def pastCut : Nat → List (List Char) → List (List Char)
  | _, [] => []
  | room, content :: later =>
      if byteLen content ≤ room then pastCut (room - byteLen content) later else later

/-- The room the head is left with when it has been cut. -/
def roomLeft (maxBytes : Nat) (decoded : List Char) : Nat :=
  maxBytes / 2 - byteLen (splitAtByte decoded (maxBytes / 2)).1

/-- A content that is kept out of the head only adds to what is past it. -/
theorem record_kept_out (h : Holding maxBytes past capture) (hne : content ≠ [])
    (hout : ∀ c ∈ content.head?, capture.headRoom < c.utf8Size) :
    Holding maxBytes (past ++ content) (record capture content).1 ∧
      (record capture content).1.headRoom = capture.headRoom ∧
      (record capture content).2 = capMarker maxBytes past (past ++ content) := by
  have hcut := splitAtByte_of_head hout
  have hlong : capture.headRoom < byteLen content := by
    by_contra hfits
    rw [splitAtByte_of_le (Nat.le_of_not_lt hfits)] at hcut
    exact hne (congrArg Prod.fst hcut)
  have hrecord := record_overflows h hlong
  rw [hcut] at hrecord
  exact hrecord

theorem recordAll_kept_out {later : List (List Char)} (h : Holding maxBytes past capture)
    (hne : ∀ content ∈ later, content ≠ []) (hout : KeptOut capture.headRoom later) :
    Holding maxBytes (past ++ later.flatten) (recordAll capture later).1 ∧
      (recordAll capture later).2 = capMarker maxBytes past (past ++ later.flatten) := by
  induction later generalizing past capture with
  | nil =>
      refine ⟨by simpa [recordAll] using h, ?_⟩
      rw [List.flatten_nil, List.append_nil, capMarker, if_neg (by omega)]
      rfl
  | cons content later ih =>
      obtain ⟨hholds, hroom, hsent⟩ := record_kept_out h
        (hne content List.mem_cons_self) (hout content List.mem_cons_self)
      have hlater : KeptOut (record capture content).1.headRoom later := by
        rw [hroom]
        exact fun x hx => hout x (List.mem_cons_of_mem _ hx)
      have hrest := ih hholds (fun x hx => hne x (List.mem_cons_of_mem _ hx)) hlater
      rw [List.flatten_cons, ← List.append_assoc]
      refine ⟨hrest.1, ?_⟩
      show (record capture content).2 ++ (recordAll (record capture content).1 later).2 = _
      rw [hsent, hrest.2]
      exact capMarker_append maxBytes past content later.flatten

/-- What is sent next is a text that starts with a character of at most `room` bytes, the
marker apart. -/
def GoesAhead (room : Nat) (sent : List Sent) : Prop :=
  ∃ markers s rest, sent = markers ++ .text s :: rest ∧
    (∀ m ∈ markers, ∃ x y, m = .overBudget x y) ∧ ∃ c ∈ s.head?, c.utf8Size ≤ room

variable (maxBytes) in
theorem goesAhead_capMarker {room : Nat} {sent : List Sent} (h : GoesAhead room sent)
    (before after : List Char) : GoesAhead room (capMarker maxBytes before after ++ sent) := by
  obtain ⟨markers, s, rest, rfl, hmarkers, hfits⟩ := h
  refine ⟨capMarker maxBytes before after ++ markers, s, rest, (List.append_assoc ..).symm,
    ?_, hfits⟩
  intro m hm
  rcases List.mem_append.mp hm with hm | hm
  · unfold capMarker at hm
    split at hm
    · exact ⟨_, _, List.mem_singleton.mp hm⟩
    · cases hm
  · exact hmarkers m hm

theorem goesAhead_append {room : Nat} {sent : List Sent} (h : GoesAhead room sent)
    (more : List Sent) : GoesAhead room (sent ++ more) := by
  obtain ⟨markers, s, rest, rfl, hmarkers, hfits⟩ := h
  refine ⟨markers, s, rest ++ more, ?_, hmarkers, hfits⟩
  rw [List.append_assoc]
  rfl

/-- The first text of what is sent starts as `content` does. -/
theorem goesAhead_text {room : Nat} {s : List Char} {c : Char} (hc : c ∈ s.head?)
    (hfits : c.utf8Size ≤ room) (rest : List Sent) : GoesAhead room (.text s :: rest) :=
  ⟨[], s, rest, rfl, fun _ hm => (List.not_mem_nil hm).elim, c, hc, hfits⟩

/-- A content the head has room for is sent before what is past the head already. -/
theorem recordAll_let_in {later : List (List Char)} (h : Holding maxBytes past capture)
    (hne : ∀ content ∈ later, content ≠ []) (hin : ¬ KeptOut capture.headRoom later) :
    GoesAhead capture.headRoom (recordAll capture later).2 := by
  induction later generalizing past capture with
  | nil => exact absurd (fun x hx => (List.not_mem_nil hx).elim) hin
  | cons content later ih =>
      show GoesAhead _
        ((record capture content).2 ++ (recordAll (record capture content).1 later).2)
      by_cases hout : ∀ c ∈ content.head?, capture.headRoom < c.utf8Size
      · obtain ⟨hholds, hroom, hsent⟩ :=
          record_kept_out h (hne content List.mem_cons_self) hout
        have hlater : ¬ KeptOut (record capture content).1.headRoom later := by
          rw [hroom]
          intro hkept
          refine hin (fun x hx => ?_)
          cases hx with
          | head => exact hout
          | tail _ hx => exact hkept x hx
        have hrest := ih hholds (fun x hx => hne x (List.mem_cons_of_mem _ hx)) hlater
        rw [hroom] at hrest
        rw [hsent]
        exact goesAhead_capMarker _ hrest past (past ++ content)
      · -- its first character fits, so something of it is sent now
        push Not at hout
        obtain ⟨c, hc, hsize⟩ := hout
        by_cases hfits : byteLen content ≤ capture.headRoom
        · rw [record_fits hfits]
          exact goesAhead_text hc hsize _
        · obtain ⟨-, -, hsent⟩ := record_overflows h (Nat.lt_of_not_le hfits)
          cases content with
          | nil => cases hc
          | cons d content =>
              cases Option.some.inj hc
              rw [hsent, splitAtByte, if_pos hsize]
              exact goesAhead_text rfl hsize _

/-- How contents that overflow the head are cut: what is sent of them as it arrives, what
of the content at the cut goes past the head, and what comes after that content. -/
structure CutAt (maxBytes : Nat) (capture : StreamCapture) (all heads : List (List Char))
    (past : List Char) (later : List (List Char)) (cut : StreamCapture) : Prop where
  holds : Holding maxBytes past cut
  past_ne_nil : past ≠ []
  later_eq : pastCut capture.headRoom all = later
  later_mem : ∀ content ∈ later, content ∈ all
  split : splitAtByte all.flatten capture.headRoom = (heads.flatten, past ++ later.flatten)
  room : cut.headRoom = capture.headRoom - byteLen heads.flatten
  sent : recordAll capture all = ((recordAll cut later).1,
    heads.map .text ++ capMarker maxBytes [] past ++ (recordAll cut later).2)

theorem Holding.headRoom (h : Holding maxBytes past capture) (room : Nat) :
    Holding maxBytes past { capture with headRoom := room } := by
  cases h
  constructor <;> assumption

/-- Contents that fit the head are all sent. -/
theorem recordAll_fits {all : List (List Char)} (h : byteLen all.flatten ≤ capture.headRoom) :
    recordAll capture all =
        ({ capture with headRoom := capture.headRoom - byteLen all.flatten }, all.map .text) ∧
      pastCut capture.headRoom all = [] := by
  induction all generalizing capture with
  | nil => exact ⟨rfl, rfl⟩
  | cons content all ih =>
      rw [List.flatten_cons, byteLen_append] at h
      have hfits : byteLen content ≤ capture.headRoom := by omega
      obtain ⟨hrest, hcut⟩ := @ih { capture with headRoom := capture.headRoom - byteLen content }
        (show byteLen all.flatten ≤ capture.headRoom - byteLen content by omega)
      constructor
      · show ((recordAll (record capture content).1 all).1, _) = _
        rw [record_fits hfits, hrest, List.flatten_cons, byteLen_append]
        simp only [Nat.sub_sub, List.map_cons, List.singleton_append]
      · rw [pastCut, if_pos hfits]
        exact hcut

/-- Contents that do not fit the head are cut somewhere. -/
theorem recordAll_cut (all : List (List Char)) (h : Holding maxBytes [] capture)
    (hlong : capture.headRoom < byteLen all.flatten) :
    ∃ heads past later cut, CutAt maxBytes capture all heads past later cut := by
  induction all generalizing capture with
  | nil => exact absurd hlong (Nat.not_lt_zero _)
  | cons content all ih =>
      rw [List.flatten_cons, byteLen_append] at hlong
      by_cases hfits : byteLen content ≤ capture.headRoom
      · obtain ⟨heads, past, later, cut, hcut⟩ := ih
          (h.headRoom (capture.headRoom - byteLen content))
          (show capture.headRoom - byteLen content < byteLen all.flatten by omega)
        refine ⟨content :: heads, past, later, cut, hcut.holds, hcut.past_ne_nil, ?_,
          fun x hx => List.mem_cons_of_mem _ (hcut.later_mem x hx), ?_, ?_, ?_⟩
        · rw [pastCut, if_pos hfits]
          exact hcut.later_eq
        · rw [List.flatten_cons, splitAtByte_of_fits hfits, hcut.split]
          rfl
        · rw [hcut.room, List.flatten_cons, byteLen_append]
          exact Nat.sub_sub ..
        · show ((recordAll (record capture content).1 all).1, _) = _
          rw [record_fits hfits, hcut.sent]
          rfl
      · obtain ⟨hholds, hroom, hsent⟩ := record_overflows h (Nat.lt_of_not_le hfits)
        have hsplit := splitAtByte_append content capture.headRoom
        refine ⟨[(splitAtByte content capture.headRoom).1].filter (!·.isEmpty),
          (splitAtByte content capture.headRoom).2, all, (record capture content).1, hholds,
          ?_, ?_, fun x hx => List.mem_cons_of_mem _ hx, ?_, ?_, ?_⟩
        · intro hnil
          have hle := byteLen_splitAtByte_le content capture.headRoom
          rw [hnil, List.append_nil] at hsplit
          rw [hsplit] at hle
          exact hfits hle
        · rw [pastCut, if_neg hfits]
        · rw [List.flatten_cons, splitAtByte_of_not_fits (Nat.lt_of_not_le hfits)]
          cases (splitAtByte content capture.headRoom).1 <;> simp
        · rw [hroom]
          cases (splitAtByte content capture.headRoom).1 <;> simp
        · show ((recordAll (record capture content).1 all).1, _) = _
          rw [hsent, sentText]
          cases (splitAtByte content capture.headRoom).1 <;> simp

/-- The tail is never longer than its budget. -/
theorem record_tail_le (capture : StreamCapture) (content : List Char)
    (h : byteLen capture.tail ≤ capture.tailBytes) :
    byteLen (record capture content).1.tail ≤ (record capture content).1.tailBytes ∧
      (record capture content).1.tailBytes = capture.tailBytes := by
  unfold record
  split
  · exact ⟨h, rfl⟩
  · obtain ⟨-, -, hfits, -⟩ := trimToTail_spec _ capture.tailBytes
    exact ⟨hfits, rfl⟩

end Flowlite.Services

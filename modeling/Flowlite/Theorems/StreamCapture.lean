import Flowlite.Logic.Capture

/-!
# What is recorded of a stream

Inside the budget everything, outside it the two ends and what is missing between them.
Both hold as long as the head, once it has been cut, takes nothing more. It is cut where a
character did not fit, and up to three bytes of it can be left: a later content that starts
with a character that small goes into them, ahead of what is held in the tail. Those bytes
are also missing from the budget, so that a stream can be over it that is not.
-/

namespace Flowlite

open Services Text

variable {maxStreamBytes : Nat} {reads : List (List UInt8)}

/-- The chunks say exactly what the stream said, and no marker is among them. -/
def RecordedWhole (maxStreamBytes : Nat) (reads : List (List UInt8)) : Prop :=
  let sent := readTaskRunAttemptStream maxStreamBytes reads
  (∀ s ∈ sent, ∃ text, s = .text text) ∧
    String.join (sent.map Sent.content) = String.ofList (fromUtf8Lossy reads.flatten)

/-- The two ends of the stream, within the budget, and between them the markers, the second
of which counts what the stream said there. -/
def RecordedEnds (maxStreamBytes : Nat) (reads : List (List UInt8)) : Prop :=
  ∃ (heads : List (List Char)) (lost : List Char) (tails : List (List Char)),
    fromUtf8Lossy reads.flatten = heads.flatten ++ lost ++ tails.flatten ∧
      byteLen heads.flatten + byteLen tails.flatten ≤ maxStreamBytes ∧
      readTaskRunAttemptStream maxStreamBytes reads = heads.map .text ++
        [.overBudget maxStreamBytes (maxStreamBytes - maxStreamBytes / 2),
          .dropped (byteLen lost)] ++ tails.map .text

/-- Whatever has been read, the tail is not over its half. -/
def TailBounded (maxStreamBytes : Nat) (reads : List (List UInt8)) : Prop :=
  ∀ before, before <+: reads →
    byteLen (before.foldl StreamReader.read (.new maxStreamBytes)).capture.tail ≤
      maxStreamBytes - maxStreamBytes / 2

/-- No content that comes after the one the head was cut in starts with a character that
fits into what the cut left of the head. -/
def HeadStaysCut (maxStreamBytes : Nat) (reads : List (List UInt8)) : Prop :=
  KeptOut (roomLeft maxStreamBytes (fromUtf8Lossy reads.flatten))
    (pastCut (maxStreamBytes / 2) (contents [] reads))

/-! ## The texts that are sent first -/

/-- The texts up to the first marker, and what is sent from there on. -/
def leading : List Sent → List Char × List Sent
  | .text s :: rest => (s ++ (leading rest).1, (leading rest).2)
  | rest => ([], rest)

theorem leading_texts (texts : List (List Char)) (rest : List Sent) :
    leading (texts.map .text ++ rest) = (texts.flatten ++ (leading rest).1, (leading rest).2) := by
  induction texts with
  | nil => rfl
  | cons s texts ih =>
      show leading (.text s :: (texts.map .text ++ rest)) = _
      rw [leading, ih, List.flatten_cons, List.append_assoc]

theorem exists_texts {sent : List Sent} (h : ∀ s ∈ sent, ∃ text, s = .text text) :
    ∃ texts : List (List Char), sent = texts.map .text := by
  induction sent with
  | nil => exact ⟨[], rfl⟩
  | cons s sent ih =>
      obtain ⟨text, rfl⟩ := h s List.mem_cons_self
      obtain ⟨texts, rfl⟩ := ih (fun s hs => h s (List.mem_cons_of_mem _ hs))
      exact ⟨text :: texts, rfl⟩

theorem join_texts (texts : List (List Char)) :
    String.join ((texts.map Sent.text).map Sent.content) = String.ofList texts.flatten := by
  induction texts with
  | nil => rfl
  | cons s texts ih =>
      rw [List.map_cons, List.map_cons, String.join_cons, ih, List.flatten_cons,
        String.ofList_append]
      rfl

theorem recordedWhole_iff : RecordedWhole maxStreamBytes reads ↔
    ∃ texts : List (List Char),
      readTaskRunAttemptStream maxStreamBytes reads = texts.map .text ∧
        texts.flatten = fromUtf8Lossy reads.flatten := by
  constructor
  · rintro ⟨htexts, hjoin⟩
    obtain ⟨texts, hsent⟩ := exists_texts htexts
    rw [hsent, join_texts] at hjoin
    exact ⟨texts, hsent, String.ofList_injective hjoin⟩
  · rintro ⟨texts, hsent, hflat⟩
    unfold RecordedWhole
    rw [hsent]
    refine ⟨fun s hs => ?_, by rw [join_texts, hflat]⟩
    obtain ⟨text, -, rfl⟩ := List.mem_map.mp hs
    exact ⟨text, rfl⟩

/-- A text that goes ahead of what the head was cut at is not what the stream says there,
unless a marker comes first. -/
theorem leading_goesAhead {room : Nat} {heads : List (List Char)} {past : List Char}
    {sent : List Sent} (h : GoesAhead room sent)
    (hroom : ∀ c ∈ past.head?, room < c.utf8Size)
    (hstart : (leading (heads.map .text ++ sent)).1 <+: heads.flatten ++ past) :
    ∃ m next rest, (leading (heads.map .text ++ sent)).2 = m :: next :: rest ∧
      ∀ n, next ≠ .dropped n := by
  obtain ⟨markers, s, rest, rfl, hmarkers, c, hc, hsize⟩ := h
  rw [leading_texts] at hstart ⊢
  cases markers with
  | nil =>
      -- the character is at the place of the one that did not fit
      obtain ⟨more, hmore⟩ := (List.prefix_append_right_inj _).mp hstart
      cases s with
      | nil => cases hc
      | cons d s =>
          cases Option.some.inj hc
          rw [← hmore] at hroom
          have := hroom c rfl
          omega
  | cons m markers =>
      obtain ⟨x, y, rfl⟩ := hmarkers m List.mem_cons_self
      cases markers with
      | nil => exact ⟨_, .text s, rest, rfl, fun n => nofun⟩
      | cons next markers =>
          obtain ⟨x', y', rfl⟩ := hmarkers next (by simp)
          exact ⟨_, .overBudget x' y', _, rfl, fun n => nofun⟩

/-! ## The two cases of a stream that overflows the head -/

variable {heads later : List (List Char)} {past : List Char} {cut : StreamCapture}

theorem Services.CutAt.decoded (h : CutAt maxStreamBytes (.new maxStreamBytes) (contents [] reads) heads
    past later cut) :
    fromUtf8Lossy reads.flatten = heads.flatten ++ (past ++ later.flatten) := by
  have hsum := splitAtByte_append (contents [] reads).flatten
    (StreamCapture.new maxStreamBytes).headRoom
  rw [h.split, flatten_contents] at hsum
  exact hsum.symm

theorem Services.CutAt.roomLeft_eq (h : CutAt maxStreamBytes (.new maxStreamBytes) (contents [] reads)
    heads past later cut) :
    roomLeft maxStreamBytes (fromUtf8Lossy reads.flatten) = cut.headRoom := by
  rw [h.room, roomLeft, ← flatten_contents]
  exact congrArg (maxStreamBytes / 2 - byteLen ·) (congrArg Prod.fst h.split)

/-- The character at the cut did not fit into the room that is left. -/
theorem Services.CutAt.room_lt (h : CutAt maxStreamBytes (.new maxStreamBytes) (contents [] reads) heads
    past later cut) :
    ∀ c ∈ (past ++ later.flatten).head?, cut.headRoom < c.utf8Size := by
  intro c hc
  obtain ⟨rest, hrest⟩ : ∃ rest, past ++ later.flatten = c :: rest := by
    cases hpast : past ++ later.flatten with
    | nil => rw [hpast] at hc; cases hc
    | cons d rest => rw [hpast] at hc; exact ⟨rest, by rw [Option.some.inj hc]⟩
  have hlt := room_lt_of_splitAtByte ((congrArg Prod.snd h.split).trans hrest)
  rw [h.split] at hlt
  rw [h.room]
  exact hlt

theorem Services.CutAt.heads_le (h : CutAt maxStreamBytes (.new maxStreamBytes) (contents [] reads) heads
    past later cut) : byteLen heads.flatten ≤ maxStreamBytes / 2 := by
  have hle := byteLen_splitAtByte_le (contents [] reads).flatten (maxStreamBytes / 2)
  rwa [show maxStreamBytes / 2 = (StreamCapture.new maxStreamBytes).headRoom from rfl,
    h.split] at hle

theorem Services.CutAt.headStaysCut (h : CutAt maxStreamBytes (.new maxStreamBytes) (contents [] reads)
    heads past later cut) :
    HeadStaysCut maxStreamBytes reads ↔ KeptOut cut.headRoom later := by
  unfold HeadStaysCut
  rw [h.roomLeft_eq]
  exact iff_of_eq (congrArg (KeptOut cut.headRoom) h.later_eq)

/-- A head that stays cut: what came past it is what was lost and the tail. -/
theorem Services.CutAt.sent_kept_out (h : CutAt maxStreamBytes (.new maxStreamBytes) (contents [] reads)
    heads past later cut) (hreads : ∀ bytes ∈ reads, bytes ≠ [])
    (hkept : KeptOut cut.headRoom later) :
    ∃ (lost : List Char) (tails : List (List Char)),
      past ++ later.flatten = lost ++ tails.flatten ∧
      (lost ≠ [] ↔ maxStreamBytes - maxStreamBytes / 2 < byteLen (past ++ later.flatten)) ∧
      byteLen tails.flatten ≤ maxStreamBytes - maxStreamBytes / 2 ∧
      readTaskRunAttemptStream maxStreamBytes reads = heads.map .text ++
        (if maxStreamBytes - maxStreamBytes / 2 < byteLen (past ++ later.flatten) then
          [.overBudget maxStreamBytes (maxStreamBytes - maxStreamBytes / 2),
            .dropped (byteLen lost)] else []) ++ tails.map .text := by
  obtain ⟨hholds, hmarker⟩ := recordAll_kept_out h.holds
    (fun x hx => contents_ne_nil (h.later_mem x hx)) hkept
  obtain ⟨lost, hpast, hlost⟩ := hholds.tail
  have hcap := capMarker_append maxStreamBytes [] past later.flatten
  simp only [List.nil_append] at hcap
  have hlen := congrArg byteLen hpast
  rw [byteLen_append _ (StreamCapture.tail _)] at hlen
  have htails : ([(recordAll cut later).1.tail].filter (!·.isEmpty)).flatten =
      (recordAll cut later).1.tail := by
    cases (recordAll cut later).1.tail <;> simp
  refine ⟨lost, [(recordAll cut later).1.tail].filter (!·.isEmpty), by rw [htails]; exact hpast,
    hlost, by rw [htails]; exact hholds.fits, ?_⟩
  rw [readTaskRunAttemptStream_eq hreads, h.sent, hmarker, List.append_assoc (List.map _ _),
    hcap, List.append_assoc (List.map _ _), List.append_assoc (List.map _ _)]
  congr 1
  have hflush : flushTail (recordAll cut later).1 =
      (if maxStreamBytes - maxStreamBytes / 2 < byteLen (past ++ later.flatten) then
        [.dropped (byteLen lost)] else []) ++
          ([(recordAll cut later).1.tail].filter (!·.isEmpty)).map .text := by
    unfold flushTail
    have hcount : (recordAll cut later).1.held - byteLen (recordAll cut later).1.tail =
        byteLen lost := by
      rw [hholds.held]
      omega
    rw [hcount]
    congr 1
    · exact if_congr hholds.capped rfl rfl
    · cases (recordAll cut later).1.tail <;> simp
  rw [hflush, capMarker, byteLen_nil]
  by_cases hover : maxStreamBytes - maxStreamBytes / 2 < byteLen (past ++ later.flatten)
  · rw [if_pos ⟨Nat.zero_le _, hover⟩, if_pos hover, if_pos hover]
    rfl
  · rw [if_neg (fun hboth => hover hboth.2), if_neg hover, if_neg hover]
    rfl

/-- A head that does not stay cut: something goes ahead of what was cut off. -/
theorem Services.CutAt.sent_let_in (h : CutAt maxStreamBytes (.new maxStreamBytes) (contents [] reads)
    heads past later cut) (hreads : ∀ bytes ∈ reads, bytes ≠ [])
    (hin : ¬ KeptOut cut.headRoom later)
    (hstart : (leading (readTaskRunAttemptStream maxStreamBytes reads)).1 <+:
      fromUtf8Lossy reads.flatten) :
    ∃ m next rest, (leading (readTaskRunAttemptStream maxStreamBytes reads)).2 =
      m :: next :: rest ∧ ∀ n, next ≠ .dropped n := by
  have hahead := goesAhead_append (goesAhead_capMarker maxStreamBytes
    (recordAll_let_in h.holds (fun x hx => contents_ne_nil (h.later_mem x hx)) hin) [] past)
    (flushTail (recordAll cut later).1)
  have hsent : readTaskRunAttemptStream maxStreamBytes reads = heads.map .text ++
      (capMarker maxStreamBytes [] past ++ (recordAll cut later).2 ++
        flushTail (recordAll cut later).1) := by
    rw [readTaskRunAttemptStream_eq hreads, h.sent]
    simp only [List.append_assoc]
  rw [hsent] at hstart ⊢
  rw [h.decoded] at hstart
  exact leading_goesAhead hahead h.room_lt hstart

/-- A stream that fits the head is sent as it is read. -/
theorem sent_fits (hreads : ∀ bytes ∈ reads, bytes ≠ [])
    (hfits : byteLen (fromUtf8Lossy reads.flatten) ≤ maxStreamBytes / 2) :
    readTaskRunAttemptStream maxStreamBytes reads = (contents [] reads).map .text ∧
      HeadStaysCut maxStreamBytes reads ∧
      byteLen (fromUtf8Lossy reads.flatten) +
        roomLeft maxStreamBytes (fromUtf8Lossy reads.flatten) ≤ maxStreamBytes := by
  have hcontents : byteLen (contents [] reads).flatten ≤
      (StreamCapture.new maxStreamBytes).headRoom := by
    rw [flatten_contents]
    exact hfits
  obtain ⟨hall, hcut⟩ := recordAll_fits hcontents
  refine ⟨?_, ?_, ?_⟩
  · rw [readTaskRunAttemptStream_eq hreads, hall]
    exact List.append_nil _
  · unfold HeadStaysCut
    rw [show pastCut (maxStreamBytes / 2) (contents [] reads) = [] from hcut]
    exact fun x hx => (List.not_mem_nil hx).elim
  · unfold roomLeft
    rw [splitAtByte_of_le hfits]
    show byteLen _ + (maxStreamBytes / 2 - byteLen _) ≤ _
    omega

theorem tailBounded (maxStreamBytes : Nat) (reads : List (List UInt8)) :
    TailBounded maxStreamBytes reads := by
  have hkeep : ∀ (r : StreamReader) (bytes : List UInt8),
      byteLen r.capture.tail ≤ r.capture.tailBytes →
      byteLen (r.read bytes).capture.tail ≤ (r.read bytes).capture.tailBytes ∧
        (r.read bytes).capture.tailBytes = r.capture.tailBytes := by
    intro r bytes hfits
    unfold StreamReader.read
    by_cases hempty : (takeValidUtf8 (r.carry ++ bytes)).1.isEmpty = true
    · simp only [hempty, if_true]
      exact ⟨hfits, trivial⟩
    · simp only [hempty]
      exact record_tail_le r.capture _ hfits
  have hall : ∀ (before : List (List UInt8)) (r : StreamReader),
      byteLen r.capture.tail ≤ r.capture.tailBytes →
      byteLen (before.foldl StreamReader.read r).capture.tail ≤ r.capture.tailBytes := by
    intro before
    induction before with
    | nil => exact fun r hfits => hfits
    | cons bytes before ih =>
        intro r hfits
        obtain ⟨hnext, hsame⟩ := hkeep r bytes hfits
        rw [← hsame]
        exact ih (r.read bytes) hnext
  exact fun before _ => hall before (.new maxStreamBytes) (Nat.zero_le _)

/-- **Inside the budget**, a stream is recorded whole exactly when the head stays cut and
the bytes the cut left of it are not missing from the budget. -/
theorem capture_is_exact (maxStreamBytes : Nat) (reads : List (List UInt8))
    (hreads : ∀ bytes ∈ reads, bytes ≠ [])
    (hshort : byteLen (fromUtf8Lossy reads.flatten) ≤ maxStreamBytes) :
    RecordedWhole maxStreamBytes reads ↔
      HeadStaysCut maxStreamBytes reads ∧
        byteLen (fromUtf8Lossy reads.flatten) +
          roomLeft maxStreamBytes (fromUtf8Lossy reads.flatten) ≤ maxStreamBytes := by
  by_cases hfits : byteLen (fromUtf8Lossy reads.flatten) ≤ maxStreamBytes / 2
  · obtain ⟨hsent, hcut⟩ := sent_fits hreads hfits
    exact iff_of_true
      (recordedWhole_iff.mpr ⟨contents [] reads, hsent, flatten_contents reads⟩) hcut
  obtain ⟨heads, past, later, cut, hcut⟩ := recordAll_cut (contents [] reads)
    (holding_new maxStreamBytes) (by rw [flatten_contents]; exact Nat.lt_of_not_le hfits)
  rw [hcut.headStaysCut, hcut.roomLeft_eq]
  by_cases hkept : KeptOut cut.headRoom later
  · obtain ⟨lost, tails, hpast, hlost, -, hsent⟩ := hcut.sent_kept_out hreads hkept
    have hlen := congrArg byteLen hcut.decoded
    rw [byteLen_append] at hlen
    have hroom : cut.headRoom = maxStreamBytes / 2 - byteLen heads.flatten := hcut.room
    have hheads := hcut.heads_le
    constructor
    · intro hwhole
      obtain ⟨texts, htexts, -⟩ := recordedWhole_iff.mp hwhole
      have hunder : ¬ maxStreamBytes - maxStreamBytes / 2 < byteLen (past ++ later.flatten) := by
        intro hover
        rw [hsent, if_pos hover] at htexts
        have hmarker : Sent.dropped (byteLen lost) ∈ texts.map Sent.text := by
          rw [← htexts]
          simp
        obtain ⟨_, -, heq⟩ := List.mem_map.mp hmarker
        cases heq
      exact ⟨hkept, by omega⟩
    · rintro ⟨-, hunder⟩
      have hover : ¬ maxStreamBytes - maxStreamBytes / 2 < byteLen (past ++ later.flatten) := by
        omega
      have hnone : lost = [] := by
        by_contra hne
        exact hover (hlost.mp hne)
      rw [hnone, List.nil_append] at hpast
      refine recordedWhole_iff.mpr ⟨heads ++ tails, ?_, ?_⟩
      · rw [hsent, if_neg hover, List.append_nil, List.map_append]
      · rw [hcut.decoded, hpast, List.flatten_append]
  · refine iff_of_false (fun hwhole => ?_) (fun hboth => hkept hboth.1)
    obtain ⟨texts, htexts, hflat⟩ := recordedWhole_iff.mp hwhole
    have hleading := leading_texts texts []
    rw [List.append_nil, ← htexts] at hleading
    obtain ⟨m, next, rest, hnext, -⟩ := hcut.sent_let_in hreads hkept (by
      rw [hleading, hflat]
      exact ⟨[], by simp [leading]⟩)
    rw [hleading] at hnext
    cases hnext

/-- **Over the budget**, the two ends of a stream are recorded with what is missing between
them exactly when the head stays cut. -/
theorem capture_keeps_both_ends (maxStreamBytes : Nat) (reads : List (List UInt8))
    (hreads : ∀ bytes ∈ reads, bytes ≠ [])
    (hlong : maxStreamBytes < byteLen (fromUtf8Lossy reads.flatten)) :
    RecordedEnds maxStreamBytes reads ∧ TailBounded maxStreamBytes reads ↔
      HeadStaysCut maxStreamBytes reads := by
  obtain ⟨heads, past, later, cut, hcut⟩ := recordAll_cut (contents [] reads)
    (holding_new maxStreamBytes) (by
      rw [flatten_contents]
      show maxStreamBytes / 2 < _
      omega)
  rw [hcut.headStaysCut]
  have hlen := congrArg byteLen hcut.decoded
  rw [byteLen_append] at hlen
  have hheads := hcut.heads_le
  constructor
  · rintro ⟨⟨heads', lost, tails, hdecoded, -, hsent⟩, -⟩
    by_contra hin
    have hleading := leading_texts heads'
      ([.overBudget maxStreamBytes (maxStreamBytes - maxStreamBytes / 2),
        .dropped (byteLen lost)] ++ tails.map .text)
    rw [← List.append_assoc, ← hsent] at hleading
    obtain ⟨m, next, rest, hnext, hno⟩ := hcut.sent_let_in hreads hin (by
      rw [hleading, hdecoded]
      exact ⟨lost ++ tails.flatten, by simp [leading]⟩)
    rw [hleading] at hnext
    cases hnext
    exact hno _ rfl
  · intro hkept
    obtain ⟨lost, tails, hpast, -, htails, hsent⟩ := hcut.sent_kept_out hreads hkept
    refine ⟨⟨heads, lost, tails, ?_, by omega, ?_⟩, tailBounded maxStreamBytes reads⟩
    · rw [hcut.decoded, hpast, List.append_assoc]
    · rw [hsent, if_pos (by omega)]

namespace Replay

/-- `ab€` in one read and `c` in the next. -/
def cutThenSmall : List (List UInt8) := [[0x61, 0x62, 0xe2, 0x82, 0xac], [0x63]]

/-- One character more. -/
def cutThenLonger : List (List UInt8) := [[0x61, 0x62, 0xe2, 0x82, 0xac], [0x63, 0x64]]

/-- `abcd` in one read and `€` in the next: no room is left of a head of four bytes. -/
def cutBetween : List (List UInt8) := [[0x61, 0x62, 0x63, 0x64], [0xe2, 0x82, 0xac]]

/-- Of six bytes, which is all that is kept, the last is recorded ahead of the character
that did not fit into the head. -/
theorem capture_is_not_exact :
    ¬ ∀ maxStreamBytes (reads : List (List UInt8)), (∀ bytes ∈ reads, bytes ≠ []) →
      byteLen (fromUtf8Lossy reads.flatten) ≤ maxStreamBytes →
        RecordedWhole maxStreamBytes reads := by
  intro h
  obtain ⟨texts, hsent, hflat⟩ := recordedWhole_iff.mp
    (h 6 cutThenSmall (by decide) (by decide +kernel))
  have hread : readTaskRunAttemptStream 6 cutThenSmall =
      [['a', 'b'], ['c'], ['€']].map Sent.text := by
    decide +kernel
  rw [hread] at hsent
  have htexts := List.map_injective_iff.mpr (fun _ _ => Sent.text.inj) hsent
  rw [← htexts] at hflat
  exact absurd hflat (by decide +kernel)

/-- The same over the budget: the head is not the front of the stream. -/
theorem capture_loses_the_front :
    ¬ ∀ maxStreamBytes (reads : List (List UInt8)), (∀ bytes ∈ reads, bytes ≠ []) →
      maxStreamBytes < byteLen (fromUtf8Lossy reads.flatten) →
        RecordedEnds maxStreamBytes reads ∧ TailBounded maxStreamBytes reads := by
  intro h
  obtain ⟨⟨heads, lost, tails, hdecoded, -, hsent⟩, -⟩ :=
    h 6 cutThenLonger (by decide) (by decide +kernel)
  have hread : readTaskRunAttemptStream 6 cutThenLonger =
      [.text ['a', 'b'], .text ['c'], .overBudget 6 3, .dropped 3, .text ['d']] := by
    decide +kernel
  have hleading := leading_texts heads
    ([.overBudget 6 (6 - 6 / 2), .dropped (byteLen lost)] ++ tails.map .text)
  rw [← List.append_assoc, ← hsent, hread] at hleading
  have hheads : ['a', 'b', 'c'] = heads.flatten := by
    simpa [leading] using congrArg Prod.fst hleading
  have hfront : (fromUtf8Lossy cutThenLonger.flatten).take 3 = ['a', 'b', 'c'] := by
    rw [hdecoded, ← hheads]
    rfl
  exact absurd hfront (by decide +kernel)

theorem capture_is_exact_cutBetween : RecordedWhole 8 cutBetween :=
  (capture_is_exact 8 cutBetween (by decide) (by decide +kernel)).mpr
    ⟨by unfold HeadStaysCut; decide +kernel, by decide +kernel⟩

theorem capture_keeps_both_ends_cutBetween :
    RecordedEnds 4 cutBetween ∧ TailBounded 4 cutBetween :=
  (capture_keeps_both_ends 4 cutBetween (by decide) (by decide +kernel)).mpr
    (by unfold HeadStaysCut; decide +kernel)

end Replay

end Flowlite

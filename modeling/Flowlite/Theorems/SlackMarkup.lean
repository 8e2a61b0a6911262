import Flowlite.Theorems.SlackLimits

/-!
# What quoted output can do to a message

A text is escaped before it is cut, and its fences are broken once. Two things go wrong
with that: a cut can fall within what one character was escaped to, and a run of backticks
that leaves two over makes a fence again with the one before them. `slack_markup_whole_iff`
says that nothing else does.
-/

namespace Flowlite.Message

open Store Text Slack

/-- The markup of a block. The text of a header is plain. -/
def Block.mrkdwns : Block → List (List Char)
  | .header _ => []
  | .section mrkdwn => [mrkdwn]
  | .fields mrkdwns => mrkdwns
  | .context mrkdwn => [mrkdwn]

/-- The line above a code block. -/
def labelLine (name : TaskRunAttemptOutputStream) : List Char :=
  "*".toList ++ (label name).toList ++ "*\n".toList

/-- A stream is in one code block: a fence opens it below the label, and one closes it at
the very end. -/
def FencedOnce (name : TaskRunAttemptOutputStream) (text : List Char) : Prop :=
  ∀ i, OccursAt fence text i ↔ i = (labelLine name).length ∨ i + fence.length = text.length

/-- Nothing a passage quotes is markup, and a stream stays in its code block. -/
structure Passage.Whole (p : Passage) : Prop where
  escaped : ∀ text ∈ p.block.mrkdwns, Escaped text
  fenced : ∀ name text, p = .stream name text → ∀ mrkdwn ∈ p.block.mrkdwns,
    FencedOnce name mrkdwn

/-! ## What breaks a passage -/

/-- The text is too long, and the cut falls within what one of its characters is written
as. -/
def CutsEntity (q : Quoting) (maxChars : Nat) (text : List Char) : Prop :=
  maxChars < (q.quote text).length ∧ q.Splits (maxChars - 1) text

/-- A run of backticks leaves two over, and what is kept of the text reaches that far. -/
def LeavesFence (maxChars : Nat) (text : List Char) : Prop :=
  ∃ before m after, IsRun text before m after ∧ 3 ≤ m ∧ m % 3 = 2 ∧
    ((fencing.quote text).length ≤ maxChars ∨
      (fencing.quote before).length + 5 * (m / 3) + 2 ≤ maxChars - 1)

def Passage.Breaks : Passage → Prop
  | .header _ => False
  | .facts texts => ∃ text ∈ texts, CutsEntity escaping maxFieldChars text
  | .prose text | .closing text => CutsEntity escaping maxSectionChars text
  | .stream _ text =>
      CutsEntity fencing maxQuotedChars text ∨ LeavesFence maxQuotedChars text

theorem escaped_shortened_iff (q : Quoting) (maxChars : Nat) (text : List Char)
    {tail : List Char} (htail : Plain tail) :
    Escaped (shortened maxChars (q.quote text) ++ tail) ↔ ¬ CutsEntity q maxChars text := by
  unfold shortened CutsEntity
  split
  · have hfits : (q.quote text).length ≤ maxChars := ‹_›
    constructor
    · intro _ h
      exact absurd h.1 (Nat.not_lt_of_le hfits)
    · intro _
      exact q.escaped_quote text htail
  · have hlong : maxChars < (q.quote text).length := Nat.lt_of_not_le ‹_›
    rw [List.append_assoc]
    show Escaped (_ ++ '…' :: tail) ↔ _
    rw [q.escaped_take_iff text (maxChars - 1) htail]
    constructor
    · intro h hcut
      exact h hcut.2
    · intro h hsplit
      exact h ⟨hlong, hsplit⟩

theorem escaped_shortened_iff' (q : Quoting) (maxChars : Nat) (text : List Char) :
    Escaped (shortened maxChars (q.quote text)) ↔ ¬ CutsEntity q maxChars text := by
  have hnil : Plain [] := fun _ hc => nomatch hc
  have h := escaped_shortened_iff q maxChars text hnil
  rwa [List.append_nil] at h

/-- The fences of what is kept of a stream. -/
theorem exists_occursAt_shortened (maxChars : Nat) (text : List Char) :
    (∃ i, OccursAt fence (shortened maxChars (fencing.quote text)) i) ↔
      LeavesFence maxChars text := by
  have hdots : '…' ∉ fence := not_mem_fence (by decide)
  unfold shortened LeavesFence
  split
  · have hfits : (fencing.quote text).length ≤ maxChars := ‹_›
    constructor
    · rintro ⟨i, hi⟩
      obtain ⟨before, m, after, hrun, hm, hmod, -⟩ := (occursAt_fencing_iff text i).mp hi
      exact ⟨before, m, after, hrun, hm, hmod, Or.inl hfits⟩
    · rintro ⟨before, m, after, hrun, hm, hmod, -⟩
      exact ⟨(fencing.quote before).length + 5 * (m / 3) - 1,
        (occursAt_fencing_iff text _).mpr ⟨before, m, after, hrun, hm, hmod, by omega⟩⟩
  · have hlong : maxChars < (fencing.quote text).length := Nat.lt_of_not_le ‹_›
    have hocc : ∀ i, OccursAt fence ((fencing.quote text).take (maxChars - 1) ++ ['…']) i ↔
        OccursAt fence (fencing.quote text) i ∧ i + 3 ≤ maxChars - 1 := by
      intro i
      have hnil : ∀ j, ¬ OccursAt fence [] j := fun j => not_occursAt_short (by decide) j
      rw [occursAt_separator fence_ne_nil hdots, occursAt_take fence_ne_nil]
      constructor
      · rintro (h | ⟨-, h⟩)
        · exact h
        · exact absurd h (hnil _)
      · intro h
        exact Or.inl h
    constructor
    · rintro ⟨i, hi⟩
      obtain ⟨hi, hle⟩ := (hocc i).mp hi
      obtain ⟨before, m, after, hrun, hm, hmod, hpos⟩ := (occursAt_fencing_iff text i).mp hi
      exact ⟨before, m, after, hrun, hm, hmod, Or.inr (by omega)⟩
    · rintro ⟨before, m, after, hrun, hm, hmod, hkept⟩
      refine ⟨(fencing.quote before).length + 5 * (m / 3) - 1, (hocc _).mpr ⟨?_, by omega⟩⟩
      exact (occursAt_fencing_iff text _).mpr ⟨before, m, after, hrun, hm, hmod, by omega⟩

theorem quotedText_eq (name : TaskRunAttemptOutputStream) (text : List Char) :
    quotedText name text = ("*".toList ++ (label name).toList ++ "*".toList) ++
      '\n' :: (fence ++
        '\n' :: (shortened maxQuotedChars (fencing.quote text) ++ '\n' :: fence)) := by
  cases name <;> rfl

theorem length_quotedText (name : TaskRunAttemptOutputStream) (text : List Char) :
    (quotedText name text).length =
      9 + 4 + (shortened maxQuotedChars (fencing.quote text)).length + 4 := by
  have hbefore : ("*".toList ++ (label name).toList ++ "*\n```\n".toList).length = 13 := by
    cases name <;> rfl
  unfold quotedText
  rw [List.length_append, List.length_append, hbefore]
  rfl

/-- The fences of a code block are its own, at either end, and those in between. -/
theorem occursAt_quotedText (name : TaskRunAttemptOutputStream) (text : List Char) (i : Nat) :
    OccursAt fence (quotedText name text) i ↔
      i = 9 ∨ i + 3 = (quotedText name text).length ∨
        13 ≤ i ∧ OccursAt fence (shortened maxQuotedChars (fencing.quote text)) (i - 13) := by
  have hline : '\n' ∉ fence := not_mem_fence (by decide)
  have hlabel : ¬ OccursAt fence ("*".toList ++ (label name).toList ++ "*".toList) i := by
    have hticks : tick ∉ "*".toList ++ (label name).toList ++ "*".toList := by
      cases name <;> decide
    exact fun h => hticks (List.mem_of_mem_drop (h.subset List.mem_cons_self))
  have hlen : ("*".toList ++ (label name).toList ++ "*".toList).length = 8 := by
    cases name <;> rfl
  have hfence : fence.length = 3 := rfl
  rw [length_quotedText, quotedText_eq, occursAt_separator fence_ne_nil hline,
    occursAt_separator fence_ne_nil hline, occursAt_separator fence_ne_nil hline,
    occursAt_fence_iff, occursAt_fence_iff, hlen, hfence]
  generalize shortened maxQuotedChars (fencing.quote text) = kept
  have hshift : i - (8 + 1) - (3 + 1) = i - 13 := by omega
  rw [hshift]
  constructor
  · rintro (h | ⟨hi, h | ⟨hi', h | ⟨hi'', h⟩⟩⟩)
    · exact absurd h hlabel
    · exact Or.inl (by omega)
    · exact Or.inr (Or.inr ⟨by omega, h⟩)
    · exact Or.inr (Or.inl (by omega))
  · rintro (h | h | ⟨hi, h⟩)
    · exact Or.inr ⟨by omega, Or.inl (by omega)⟩
    · exact Or.inr ⟨by omega, Or.inr ⟨by omega, Or.inr ⟨by omega, by omega⟩⟩⟩
    · exact Or.inr ⟨by omega, Or.inr ⟨by omega, Or.inl h⟩⟩

/-- Between the two fences of its own, a quoted stream has those of what is kept of it. -/
theorem fencedOnce_iff (name : TaskRunAttemptOutputStream) (text : List Char) :
    FencedOnce name (quotedText name text) ↔ ¬ LeavesFence maxQuotedChars text := by
  have hlabel : (labelLine name).length = 9 := by
    cases name <;> rfl
  have hfence : fence.length = 3 := rfl
  rw [← exists_occursAt_shortened]
  unfold FencedOnce
  rw [hlabel, hfence]
  constructor
  · rintro h ⟨j, hj⟩
    have hle := hj.le fence_ne_nil
    have hocc : OccursAt fence (quotedText name text) (13 + j) := by
      rw [occursAt_quotedText]
      refine Or.inr (Or.inr ⟨Nat.le_add_right 13 j, ?_⟩)
      rwa [Nat.add_sub_cancel_left]
    have hends := (h (13 + j)).mp hocc
    rw [length_quotedText] at hends
    omega
  · intro h i
    rw [occursAt_quotedText]
    constructor
    · rintro (hi | hi | ⟨-, hi⟩)
      · exact Or.inl hi
      · exact Or.inr hi
      · exact absurd ⟨_, hi⟩ h
    · rintro (hi | hi)
      · exact Or.inl hi
      · exact Or.inr (Or.inl hi)

theorem escaped_quotedText_iff (name : TaskRunAttemptOutputStream) (text : List Char) :
    Escaped (quotedText name text) ↔ ¬ CutsEntity fencing maxQuotedChars text := by
  have hbefore : Plain ("*".toList ++ (label name).toList ++ "*\n```\n".toList) := by
    cases name <;> decide
  unfold quotedText
  rw [List.append_assoc, escaped_append_iff hbefore, escaped_shortened_iff _ _ _ (by decide)]

/-! ## The passages -/

/-- A passage of one text, in no code block. -/
theorem whole_of_text {p : Passage} {text : List Char}
    (hblock : p.block.mrkdwns = [shortened maxSectionChars (escape text)])
    (hne : ∀ name s, p ≠ .stream name s) :
    p.Whole ↔ ¬ CutsEntity escaping maxSectionChars text := by
  rw [← escaped_shortened_iff' escaping maxSectionChars text]
  constructor
  · intro h
    exact h.escaped _ (hblock ▸ List.mem_singleton_self _)
  · intro h
    refine ⟨fun mrkdwn hmem => ?_, fun name s heq => absurd heq (hne name s)⟩
    rw [hblock] at hmem
    rw [List.mem_singleton.mp hmem]
    exact h

theorem Passage.whole_iff (p : Passage) : p.Whole ↔ ¬ p.Breaks := by
  cases p with
  | header text =>
      exact ⟨fun _ h => h, fun _ => ⟨fun _ h => (nomatch h), fun _ _ h => nomatch h⟩⟩
  | facts texts =>
      constructor
      · rintro h ⟨text, hmem, hcut⟩
        have hshown : shortened maxFieldChars (escape text) ∈
            (Passage.facts texts).block.mrkdwns := List.mem_map_of_mem hmem
        exact (escaped_shortened_iff' escaping maxFieldChars text).mp (h.escaped _ hshown) hcut
      · intro h
        refine ⟨fun mrkdwn hmem => ?_, fun _ _ heq => nomatch heq⟩
        obtain ⟨text, htext, rfl⟩ := List.mem_map.mp hmem
        exact (escaped_shortened_iff' escaping maxFieldChars text).mpr
          fun hcut => h ⟨text, htext, hcut⟩
  | prose text => exact whole_of_text rfl fun _ _ h => nomatch h
  | closing text => exact whole_of_text rfl fun _ _ h => nomatch h
  | stream name text =>
      have hshown : ∀ mrkdwn ∈ (Passage.stream name text).block.mrkdwns,
          mrkdwn = quotedText name text := fun _ h => List.mem_singleton.mp h
      show _ ↔ ¬ (CutsEntity fencing maxQuotedChars text ∨ LeavesFence maxQuotedChars text)
      rw [not_or, ← escaped_quotedText_iff name, ← fencedOnce_iff name]
      constructor
      · intro h
        exact ⟨h.escaped _ (List.mem_singleton_self _),
          h.fenced name text rfl _ (List.mem_singleton_self _)⟩
      · rintro ⟨hescaped, hfenced⟩
        refine ⟨fun mrkdwn hmem => ?_, fun name' text' heq mrkdwn hmem => ?_⟩
        · rw [hshown mrkdwn hmem]
          exact hescaped
        · cases heq
          rw [hshown mrkdwn hmem]
          exact hfenced

/-- Every text of the message is markup that nothing quoted has broken exactly if no cut
falls within what a character was escaped to, and no run of backticks that is shown leaves
two over. -/
theorem slack_markup_whole_iff (timestamp : Instant → List Char) (jobRun : JobRun)
    (taskRuns : List TaskRun) (failures : List JobRunFailureTask) (maxOutputBytes : Nat) :
    ∃ passages, passages = messagePassages timestamp jobRun taskRuns failures maxOutputBytes ∧
      messageBlocks timestamp jobRun taskRuns failures maxOutputBytes =
        some (passages.map Passage.block) ∧
      ((∀ p ∈ passages, p.Whole) ↔ ∀ p ∈ passages, ¬ p.Breaks) := by
  refine ⟨_, rfl, messageBlocks_eq timestamp jobRun taskRuns failures maxOutputBytes, ?_⟩
  constructor
  · intro h p hp
    exact p.whole_iff.mp (h p hp)
  · intro h p hp
    exact p.whole_iff.mpr (h p hp)

/-! ## Two streams that break a message -/

/-- The task that failed once it had written `stdout`. -/
abbrev failedWith (stdout : List Char) : JobRunFailureTask := failedTask loadTask stdout

/-- A stream that fits and does not end in white space is quoted as it is. -/
theorem trimEnd_outputTail {maxOutputBytes : Nat} {s : List Char} (hs : trimEnd s = s)
    (hne : s ≠ []) (hfits : byteLen s ≤ maxOutputBytes) :
    trimEnd (outputTail maxOutputBytes s) = s := by
  have hempty : ¬ s.isEmpty = true := fun h => hne (List.isEmpty_iff.mp h)
  unfold outputTail
  rw [if_neg hempty, hs, if_pos hfits]
  show (s ++ ['\n']).rdropWhile isWhiteSpace = s
  rw [List.rdropWhile_concat_pos _ _ _ (by decide)]
  exact hs

theorem stream_mem_messagePassages (stdout : List Char) (maxOutputBytes : Nat) :
    .stream .stdout (trimEnd (outputTail maxOutputBytes stdout)) ∈
      messagePassages (fun _ => []) nightlyRun [] [failedWith stdout] maxOutputBytes := by
  have htext : (failedWith stdout).streams.stdout.toList = stdout := String.toList_ofList
  show _ ∈ [_, _, _, Passage.stream .stdout
    (trimEnd (outputTail maxOutputBytes (failedWith stdout).streams.stdout.toList)), _, _]
  rw [htext]
  simp

def fiveTicks : List Char := List.replicate 5 tick

def manyAmpersands : List Char := List.replicate 600 '&'

theorem length_fencing_ampersands (n : Nat) :
    (fencing.quote (List.replicate n '&')).length = 5 * n := by
  induction n with
  | zero => rfl
  | succ n ih =>
      have hspecial := fencing.special [] '&' (List.replicate n '&') (Or.inl rfl)
      rw [List.nil_append] at hspecial
      rw [List.replicate_succ, hspecial, List.length_append, ih]
      show 5 + 5 * n = 5 * (n + 1)
      omega

/-- Five backticks make a fence again, and the cut of six hundred ampersands leaves two
characters of one. -/
theorem slack_markup_breaks :
    (¬ ∀ p ∈ messagePassages (fun _ => []) nightlyRun [] [failedWith fiveTicks] 4096,
        p.Whole) ∧
      ¬ ∀ p ∈ messagePassages (fun _ => []) nightlyRun [] [failedWith manyAmpersands] 4096,
        p.Whole := by
  constructor
  · intro h
    have hmem := stream_mem_messagePassages fiveTicks 4096
    rw [trimEnd_outputTail (by decide) (by decide) (by decide)] at hmem
    have hfence : OccursAt fence (quotedText .stdout fiveTicks) 17 := by
      show fence <+: (quotedText .stdout fiveTicks).drop 17
      decide +kernel
    have hends := ((h _ hmem).fenced _ _ rfl _ (List.mem_singleton_self _) 17).mp hfence
    have hinside : ¬ (17 = (labelLine .stdout).length ∨
        17 + fence.length = (quotedText .stdout fiveTicks).length) := by decide +kernel
    exact hinside hends
  · intro h
    have hmem := stream_mem_messagePassages manyAmpersands 4096
    have htrim : trimEnd manyAmpersands = manyAmpersands := by
      have hlast : manyAmpersands = List.replicate 599 '&' ++ ['&'] := List.replicate_succ'
      rw [hlast]
      exact List.rdropWhile_concat_neg _ _ _ (by decide)
    have hfits : byteLen manyAmpersands ≤ 4096 := by
      unfold byteLen manyAmpersands
      rw [List.map_replicate, List.sum_replicate]
      decide
    rw [trimEnd_outputTail htrim (List.cons_ne_nil _ _) hfits] at hmem
    refine (escaped_quotedText_iff .stdout manyAmpersands).mp
      ((h _ hmem).escaped _ (List.mem_singleton_self _)) ⟨?_, ?_⟩
    · show 2983 < (fencing.quote (List.replicate 600 '&')).length
      rw [length_fencing_ampersands]
      decide
    · -- the cut after 2982 characters leaves two of the 597th
      have hsplit : manyAmpersands = List.replicate 596 '&' ++ List.replicate 4 '&' := by
        rw [List.replicate_append_replicate]
        rfl
      refine ⟨List.replicate 596 '&', '&', List.replicate 3 '&', hsplit, Or.inl rfl, ?_, ?_⟩
      · rw [length_fencing_ampersands]
        decide
      · rw [length_fencing_ampersands]
        decide

end Flowlite.Message

import Flowlite.Logic.Fences
import Flowlite.Notifications.Message
import Flowlite.Order.NextFit

/-!
# The passages of a message

What a message says, before any of it is escaped and cut: a passage for each block, with
the text a reader is meant to see. `messageBlocks_eq` says that the blocks are these
passages laid out, and with it that nothing in laying them out fails.

* `outputTail` is what is quoted of a stream (`streamTail_eq`);
* `taskPassages` packs the task lines in order (`taskSections_eq`).
-/

namespace Flowlite.Message

open Store Text Slack

/-! ## Cutting -/

/-- The text itself, or as much of it as leaves room for the dots. -/
def shortened (maxChars : Nat) (text : List Char) : List Char :=
  if text.length ≤ maxChars then text else text.take (maxChars - 1) ++ ['…']

theorem truncated_eq {maxChars : Nat} (h : 0 < maxChars) (text : List Char) :
    truncated text maxChars = some (shortened maxChars text) := by
  unfold truncated shortened
  split
  · rfl
  · rw [checkedSub, if_pos (show 1 ≤ maxChars from h)]
    rfl

theorem length_shortened_le {maxChars : Nat} (h : 0 < maxChars) (text : List Char) :
    (shortened maxChars text).length ≤ maxChars := by
  unfold shortened
  split
  · assumption
  · rw [List.length_append, List.length_take]
    show min (maxChars - 1) text.length + 1 ≤ maxChars
    omega

theorem shortened_of_le {maxChars : Nat} {text : List Char} (h : text.length ≤ maxChars) :
    shortened maxChars text = text :=
  if_pos h

theorem shortened_ne_nil (maxChars : Nat) {text : List Char} (h : text ≠ []) :
    shortened maxChars text ≠ [] := by
  unfold shortened
  split
  · exact h
  · exact List.append_ne_nil_of_right_ne_nil _ (List.cons_ne_nil _ _)

theorem boundaryFrom_spec (text : List Char) (left start : Nat) (hstart : start ≤ byteLen text)
    (hleft : byteLen text ≤ start + left) :
    isCharBoundary text (boundaryFrom text left start) = true ∧
      start ≤ boundaryFrom text left start ∧ boundaryFrom text left start ≤ byteLen text ∧
      ∀ m < boundaryFrom text left start, start ≤ m → isCharBoundary text m = false := by
  induction left generalizing start with
  | zero =>
      obtain rfl : start = byteLen text := by omega
      exact ⟨isCharBoundary_byteLen text, Nat.le_refl _, Nat.le_refl _,
        fun m hm hle => absurd hm (Nat.not_lt_of_le hle)⟩
  | succ left ih =>
      unfold boundaryFrom
      split
      · obtain ⟨hlt, hnot⟩ := ‹start < byteLen text ∧ isCharBoundary text start = false›
        obtain ⟨hbound, hlo, hhi, hfirst⟩ := ih (start + 1) (by omega) (by omega)
        refine ⟨hbound, by omega, hhi, fun m hm hle => ?_⟩
        rcases Nat.lt_or_ge start m with hm' | hm'
        · exact hfirst m hm hm'
        · obtain rfl : m = start := by omega
          exact hnot
      · have hstop := ‹¬ (start < byteLen text ∧ isCharBoundary text start = false)›
        refine ⟨?_, Nat.le_refl _, hstart, fun m hm hle => absurd hm (Nat.not_lt_of_le hle)⟩
        rcases Nat.lt_or_ge start (byteLen text) with hlt | hge
        · exact Bool.of_not_eq_false fun h => hstop ⟨hlt, h⟩
        · obtain rfl : start = byteLen text := by omega
          exact isCharBoundary_byteLen text

/-- What is quoted of a stream: all of it, or the longest end that fits below a line that
says so. -/
def outputTail (maxOutputBytes : Nat) (stream : List Char) : List Char :=
  if stream.isEmpty then "(nothing written)\n".toList
  else if byteLen (trimEnd stream) ≤ maxOutputBytes then trimEnd stream ++ "\n".toList
  else
    "(earlier output cut, last ".toList ++
      Format.decimal (byteLen (lastBytes maxOutputBytes (trimEnd stream))) ++
      " bytes follow)\n".toList ++ lastBytes maxOutputBytes (trimEnd stream) ++ "\n".toList

theorem streamTail_eq (stream : List Char) (maxOutputBytes : Nat) :
    streamTail stream maxOutputBytes = some (outputTail maxOutputBytes stream) := by
  unfold streamTail outputTail
  split
  · rfl
  · dsimp only
    split
    · rfl
    · generalize hs : trimEnd stream = s at *
      have hlt : ¬ byteLen s ≤ maxOutputBytes := ‹_›
      obtain ⟨hbound, hlo, hhi, hfirst⟩ := boundaryFrom_spec s (byteLen s)
        (byteLen s - maxOutputBytes) (Nat.sub_le _ _) (Nat.le_add_left _ _)
      generalize hcut : boundaryFrom s (byteLen s) (byteLen s - maxOutputBytes) = cut at *
      have htail : (splitAtByte s cut).2 = lastBytes maxOutputBytes s :=
        splitAtByte_of_first hbound (by omega) fun m hm hle => hfirst m hm (by omega)
      have hkept : byteLen s - cut = byteLen (lastBytes maxOutputBytes s) := by
        have hsum := congrArg byteLen (splitAtByte_append s cut)
        rw [byteLen_append, byteLen_splitAtByte_of_boundary hbound, htail] at hsum
        omega
      have hstart : checkedSub (byteLen s) maxOutputBytes =
          some (byteLen s - maxOutputBytes) := if_pos (by omega)
      have hsub : checkedSub (byteLen s) cut = some (byteLen s - cut) := if_pos hhi
      have hslice : sliceFrom s cut = some (splitAtByte s cut).2 := if_pos hbound
      rw [hstart, Option.bind_eq_bind, Option.bind_some, hcut, hsub, Option.bind_eq_bind,
        Option.bind_some, hslice, Option.bind_some, hkept, htail]

/-! ## Passages -/

/-- A block of a message, by the text it is to show. -/
inductive Passage
  | header (text : List Char)
  | facts (texts : List (List Char))
  | prose (text : List Char)
  | stream (label : TaskRunAttemptOutputStream) (text : List Char)
  | closing (text : List Char)
  deriving DecidableEq

def label : TaskRunAttemptOutputStream → String
  | .stdout => "stdout"
  | .stderr => "stderr"

/-- How much of a section the quoted stream may take. -/
def maxQuotedChars : Nat := 2983

/-- A stream in its code block. -/
def quotedText (name : TaskRunAttemptOutputStream) (text : List Char) : List Char :=
  "*".toList ++ (label name).toList ++ "*\n```\n".toList ++
    shortened maxQuotedChars (fencing.quote text) ++ "\n```".toList

/-- How a passage is laid out. -/
def Passage.block : Passage → Block
  | .header text => .header (shortened maxHeaderChars text)
  | .facts texts => .fields (texts.map fun text => shortened maxFieldChars (escape text))
  | .prose text => .section (shortened maxSectionChars (escape text))
  | .stream name text => .section (quotedText name text)
  | .closing text => .context (shortened maxSectionChars (escape text))

def factText (row : String × List Char) : List Char :=
  "*".toList ++ row.1.toList ++ "*\n".toList ++ row.2

def taskText (taskRun : TaskRun) : List Char :=
  "\n".toList ++ (taskRunEmoji taskRun.status).toList ++ " `".toList ++
    taskRun.taskId.toList ++ "` — ".toList ++ (Format.taskRunWord taskRun.status).toList

/-- Which task runs are listed in one section: as many as there is room for, in order. The
first section has a heading too. -/
def taskGroups (taskRuns : List TaskRun) : List (List TaskRun) :=
  Order.nextFit (fun taskRun => (taskLine taskRun).length) maxSectionChars
    "*Tasks*".toList.length taskRuns

def taskPassages (taskRuns : List TaskRun) : List Passage :=
  if taskRuns.isEmpty then []
  else
    match taskGroups taskRuns with
    | [] => []
    | first :: rest =>
        .prose ("*Tasks*".toList ++ first.flatMap taskText) ::
          rest.map fun group => .prose ((group.flatMap taskText).drop 1)

def failurePassages (maxOutputBytes : Nat) (failure : JobRunFailureTask) : List Passage :=
  .prose ("*".toList ++ failureTitle failure ++ "*".toList) ::
    if failure.attempt.isSome then
      [.stream .stdout (trimEnd (outputTail maxOutputBytes failure.streams.stdout.toList)),
        .stream .stderr (trimEnd (outputTail maxOutputBytes failure.streams.stderr.toList))]
    else []

def headerText (jobRun : JobRun) : List Char :=
  (jobRunEmoji jobRun.status).toList ++ " ".toList ++ jobRun.jobName.toList ++
    " run ".toList ++ Format.decimal jobRun.id ++ " ".toList ++
    (Format.jobRunWord jobRun.status).toList

def closingText (jobRun : JobRun) : List Char :=
  "Every task and attempt: `".toList ++ logsCommand jobRun ++ "`".toList

def cutText (jobRun : JobRun) : List Char :=
  "Too long for one message. Everything it left out: `".toList ++ logsCommand jobRun ++
    "`".toList

/-- Everything there is to say. -/
def allPassages (timestamp : Instant → List Char) (jobRun : JobRun)
    (taskRuns : List TaskRun) (failures : List JobRunFailureTask) (maxOutputBytes : Nat) :
    List Passage :=
  .header (headerText jobRun) :: .facts ((summaryRows timestamp jobRun).map factText) ::
    (taskPassages taskRuns ++ failures.flatMap (failurePassages maxOutputBytes) ++
      [.closing (closingText jobRun)])

/-- As much of it as one message holds. -/
def messagePassages (timestamp : Instant → List Char) (jobRun : JobRun)
    (taskRuns : List TaskRun) (failures : List JobRunFailureTask) (maxOutputBytes : Nat) :
    List Passage :=
  let passages := allPassages timestamp jobRun taskRuns failures maxOutputBytes
  if passages.length > maxBlocks then
    passages.take (maxBlocks - 1) ++ [.closing (cutText jobRun)]
  else passages

/-! ## The blocks are the passages laid out -/

theorem plain_append {s t : List Char} (hs : Plain s) (ht : Plain t) : Plain (s ++ t) := by
  intro c hc
  rcases List.mem_append.mp hc with hc | hc
  · exact hs c hc
  · exact ht c hc

theorem plain_decimal (n : Nat) : Plain (Format.decimal n) := by
  intro c hc hspecial
  have hdigit : c.isDigit = true :=
    Nat.isDigit_of_mem_toDigits (by decide) (by decide) hc
  rcases hspecial with rfl | rfl | rfl <;> cases hdigit

theorem plain_taskRunWord (status : TaskRunStatus) :
    Plain (Format.taskRunWord status).toList := by
  cases status <;> decide

theorem plain_taskRunEmoji (status : TaskRunStatus) : Plain (taskRunEmoji status).toList := by
  cases status <;> decide

theorem plain_logsCommand (jobRun : JobRun) : Plain (logsCommand jobRun) :=
  plain_append (by decide) (plain_decimal jobRun.id)

theorem taskLine_eq (taskRun : TaskRun) : taskLine taskRun = escape (taskText taskRun) := by
  have hspace : escape " `".toList = " `".toList := escape_of_plain (by decide)
  have hdash : escape "` — ".toList = "` — ".toList := escape_of_plain (by decide)
  have hline : escape "\n".toList = "\n".toList := escape_of_plain (by decide)
  unfold taskLine taskText
  rw [escape_append, escape_append, escape_append, escape_append, escape_append, hspace, hdash,
    hline, escape_of_plain (plain_taskRunEmoji _), escape_of_plain (plain_taskRunWord _)]

theorem flatMap_taskLine (taskRuns : List TaskRun) :
    taskRuns.flatMap taskLine = escape (taskRuns.flatMap taskText) := by
  induction taskRuns with
  | nil => rfl
  | cons taskRun rest ih =>
      rw [List.flatMap_cons, List.flatMap_cons, escape_append, ih, taskLine_eq]

/-- A line starts a new one, and what it shows first is an emoji. -/
theorem taskText_cons (taskRun : TaskRun) : ∃ s, taskText taskRun = '\n' :: ':' :: s := by
  obtain ⟨s, hs⟩ : ∃ s, (taskRunEmoji taskRun.status).toList = ':' :: s := by
    cases taskRun.status <;> exact ⟨_, rfl⟩
  unfold taskText
  rw [hs]
  exact ⟨_, rfl⟩

/-- A section that begins with a line is listed from behind its line break. -/
theorem trimStart_taskLines {group : List TaskRun} (hne : group ≠ []) :
    trimStart (group.flatMap taskLine) = escape ((group.flatMap taskText).drop 1) := by
  cases group with
  | nil => exact absurd rfl hne
  | cons taskRun rest =>
      obtain ⟨s, hs⟩ := taskText_cons taskRun
      rw [flatMap_taskLine, List.flatMap_cons, hs]
      rfl

theorem sectionBlock_eq (text : List Char) :
    sectionBlock text = some (.section (shortened maxSectionChars text)) := by
  unfold sectionBlock
  rw [truncated_eq (by decide)]
  rfl

theorem contextBlock_eq (text : List Char) :
    contextBlock text = some (.context (shortened maxSectionChars text)) := by
  unfold contextBlock
  rw [truncated_eq (by decide)]
  rfl

theorem taskSectionsFrom_eq (current : List Char) (taskRuns : List TaskRun) :
    ∃ first rest, Order.nextFit (fun taskRun => (taskLine taskRun).length) maxSectionChars
        current.length taskRuns = first :: rest ∧
      taskSectionsFrom current taskRuns =
        some ((trimStart (current ++ first.flatMap taskLine) ::
          rest.map fun group => trimStart (group.flatMap taskLine)).map fun text =>
            Block.section (shortened maxSectionChars text)) := by
  induction taskRuns generalizing current with
  | nil =>
      refine ⟨[], [], rfl, ?_⟩
      rw [taskSectionsFrom, sectionBlock_eq, List.flatMap_nil, List.append_nil]
      rfl
  | cons taskRun taskRuns ih =>
      unfold taskSectionsFrom Order.nextFit
      by_cases hover : current.length + (taskLine taskRun).length > maxSectionChars
      · obtain ⟨first, rest, hgroups, hsections⟩ := ih (taskLine taskRun)
        refine ⟨[], (taskRun :: first) :: rest, ?_, ?_⟩
        · rw [if_pos hover, hgroups, Order.intoFirst]
        · rw [if_pos hover, sectionBlock_eq, hsections, List.flatMap_nil, List.append_nil]
          rfl
      · obtain ⟨first, rest, hgroups, hsections⟩ := ih (current ++ taskLine taskRun)
        rw [List.length_append] at hgroups
        refine ⟨taskRun :: first, rest, ?_, ?_⟩
        · rw [if_neg hover, hgroups, Order.intoFirst]
        · rw [if_neg hover, hsections, List.flatMap_cons, List.append_assoc]

/-- No group but the first is empty. -/
theorem taskGroups_cases (taskRuns : List TaskRun) :
    ∃ first rest, taskGroups taskRuns = first :: rest ∧ ∀ group ∈ rest, group ≠ [] := by
  obtain ⟨first, rest, heq, -, hrest⟩ := Order.nextFit_fits
    (fun taskRun => (taskLine taskRun).length) maxSectionChars "*Tasks*".toList.length taskRuns
  exact ⟨first, rest, heq, fun group hgroup => (hrest group hgroup).1⟩

theorem taskSections_eq (taskRuns : List TaskRun) :
    taskSections taskRuns = some ((taskPassages taskRuns).map Passage.block) := by
  unfold taskSections taskPassages
  split
  · rfl
  · obtain ⟨first, rest, hgroups, hne⟩ := taskGroups_cases taskRuns
    obtain ⟨first', rest', hgroups', hsections⟩ := taskSectionsFrom_eq "*Tasks*".toList taskRuns
    obtain ⟨rfl, rfl⟩ := List.cons.inj (hgroups.symm.trans hgroups')
    have hheading : trimStart ("*Tasks*".toList ++ first.flatMap taskLine) =
        escape ("*Tasks*".toList ++ first.flatMap taskText) := by
      rw [escape_append, ← flatMap_taskLine]
      rfl
    rw [hsections, hgroups, hheading]
    dsimp only
    rw [List.map_cons, List.map_cons, List.map_map, List.map_map]
    refine congrArg some (congrArg₂ List.cons rfl (List.map_congr_left fun group hgroup => ?_))
    show Block.section (shortened maxSectionChars (trimStart (group.flatMap taskLine))) = _
    rw [trimStart_taskLines (hne group hgroup)]
    rfl

theorem mapM_eq_some {α β : Type} {f : α → Option β} {g : α → β} {l : List α}
    (h : ∀ x ∈ l, f x = some (g x)) : l.mapM f = some (l.map g) := by
  induction l with
  | nil => rfl
  | cons x l ih =>
      rw [List.mapM_cons, h x List.mem_cons_self,
        ih fun y hy => h y (List.mem_cons_of_mem x hy)]
      rfl

/-- Each fact is shown at most once, under a label of its own. -/
theorem summaryRows_labels (timestamp : Instant → List Char) (jobRun : JobRun) :
    ((summaryRows timestamp jobRun).map Prod.fst).Sublist
      ["Job", "Run", "Status", "Scheduled", "Started", "Finished", "Duration", "Parameters"] := by
  unfold summaryRows
  cases jobRun.startedAt <;> cases jobRun.finishedAt <;>
    by_cases hp : jobRun.parameters.isEmpty = true <;>
    simp only [hp, if_true, Bool.false_eq_true, if_false, List.map_append, List.map_cons,
      List.map_nil] <;>
    decide

theorem plain_summaryRows {timestamp : Instant → List Char} {jobRun : JobRun}
    {row : String × List Char} (h : row ∈ summaryRows timestamp jobRun) :
    Plain row.1.toList := by
  have hlabels : ∀ l ∈ ["Job", "Run", "Status", "Scheduled", "Started", "Finished",
      "Duration", "Parameters"], Plain l.toList := by decide
  exact hlabels _ ((summaryRows_labels timestamp jobRun).subset (List.mem_map_of_mem h))

theorem factText_eq {timestamp : Instant → List Char} {jobRun : JobRun}
    {row : String × List Char} (h : row ∈ summaryRows timestamp jobRun) :
    "*".toList ++ row.1.toList ++ "*\n".toList ++ escape row.2 = escape (factText row) := by
  have hstar : escape "*".toList = "*".toList := escape_of_plain (by decide)
  have hline : escape "*\n".toList = "*\n".toList := escape_of_plain (by decide)
  unfold factText
  rw [escape_append, escape_append, escape_append, hstar, hline,
    escape_of_plain (plain_summaryRows h)]

theorem fieldsBlock_eq (timestamp : Instant → List Char) (jobRun : JobRun) :
    fieldsBlock ((summaryRows timestamp jobRun).map fun row =>
        "*".toList ++ row.1.toList ++ "*\n".toList ++ escape row.2) =
      some (Passage.facts ((summaryRows timestamp jobRun).map factText)).block := by
  have hcut : ∀ field, truncated field maxFieldChars = some (shortened maxFieldChars field) :=
    truncated_eq (by decide)
  unfold fieldsBlock
  rw [mapM_eq_some fun field _ => hcut field]
  show some (Block.fields _) = some (Block.fields _)
  rw [List.map_map, List.map_map]
  refine congrArg some (congrArg Block.fields (List.map_congr_left fun row hrow => ?_))
  show shortened maxFieldChars
      ("*".toList ++ row.1.toList ++ "*\n".toList ++ escape row.2) = _
  rw [factText_eq hrow]
  rfl

theorem fenced_eq (name : TaskRunAttemptOutputStream) (text : List Char) :
    fenced (label name) text = some (quotedText name (trimEnd text)) := by
  have hroom : checkedSub maxSectionChars
      ("*".toList ++ (label name).toList ++ "*\n```\n\n```".toList).length =
        some maxQuotedChars := by
    cases name <;> rfl
  unfold fenced
  dsimp only
  rw [hroom, Option.bind_eq_bind, Option.bind_some, truncated_eq (by decide)]
  rfl

/-- The quoted stream was cut to fit, so the section is not cut again. -/
theorem length_quotedText_le (name : TaskRunAttemptOutputStream) (text : List Char) :
    (quotedText name text).length ≤ maxSectionChars := by
  have hcut : (shortened maxQuotedChars (fencing.quote text)).length ≤ 2983 :=
    length_shortened_le (by decide) _
  have hbefore : ("*".toList ++ (label name).toList ++ "*\n```\n".toList).length = 13 := by
    cases name <;> rfl
  have hafter : "\n```".toList.length = 4 := rfl
  unfold quotedText
  rw [List.length_append, List.length_append, hbefore, hafter]
  show 13 + _ + 4 ≤ 3000
  omega

theorem sectionBlock_quotedText (name : TaskRunAttemptOutputStream) (text : List Char) :
    sectionBlock (quotedText name text) = some (Passage.stream name text).block := by
  rw [sectionBlock_eq, shortened_of_le (length_quotedText_le name text)]
  rfl

theorem failureBlocks_eq (maxOutputBytes : Nat) (failure : JobRunFailureTask) :
    failureBlocks maxOutputBytes failure =
      some ((failurePassages maxOutputBytes failure).map Passage.block) := by
  have hstar : escape "*".toList = "*".toList := escape_of_plain (by decide)
  have htitle : "*".toList ++ escape (failureTitle failure) ++ "*".toList =
      escape ("*".toList ++ failureTitle failure ++ "*".toList) := by
    rw [escape_append, escape_append, hstar]
  have hstdout : ∀ text, fenced "stdout" text = some (quotedText .stdout (trimEnd text)) :=
    fenced_eq .stdout
  have hstderr : ∀ text, fenced "stderr" text = some (quotedText .stderr (trimEnd text)) :=
    fenced_eq .stderr
  unfold failureBlocks failurePassages
  rw [htitle, sectionBlock_eq, streamTail_eq, streamTail_eq]
  split
  · simp only [Option.bind_eq_bind, Option.bind_some, hstdout, hstderr, sectionBlock_quotedText]
    rfl
  · rfl

theorem headerBlock_eq (text : List Char) :
    headerBlock text = some (Passage.header text).block := by
  unfold headerBlock
  rw [truncated_eq (by decide)]
  rfl

/-- A line that names the command has nothing in it to escape. -/
theorem contextBlock_closing {before : List Char} (hbefore : Plain before) (jobRun : JobRun) :
    contextBlock (before ++ logsCommand jobRun ++ "`".toList) =
      some (Passage.closing (before ++ logsCommand jobRun ++ "`".toList)).block := by
  have hplain : Plain (before ++ logsCommand jobRun ++ "`".toList) :=
    plain_append (plain_append hbefore (plain_logsCommand jobRun)) (by decide)
  rw [contextBlock_eq, Passage.block, escape_of_plain hplain]

theorem allPassages_blocks (timestamp : Instant → List Char) (jobRun : JobRun)
    (taskRuns : List TaskRun) (failures : List JobRunFailureTask) (maxOutputBytes : Nat) :
    (allPassages timestamp jobRun taskRuns failures maxOutputBytes).map Passage.block =
      (Passage.header (headerText jobRun)).block ::
        (Passage.facts ((summaryRows timestamp jobRun).map factText)).block ::
          ((taskPassages taskRuns).map Passage.block ++
            (failures.map fun failure =>
              (failurePassages maxOutputBytes failure).map Passage.block).flatten ++
            [(Passage.closing (closingText jobRun)).block]) := by
  simp [allPassages, List.flatMap_def, Function.comp_def]

/-- The blocks are the passages laid out: nothing that lays them out fails. -/
theorem messageBlocks_eq (timestamp : Instant → List Char) (jobRun : JobRun)
    (taskRuns : List TaskRun) (failures : List JobRunFailureTask) (maxOutputBytes : Nat) :
    messageBlocks timestamp jobRun taskRuns failures maxOutputBytes =
      some ((messagePassages timestamp jobRun taskRuns failures maxOutputBytes).map
        Passage.block) := by
  have hclosing : contextBlock (closingText jobRun) =
      some (Passage.closing (closingText jobRun)).block :=
    contextBlock_closing (by decide) jobRun
  have hcut : contextBlock (cutText jobRun) = some (Passage.closing (cutText jobRun)).block :=
    contextBlock_closing (by decide) jobRun
  unfold messageBlocks messagePassages
  show (headerBlock (headerText jobRun)).bind _ = _
  rw [headerBlock_eq, Option.bind_some, fieldsBlock_eq, Option.bind_eq_bind, Option.bind_some,
    taskSections_eq, Option.bind_eq_bind, Option.bind_some,
    mapM_eq_some fun failure _ => failureBlocks_eq maxOutputBytes failure, Option.bind_eq_bind,
    Option.bind_some]
  show (contextBlock (closingText jobRun)).bind _ = _
  rw [hclosing, Option.bind_some]
  dsimp only
  rw [← allPassages_blocks, List.length_map]
  split
  · show (contextBlock (cutText jobRun)).bind _ = _
    rw [hcut, Option.bind_some, List.map_append, List.map_take]
    rfl
  · rfl

end Flowlite.Message

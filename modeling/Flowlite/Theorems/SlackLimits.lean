import Flowlite.Logic.Passages

/-!
# A message within Slack's limits

Slack refuses a message that exceeds any of its limits. Every block is a passage laid out
and cut to its own limit, there are at most fifty of them, and the last one names the
command that shows what had no room.
-/

namespace Flowlite.Message

open Store Text Slack

/-! ## The limits of a block -/

def Block.WithinLimits : Block → Prop
  | .header text => text.length ≤ 150
  | .section mrkdwn => 1 ≤ mrkdwn.length ∧ mrkdwn.length ≤ 3000
  | .fields mrkdwns => mrkdwns.length ≤ 10 ∧ ∀ mrkdwn ∈ mrkdwns, mrkdwn.length ≤ 2000
  | .context mrkdwn => 1 ≤ mrkdwn.length ∧ mrkdwn.length ≤ 3000

/-- The passage has something to say, and not too many facts. -/
def Passage.Filled : Passage → Prop
  | .header _ | .stream _ _ => True
  | .facts texts => texts.length ≤ 10
  | .prose text | .closing text => text ≠ []

theorem escape_ne_nil {text : List Char} (h : text ≠ []) : escape text ≠ [] := by
  have hle := length_le_escape text
  have hpos : 0 < text.length := List.length_pos_iff.mpr h
  exact List.length_pos_iff.mp (by omega)

/-- Laid out, a passage that has something to say is within the limits of its block. -/
theorem Passage.Filled.withinLimits {p : Passage} (h : p.Filled) : p.block.WithinLimits := by
  have hsection : ∀ text : List Char, text ≠ [] →
      1 ≤ (shortened maxSectionChars (escape text)).length ∧
        (shortened maxSectionChars (escape text)).length ≤ 3000 := by
    intro text hne
    have hpos := List.length_pos_iff.mpr (shortened_ne_nil maxSectionChars
      (escape_ne_nil hne))
    exact ⟨hpos, length_shortened_le (by decide) _⟩
  cases p with
  | header text => exact length_shortened_le (by decide) text
  | facts texts =>
      refine ⟨?_, ?_⟩
      · rw [List.length_map]
        exact h
      · intro mrkdwn hmem
        obtain ⟨text, -, rfl⟩ := List.mem_map.mp hmem
        exact length_shortened_le (by decide) _
  | prose text => exact hsection text h
  | stream name text =>
      refine ⟨?_, length_quotedText_le name text⟩
      unfold quotedText
      rw [List.length_append]
      exact Nat.le_add_left 1 _
  | closing text => exact hsection text h

/-! ## The passages of a message -/

theorem taskPassages_filled (taskRuns : List TaskRun) : ∀ p ∈ taskPassages taskRuns, p.Filled := by
  intro p hp
  unfold taskPassages at hp
  split at hp
  · cases hp
  · obtain ⟨first, rest, hgroups, hne⟩ := taskGroups_cases taskRuns
    rw [hgroups] at hp
    rcases List.mem_cons.mp hp with rfl | hp
    · exact List.append_ne_nil_of_left_ne_nil (List.cons_ne_nil _ _) _
    · obtain ⟨group, hgroup, rfl⟩ := List.mem_map.mp hp
      cases group with
      | nil => exact absurd rfl (hne [] hgroup)
      | cons taskRun group =>
          obtain ⟨s, hs⟩ := taskText_cons taskRun
          show ((taskRun :: group).flatMap taskText).drop 1 ≠ []
          rw [List.flatMap_cons, hs]
          exact List.cons_ne_nil _ _

theorem failurePassages_filled (maxOutputBytes : Nat) (failure : JobRunFailureTask) :
    ∀ p ∈ failurePassages maxOutputBytes failure, p.Filled := by
  intro p hp
  rcases List.mem_cons.mp hp with rfl | hp
  · exact List.append_ne_nil_of_right_ne_nil _ (List.cons_ne_nil _ _)
  · split at hp
    · rcases List.mem_cons.mp hp with rfl | hp
      · trivial
      · rw [List.mem_singleton.mp hp]
        trivial
    · cases hp

theorem allPassages_filled (timestamp : Instant → List Char) (jobRun : JobRun)
    (taskRuns : List TaskRun) (failures : List JobRunFailureTask) (maxOutputBytes : Nat) :
    ∀ p ∈ allPassages timestamp jobRun taskRuns failures maxOutputBytes, p.Filled := by
  have hfacts : ((summaryRows timestamp jobRun).map factText).length ≤ 10 := by
    have hle := (summaryRows_labels timestamp jobRun).length_le
    rw [List.length_map] at hle
    rw [List.length_map]
    exact Nat.le_trans hle (by decide)
  intro p hp
  rcases List.mem_cons.mp hp with rfl | hp
  · trivial
  · rcases List.mem_cons.mp hp with rfl | hp
    · exact hfacts
    · rcases List.mem_append.mp hp with hp | hp
      · rcases List.mem_append.mp hp with hp | hp
        · exact taskPassages_filled taskRuns p hp
        · obtain ⟨failure, -, hp⟩ := List.mem_flatMap.mp hp
          exact failurePassages_filled maxOutputBytes failure p hp
      · rw [List.mem_singleton.mp hp]
        exact List.append_ne_nil_of_right_ne_nil _ (List.cons_ne_nil _ _)

/-- Either everything is said, or the last block says what to do about the rest. -/
theorem messagePassages_cases (timestamp : Instant → List Char) (jobRun : JobRun)
    (taskRuns : List TaskRun) (failures : List JobRunFailureTask) (maxOutputBytes : Nat) :
    (∃ kept, kept.length = 49 ∧
        kept <+: allPassages timestamp jobRun taskRuns failures maxOutputBytes ∧
        messagePassages timestamp jobRun taskRuns failures maxOutputBytes =
          kept ++ [.closing (cutText jobRun)]) ∨
      (allPassages timestamp jobRun taskRuns failures maxOutputBytes).length ≤ 50 ∧
        messagePassages timestamp jobRun taskRuns failures maxOutputBytes =
          allPassages timestamp jobRun taskRuns failures maxOutputBytes := by
  unfold messagePassages
  dsimp only
  split
  · have hlen : maxBlocks < (allPassages timestamp jobRun taskRuns failures
        maxOutputBytes).length := ‹_›
    refine Or.inl ⟨_, ?_, List.take_prefix _ _, rfl⟩
    rw [List.length_take]
    exact Nat.min_eq_left (Nat.le_of_lt (Nat.lt_of_le_of_lt (Nat.sub_le _ 1) hlen))
  · exact Or.inr ⟨Nat.not_lt.mp ‹_›, rfl⟩

theorem messagePassages_filled (timestamp : Instant → List Char) (jobRun : JobRun)
    (taskRuns : List TaskRun) (failures : List JobRunFailureTask) (maxOutputBytes : Nat) :
    ∀ p ∈ messagePassages timestamp jobRun taskRuns failures maxOutputBytes, p.Filled := by
  have hall := allPassages_filled timestamp jobRun taskRuns failures maxOutputBytes
  intro p hp
  obtain ⟨kept, -, hkept, heq⟩ | ⟨-, heq⟩ :=
    messagePassages_cases timestamp jobRun taskRuns failures maxOutputBytes
  · rw [heq] at hp
    rcases List.mem_append.mp hp with hp | hp
    · exact hall p (hkept.subset hp)
    · rw [List.mem_singleton.mp hp]
      exact List.append_ne_nil_of_right_ne_nil _ (List.cons_ne_nil _ _)
  · rw [heq] at hp
    exact hall p hp

/-! ## The last block -/

/-- An id of the store has no more than nineteen digits. -/
theorem length_logsCommand_le {jobRun : JobRun} (hid : jobRun.id < 2 ^ 63) :
    (logsCommand jobRun).length ≤ 41 := by
  have hdigits : (Format.decimal jobRun.id).length ≤ 19 := by
    refine (Nat.length_toDigits_le_iff (by decide) (by decide)).mpr ?_
    exact Nat.lt_of_lt_of_le hid (by decide)
  unfold logsCommand
  rw [List.length_append]
  show 22 + _ ≤ 41
  omega

/-- A line that names the command fits, so nothing of the command is cut. -/
theorem closing_block {before : List Char} {jobRun : JobRun} (hbefore : Plain before)
    (hshort : before.length ≤ 100) (hid : jobRun.id < 2 ^ 63) :
    (Passage.closing (before ++ logsCommand jobRun ++ "`".toList)).block =
      .context (before ++ logsCommand jobRun ++ "`".toList) := by
  have hplain : Plain (before ++ logsCommand jobRun ++ "`".toList) :=
    plain_append (plain_append hbefore (plain_logsCommand jobRun)) (by decide)
  have hcommand := length_logsCommand_le hid
  have hlen : (before ++ logsCommand jobRun ++ "`".toList).length ≤ maxSectionChars := by
    rw [List.length_append, List.length_append]
    show before.length + _ + 1 ≤ 3000
    omega
  rw [Passage.block, escape_of_plain hplain, shortened_of_le hlen]

/-! ## The task sections -/

/-- What the sections of a task list say, one for each group of task runs. -/
def taskSectionTexts : List (List TaskRun) → List (List Char)
  | [] => []
  | first :: rest =>
      ("*Tasks*".toList ++ first.flatMap taskLine) ::
        rest.map fun group => (group.flatMap taskLine).drop 1

theorem length_taskLines (group : List TaskRun) :
    (group.flatMap taskLine).length =
      Order.load (fun taskRun => (taskLine taskRun).length) group := by
  rw [List.length_flatMap]
  rfl

/-- The sections of tasks whose lines fit are not cut, and list each of them once. -/
theorem taskPassages_blocks {taskRuns : List TaskRun}
    (hfits : ∀ taskRun ∈ taskRuns, (taskLine taskRun).length - 1 ≤ maxSectionChars) :
    ∃ groups : List (List TaskRun), groups.flatten = taskRuns ∧
      (taskPassages taskRuns).map Passage.block =
        (taskSectionTexts groups).map Block.section := by
  unfold taskPassages
  split
  · have hnil : taskRuns = [] := List.isEmpty_iff.mp ‹_›
    exact ⟨[], hnil.symm, rfl⟩
  · have hflat : (taskGroups taskRuns).flatten = taskRuns := Order.nextFit_flatten _ _ _ _
    obtain ⟨first, rest, hgroups, hfirst, hrest⟩ := Order.nextFit_fits
      (fun taskRun => (taskLine taskRun).length) maxSectionChars "*Tasks*".toList.length taskRuns
    have hgroups : taskGroups taskRuns = first :: rest := hgroups
    rw [hgroups] at hflat ⊢
    refine ⟨first :: rest, hflat, ?_⟩
    have hheading : escape ("*Tasks*".toList ++ first.flatMap taskText) =
        "*Tasks*".toList ++ first.flatMap taskLine := by
      rw [escape_append, ← flatMap_taskLine, escape_of_plain (by decide)]
    have hfirstLen : ("*Tasks*".toList ++ first.flatMap taskLine).length ≤ maxSectionChars := by
      rw [List.length_append, length_taskLines]
      cases first with
      | nil => decide
      | cons taskRun first => exact hfirst (List.cons_ne_nil _ _)
    have hrestLen : ∀ group ∈ rest,
        ((group.flatMap taskLine).drop 1).length ≤ maxSectionChars := by
      intro group hgroup
      rw [List.length_drop, length_taskLines]
      rcases (hrest group hgroup).2 with hload | ⟨taskRun, rfl⟩
      · omega
      · have hmem : taskRun ∈ taskRuns := by
          rw [← hflat]
          exact List.mem_flatten.mpr
            ⟨[taskRun], List.mem_cons_of_mem first hgroup, List.mem_singleton_self taskRun⟩
        have hline := hfits taskRun hmem
        rw [Order.load_cons, Order.load_nil]
        exact hline
    show Block.section _ :: _ = Block.section _ :: _
    rw [hheading, shortened_of_le hfirstLen, List.map_map, List.map_map]
    refine congrArg (List.cons _) (List.map_congr_left fun group hgroup => ?_)
    show Block.section (shortened maxSectionChars (escape ((group.flatMap taskText).drop 1))) = _
    have hne := (hrest group hgroup).1
    have hdrop : escape ((group.flatMap taskText).drop 1) = (group.flatMap taskLine).drop 1 := by
      cases group with
      | nil => exact absurd rfl hne
      | cons taskRun group =>
          obtain ⟨s, hs⟩ := taskText_cons taskRun
          rw [flatMap_taskLine, List.flatMap_cons, hs]
          rfl
    rw [hdrop, shortened_of_le (hrestLen group hgroup)]
    rfl

/-- A message that is laid out is within every limit of Slack's; its last block names the
command that shows the rest. Unless blocks were cut, or one task takes more than a section
on its own, the task sections list each task run once, in order. -/
theorem slack_message_within_limits (timestamp : Instant → List Char) (jobRun : JobRun)
    (taskRuns : List TaskRun) (failures : List JobRunFailureTask) (maxOutputBytes : Nat)
    (hid : jobRun.id < 2 ^ 63) :
    ∃ blocks, messageBlocks timestamp jobRun taskRuns failures maxOutputBytes = some blocks ∧
      (1 ≤ blocks.length ∧ blocks.length ≤ 50) ∧ (∀ block ∈ blocks, block.WithinLimits) ∧
      (∃ before after,
        blocks.getLast? = some (.context (before ++ logsCommand jobRun ++ after))) ∧
      ((blocks.length = 50 ∧ blocks.getLast? = some (.context (cutText jobRun))) ∨
        (∃ taskRun ∈ taskRuns, maxSectionChars < (taskLine taskRun).length - 1) ∨
        ∃ header facts groups outputs closing, groups.flatten = taskRuns ∧
          failures.mapM (failureBlocks maxOutputBytes) = some outputs ∧
          blocks = header :: facts :: ((taskSectionTexts groups).map Block.section ++
            outputs.flatten ++ [closing])) := by
  have hcut : (Passage.closing (cutText jobRun)).block = .context (cutText jobRun) :=
    closing_block (by decide) (by decide) hid
  have hclosing : (Passage.closing (closingText jobRun)).block = .context (closingText jobRun) :=
    closing_block (by decide) (by decide) hid
  have hwithin : ∀ block ∈ (messagePassages timestamp jobRun taskRuns failures
      maxOutputBytes).map Passage.block, block.WithinLimits := by
    intro block hblock
    obtain ⟨p, hp, rfl⟩ := List.mem_map.mp hblock
    exact (messagePassages_filled _ _ _ _ _ p hp).withinLimits
  refine ⟨_, messageBlocks_eq timestamp jobRun taskRuns failures maxOutputBytes, ?_, hwithin, ?_⟩
  · rw [List.length_map]
    obtain ⟨kept, hlen, -, heq⟩ | ⟨hle, heq⟩ :=
      messagePassages_cases timestamp jobRun taskRuns failures maxOutputBytes
    · rw [heq, List.length_append, hlen]
      show 1 ≤ 49 + 1 ∧ 49 + 1 ≤ 50
      omega
    · rw [heq]
      exact ⟨Nat.succ_pos _, hle⟩
  · obtain ⟨kept, hlen, -, heq⟩ | ⟨hle, heq⟩ :=
      messagePassages_cases timestamp jobRun taskRuns failures maxOutputBytes
    · have hlast : ((messagePassages timestamp jobRun taskRuns failures maxOutputBytes).map
          Passage.block).getLast? = some (.context (cutText jobRun)) := by
        rw [heq, List.map_append, List.map_singleton, List.getLast?_append, hcut]
        rfl
      refine ⟨⟨_, "`".toList, hlast⟩, Or.inl ⟨?_, hlast⟩⟩
      rw [heq, List.length_map, List.length_append, hlen]
      rfl
    · rw [heq, allPassages_blocks, hclosing]
      refine ⟨⟨"Every task and attempt: `".toList, "`".toList, ?_⟩, Or.inr ?_⟩
      · rw [← List.cons_append, ← List.cons_append, List.getLast?_append]
        rfl
      · by_cases hfits : ∀ taskRun ∈ taskRuns, (taskLine taskRun).length - 1 ≤ maxSectionChars
        · obtain ⟨groups, hflat, hsections⟩ := taskPassages_blocks hfits
          rw [hsections]
          exact Or.inr ⟨_, _, groups, _, _, hflat,
            mapM_eq_some fun failure _ => failureBlocks_eq maxOutputBytes failure, rfl⟩
        · left
          by_contra hnone
          refine hfits fun taskRun hmem => Nat.not_lt.mp fun hlong => ?_
          exact hnone ⟨taskRun, hmem, hlong⟩

/-! ## A run of one task -/

def nightlyRun : JobRun where
  id := 42
  jobId := "nightly-sync"
  jobName := "Nightly Sync"
  jobDescription := ""
  parameters := []
  createdAt := 0
  scheduledAt := 0
  scheduleId := none
  parentTaskRunAttemptId := none
  startedAt := some 0
  finishedAt := some 60000
  status := .failed

def loadTask : TaskRun where
  id := 1
  jobRunId := 42
  jobId := "nightly-sync"
  taskId := "load"
  command := "load"
  stdin := ""
  dependsOn := []
  timeout := 0
  idleTimeout := 0
  maxRetries := 0
  retryDelay := 0
  env := []
  secretEnv := []
  workingDir := ""
  limits := []
  createdAt := 0
  startedAt := none
  finishedAt := none
  status := .failed

/-- The attempt of a task that failed once it had written `stdout`. -/
def failedTask (taskRun : TaskRun) (stdout : List Char) : JobRunFailureTask where
  taskRun
  attempt := some
    { id := taskRun.id, taskRunId := taskRun.id, jobRunId := taskRun.jobRunId
      jobId := taskRun.jobId, taskId := taskRun.taskId, createdAt := 0, startedAt := some 0
      finishedAt := some 60000, attempt := 1, status := .failed, processGroupId := none
      output := "", waitingSince := none }
  streams := { stdout := String.ofList stdout, stderr := "" }

/-- As many failed tasks as take more blocks than a message may have. -/
def loadTasks : List TaskRun :=
  (List.range 16).map fun n => { loadTask with id := n + 1, taskId := s!"load-{n}" }

/-- A message with more to say is cut at fifty blocks, and names the command that shows the
rest. -/
theorem slack_message_within_limits_cut :
    ∃ blocks, messageBlocks (fun _ => []) nightlyRun loadTasks
        (loadTasks.map fun taskRun => failedTask taskRun "no rows".toList) 4096 = some blocks ∧
      (blocks.length = 50 ∧ blocks.getLast? = some (.context (cutText nightlyRun))) ∧
      ∀ block ∈ blocks, block.WithinLimits := by
  have hcut : (messageBlocks (fun _ => []) nightlyRun loadTasks
      (loadTasks.map fun taskRun => failedTask taskRun "no rows".toList) 4096).any (fun blocks =>
        decide (blocks.length = 50 ∧ blocks.getLast? = some (.context (cutText nightlyRun)))) =
      true := by
    decide +kernel
  obtain ⟨blocks, heq, -, hwithin, -⟩ := slack_message_within_limits (fun _ => []) nightlyRun
    loadTasks (loadTasks.map fun taskRun => failedTask taskRun "no rows".toList) 4096 (by decide)
  rw [heq] at hcut
  exact ⟨blocks, heq, of_decide_eq_true hcut, hwithin⟩

end Flowlite.Message

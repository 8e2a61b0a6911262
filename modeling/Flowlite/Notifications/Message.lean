import Mathlib.Data.List.DropRight
import Flowlite.Notifications.Slack
import Flowlite.Services.TaskRuns
import Flowlite.Text.Boundaries

/-!
# The message of a finished job run

`messageBlocks` is what Slack is handed: a header, the facts of the run, its tasks, the
output of those that did not succeed, and the command that shows the rest. Slack refuses a
message that exceeds any of its limits, so whatever is too long is cut here.

`none` is where the source would stop with a panic: a slice that is not on a character
boundary, and a subtraction below zero.
-/

namespace Flowlite

open Store Text

/-! ## Words -/

namespace Format

def decimal (n : Nat) : List Char := Nat.toDigits 10 n

def twoDigits (n : Nat) : List Char := if n < 10 then '0' :: decimal n else decimal n

/-- How long something took, in the two largest units it has. -/
def duration (seconds : Int) : List Char :=
  let seconds := seconds.toNat
  if seconds < 60 then decimal seconds ++ "s".toList
  else
    let minutes := seconds / 60
    if minutes < 60 then
      decimal minutes ++ "m ".toList ++ twoDigits (seconds % 60) ++ "s".toList
    else decimal (minutes / 60) ++ "h ".toList ++ twoDigits (minutes % 60) ++ "m".toList

def jobRunWord : JobRunStatus → String
  | .scheduled => "scheduled"
  | .queued => "queued"
  | .running => "running"
  | .succeeded => "succeeded"
  | .failed => "failed"
  | .skipped => "skipped"
  | .aborted => "aborted"
  | .timedOut => "timed out"
  | .invalid => "invalid"
  | .deleted => "deleted"

def taskRunWord : TaskRunStatus → String
  | .planned => "planned"
  | .waiting => "waiting"
  | .running => "running"
  | .succeeded => "succeeded"
  | .failed => "failed"
  | .skipped => "skipped"
  | .aborted => "aborted"
  | .timedOut => "timed out"
  | .invalid => "invalid"

end Format

/-! ## Cutting -/

/-- A character that the trims take off the ends of a text. -/
def isWhiteSpace (c : Char) : Bool :=
  (0x9 ≤ c.toNat && c.toNat ≤ 0xd) || c.toNat == 0x20 || c.toNat == 0x85 || c.toNat == 0xa0 ||
    c.toNat == 0x1680 || (0x2000 ≤ c.toNat && c.toNat ≤ 0x200a) || c.toNat == 0x2028 ||
    c.toNat == 0x2029 || c.toNat == 0x202f || c.toNat == 0x205f || c.toNat == 0x3000

def trimStart (text : List Char) : List Char := text.dropWhile isWhiteSpace

def trimEnd (text : List Char) : List Char := text.rdropWhile isWhiteSpace

/-- A subtraction of lengths, which has no answer below zero. -/
def checkedSub (a b : Nat) : Option Nat := if b ≤ a then some (a - b) else none

/-- The text from byte `cut` on, which has to be where a character starts. -/
def sliceFrom (text : List Char) (cut : Nat) : Option (List Char) :=
  if isCharBoundary text cut then some (splitAtByte text cut).2 else none

/-- The first boundary from `cut` on, looked for one byte at a time. -/
def boundaryFrom (text : List Char) : Nat → Nat → Nat
  | 0, cut => cut
  | left + 1, cut =>
      if cut < byteLen text ∧ isCharBoundary text cut = false then boundaryFrom text left (cut + 1)
      else cut

namespace Message

/-! ## What the message says -/

/-- What an attempt printed. -/
structure TaskRunAttemptOutputStreams where
  stdout : String
  stderr : String

/-- One task run that did not succeed, with the attempt that decided it and what that
attempt printed. -/
structure JobRunFailureTask where
  taskRun : TaskRun
  attempt : Option TaskRunAttempt
  streams : TaskRunAttemptOutputStreams

def logsCommand (jobRun : JobRun) : List Char :=
  "flowlite job-run logs ".toList ++ Format.decimal jobRun.id

/-- The facts a finished run's summary shows, in the order it shows them. How an instant
is written depends on where the server runs. -/
def summaryRows (timestamp : Instant → List Char) (jobRun : JobRun) :
    List (String × List Char) :=
  [("Job", jobRun.jobId.toList), ("Run", Format.decimal jobRun.id),
    ("Status", (Format.jobRunWord jobRun.status).toList),
    ("Scheduled", timestamp jobRun.scheduledAt)] ++
  (match jobRun.startedAt with
    | some startedAt => [("Started", timestamp startedAt)]
    | none => []) ++
  (match jobRun.finishedAt with
    | some finishedAt => [("Finished", timestamp finishedAt)]
    | none => []) ++
  (match jobRun.startedAt, jobRun.finishedAt with
    | some startedAt, some finishedAt =>
        [("Duration", Format.duration ((finishedAt - startedAt).tdiv 1000))]
    | _, _ => []) ++
  if jobRun.parameters.isEmpty then []
  else
    [("Parameters", List.intercalate " ".toList
      (jobRun.parameters.map fun parameter =>
        parameter.1.toList ++ "=".toList ++ parameter.2.toList))]

def failureTitle (failure : JobRunFailureTask) : List Char :=
  match failure.attempt with
  | some attempt =>
      "Output of ".toList ++ failure.taskRun.taskId.toList ++ ", attempt ".toList ++
        Format.decimal attempt.attempt ++ " of ".toList ++
        Format.decimal (TaskRunMonitor.addU32 failure.taskRun.maxRetries 1)
  | none =>
      failure.taskRun.taskId.toList ++ " ".toList ++
        (Format.taskRunWord failure.taskRun.status).toList ++ ", with no attempt".toList

/-- The end of a stream, which is where a command says why it stopped. -/
def streamTail (stream : List Char) (maxOutputBytes : Nat) : Option (List Char) :=
  if stream.isEmpty then some "(nothing written)\n".toList
  else
    let stream := trimEnd stream
    if byteLen stream ≤ maxOutputBytes then some (stream ++ "\n".toList)
    else do
      let start ← checkedSub (byteLen stream) maxOutputBytes
      let cut := boundaryFrom stream (byteLen stream) start
      let kept ← checkedSub (byteLen stream) cut
      let tail ← sliceFrom stream cut
      some ("(earlier output cut, last ".toList ++ Format.decimal kept ++
        " bytes follow)\n".toList ++ tail ++ "\n".toList)

def jobRunEmoji : JobRunStatus → String
  | .scheduled => ":clock3:"
  | .queued => ":hourglass_flowing_sand:"
  | .running => ":arrows_counterclockwise:"
  | .succeeded => ":white_check_mark:"
  | .failed => ":x:"
  | .skipped => ":heavy_minus_sign:"
  | .aborted => ":octagonal_sign:"
  | .timedOut => ":alarm_clock:"
  | .invalid => ":warning:"
  | .deleted => ":wastebasket:"

def taskRunEmoji : TaskRunStatus → String
  | .planned => ":clock3:"
  | .waiting => ":hourglass_flowing_sand:"
  | .running => ":arrows_counterclockwise:"
  | .succeeded => ":white_check_mark:"
  | .failed => ":x:"
  | .skipped => ":heavy_minus_sign:"
  | .aborted => ":octagonal_sign:"
  | .timedOut => ":alarm_clock:"
  | .invalid => ":warning:"

/-! ## The blocks -/

def maxBlocks : Nat := 50

def maxHeaderChars : Nat := 150

def maxSectionChars : Nat := 3000

def maxFieldChars : Nat := 2000

/-- A block of a Slack message. The text of a header is plain, all the others are markup. -/
inductive Block
  | header (text : List Char)
  | section (mrkdwn : List Char)
  | fields (mrkdwns : List (List Char))
  | context (mrkdwn : List Char)
  deriving DecidableEq

def truncated (text : List Char) (maxChars : Nat) : Option (List Char) :=
  if text.length ≤ maxChars then some text
  else do
    let keep ← checkedSub maxChars 1
    some (text.take keep ++ "…".toList)

def headerBlock (text : List Char) : Option Block := do
  some (.header (← truncated text maxHeaderChars))

def sectionBlock (mrkdwn : List Char) : Option Block := do
  some (.section (← truncated mrkdwn maxSectionChars))

def fieldsBlock (fields : List (List Char)) : Option Block := do
  some (.fields (← fields.mapM fun field => truncated field maxFieldChars))

def contextBlock (mrkdwn : List Char) : Option Block := do
  some (.context (← truncated mrkdwn maxSectionChars))

/-- A stream under its own label, in a code block, cut to fit around the fence rather than
after it. -/
def fenced (label : String) (stream : List Char) : Option (List Char) := do
  let stream := Slack.fenceSafe (Slack.escape (trimEnd stream))
  let wrapper := "*".toList ++ label.toList ++ "*\n```\n\n```".toList
  let room ← checkedSub maxSectionChars wrapper.length
  some ("*".toList ++ label.toList ++ "*\n```\n".toList ++ (← truncated stream room) ++
    "\n```".toList)

def taskLine (taskRun : TaskRun) : List Char :=
  "\n".toList ++ (taskRunEmoji taskRun.status).toList ++ " `".toList ++
    Slack.escape taskRun.taskId.toList ++ "` — ".toList ++
    (Format.taskRunWord taskRun.status).toList

/-- The lines that are left, with what the current section says already. -/
def taskSectionsFrom (current : List Char) : List TaskRun → Option (List Block)
  | [] => do some [← sectionBlock (trimStart current)]
  | taskRun :: rest =>
      let line := taskLine taskRun
      if current.length + line.length > maxSectionChars then do
        let block ← sectionBlock (trimStart current)
        some (block :: (← taskSectionsFrom line rest))
      else taskSectionsFrom (current ++ line) rest

/-- The task list, split across as many sections as its length needs. -/
def taskSections (taskRuns : List TaskRun) : Option (List Block) :=
  if taskRuns.isEmpty then some [] else taskSectionsFrom "*Tasks*".toList taskRuns

def failureBlocks (maxOutputBytes : Nat) (failure : JobRunFailureTask) :
    Option (List Block) := do
  let title ← sectionBlock ("*".toList ++ Slack.escape (failureTitle failure) ++ "*".toList)
  if failure.attempt.isSome then
    let stdout ← streamTail failure.streams.stdout.toList maxOutputBytes
    let stderr ← streamTail failure.streams.stderr.toList maxOutputBytes
    some [title, ← sectionBlock (← fenced "stdout" stdout),
      ← sectionBlock (← fenced "stderr" stderr)]
  else some [title]

def messageBlocks (timestamp : Instant → List Char) (jobRun : JobRun)
    (taskRuns : List TaskRun) (failures : List JobRunFailureTask) (maxOutputBytes : Nat) :
    Option (List Block) := do
  let header ← headerBlock ((jobRunEmoji jobRun.status).toList ++ " ".toList ++
    jobRun.jobName.toList ++ " run ".toList ++ Format.decimal jobRun.id ++ " ".toList ++
    (Format.jobRunWord jobRun.status).toList)
  let fields ← fieldsBlock ((summaryRows timestamp jobRun).map fun row =>
    "*".toList ++ row.1.toList ++ "*\n".toList ++ Slack.escape row.2)
  let tasks ← taskSections taskRuns
  let outputs ← failures.mapM (failureBlocks maxOutputBytes)
  let closing ← contextBlock
    ("Every task and attempt: `".toList ++ logsCommand jobRun ++ "`".toList)
  let blocks := header :: fields :: (tasks ++ outputs.flatten ++ [closing])
  if blocks.length > maxBlocks then
    let keep ← checkedSub maxBlocks 1
    let last ← contextBlock ("Too long for one message. Everything it left out: `".toList ++
      logsCommand jobRun ++ "`".toList)
    some (blocks.take keep ++ [last])
  else some blocks

end Message

end Flowlite

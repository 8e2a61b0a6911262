import Flowlite.Store.Rows

/-!
# Commands in flight

A command flowlite has spawned: the `sh` it started, the process group that `sh`
leads, the two readers on its pipes and the channel they deliver chunks into.
None of this is in the database. A `Process` outlives the serve process that
spawned it; the `TaskRunAttemptChild` through which flowlite reaches it does not.
-/

namespace Flowlite.Host

open Flowlite.Store

/-- How the `sh` of a command ended. -/
inductive ExitStatus
  | code (n : Nat)
  | signaled
  deriving DecidableEq

def ExitStatus.success : ExitStatus → Bool
  | .code n => n = 0
  | .signaled => false

/-- One coalescible piece of one stream. -/
structure TaskRunAttemptOutputChunk where
  stream : TaskRunAttemptOutputStream
  content : String
  deriving DecidableEq

/-- A reader reads its pipe to the end, or is aborted. -/
inductive ReaderState
  | reading
  | eof
  | aborted
  deriving DecidableEq

/-- Where the one `TaskRunAttemptChild` of a process is: still with the pass that
spawned it, in `TaskRunAttemptChildren`, with the pass that took it out of there,
or gone with the serve process that had it. -/
inductive Holder
  | dispatcher
  | map
  | monitor
  | nobody
  deriving DecidableEq

structure Process where
  id : Nat
  taskRunAttemptId : Nat
  /-- The pid of the `sh`, and the id of the group it leads. -/
  processGroupId : Nat
  /-- How the `sh` ended, `none` while it runs. -/
  exited : Option ExitStatus
  /-- Some process of the group is still there, the `sh` or one it left behind. -/
  groupAlive : Bool
  stdout : ReaderState
  stderr : ReaderState
  /-- Delivered by the readers and not yet received. -/
  chunks : List TaskRunAttemptOutputChunk
  /-- Everything the readers have delivered, in order. Auxiliary. -/
  delivered : List TaskRunAttemptOutputChunk
  lastOutputAt : Instant
  /-- Auxiliary: the code keeps no such record, it just has the value somewhere. -/
  holder : Holder

instance : Keyed Process := ⟨Process.id⟩

@[simp] theorem key_process (p : Process) : Keyed.key p = p.id := rfl

/-- Both readers are gone, so the channel is closed. -/
def Process.closed (p : Process) : Bool :=
  p.stdout ≠ .reading && p.stderr ≠ .reading

/-- The state of the reader of one stream. -/
def Process.reader (p : Process) : TaskRunAttemptOutputStream → ReaderState
  | .stdout => p.stdout
  | .stderr => p.stderr

/-- What the chunks of a list say on one stream. -/
def streamContent (stream : TaskRunAttemptOutputStream) :
    List TaskRunAttemptOutputChunk → String
  | [] => ""
  | c :: rest => (if c.stream = stream then c.content else "") ++ streamContent stream rest

/-- A process as it is spawned: nothing read, nothing delivered. -/
def Process.spawned (taskRunAttemptId processGroupId : Nat) (startedAt : Instant) :
    Draft Process where
  row id :=
    { id, taskRunAttemptId, processGroupId, exited := none, groupAlive := true
      stdout := .reading, stderr := .reading, chunks := [], delivered := []
      lastOutputAt := startedAt, holder := .dispatcher }
  key_row _ := rfl

namespace Process

/-- The `sh` ends by itself. -/
def exit (status : ExitStatus) : Patch Process where
  apply p := { p with exited := some (p.exited.getD status) }
  key_apply _ := rfl

/-- The last process of the group ends by itself. -/
def groupExit : Patch Process where
  apply p := { p with groupAlive := false }
  key_apply _ := rfl

/-- SIGKILL reaches every process of the group. -/
def kill : Patch Process where
  apply p := { p with exited := some (p.exited.getD .signaled), groupAlive := false }
  key_apply _ := rfl

/-- A reader delivers a chunk. -/
def deliver (chunk : TaskRunAttemptOutputChunk) : Patch Process where
  apply p := { p with chunks := p.chunks ++ [chunk], delivered := p.delivered ++ [chunk] }
  key_apply _ := rfl

/-- A reader has read something. -/
def touch (at' : Instant) : Patch Process where
  apply p := { p with lastOutputAt := at' }
  key_apply _ := rfl

/-- A reader reaches the end of its pipe. -/
def reachEof (stream : TaskRunAttemptOutputStream) : Patch Process where
  apply p :=
    match stream with
    | .stdout => { p with stdout := .eof }
    | .stderr => { p with stderr := .eof }
  key_apply _ := by cases stream <;> rfl

/-- Stops the readers that have not ended. -/
def abortReaders : Patch Process where
  apply p :=
    { p with
      stdout := if p.stdout = .reading then .aborted else p.stdout
      stderr := if p.stderr = .reading then .aborted else p.stderr }
  key_apply _ := rfl

/-- Every chunk delivered so far is received. -/
def drain : Patch Process where
  apply p := { p with chunks := [] }
  key_apply _ := rfl

/-- The child handle moves. -/
def heldBy (holder : Holder) : Patch Process where
  apply p := { p with holder }
  key_apply _ := rfl

/-- The serve process is gone, and with it the readers and whoever had the child. -/
def orphan : Patch Process where
  apply p := { abortReaders.apply p with chunks := [], holder := .nobody }
  key_apply _ := rfl

end Process

/-- An attempt the monitor has asked to exit: the status it will settle as
however it then exits, and when whatever is left of its group gets SIGKILL. -/
structure Termination where
  status : TaskRunAttemptStatus
  killAt : Instant

/-- The child process of one task run attempt, kept alive between polls. -/
structure TaskRunAttemptChild where
  /-- The process the handle, the pipes and the channel belong to. -/
  process : Nat
  timesOutAt : Instant
  /-- `none` for no limit. -/
  idleTimeout : Option Instant
  terminating : Option Termination

/-- Whether the command has gone its whole idle timeout without writing anything. -/
def TaskRunAttemptChild.isIdle (child : TaskRunAttemptChild) (lastOutputAt now : Instant) : Bool :=
  match child.idleTimeout with
  | none => false
  | some idleTimeout => now - lastOutputAt ≥ idleTimeout

end Flowlite.Host

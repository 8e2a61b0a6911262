import Flowlite.Store.Writes
import Flowlite.Host.Process
import Flowlite.Threads.Machine

/-!
# The world the services act on

The disk database, the processes and files of the machine, and the memory of the
one serve process; and the operations the code performs on them, one statement,
system call or map access at a time. Everything between two operations may be
interleaved with operations of other threads and other processes.

A statement or a system call may fail. It then changes nothing. What a clock
reads, which pid a spawn gets and how a failed call words its error are not the
code's to choose, and come with the operation as its `Choice`.
-/

namespace Flowlite.Host

open Flowlite.Store Flowlite.Threads

/-! ## Configuration -/

/-- flowlite.toml, or its defaults. -/
structure AppConfig where
  dataDir : String
  maxTaskOutputBytes : Nat
  /-- The most attempts that may be running at once, `0` for no limit. -/
  maxRunningAttempts : Nat
  killGraceSeconds : Nat
  concurrencyLimits : BTreeMap String Nat
  secrets : BTreeMap String String
  /-- `[job_defaults] keep_runs`. -/
  keepRuns : Nat
  /-- `[retention] keep_runs_total`. -/
  keepRunsTotal : Nat
  /-- `[retention] max_deletes_per_pass`. -/
  maxDeletesPerPass : Nat

/-- What a process has loaded: flowlite.toml, and the YAML in its `mem` schema. -/
structure Config where
  app : AppConfig
  jobs : List Job
  tasks : List Task
  schedules : List Schedule
  scheduleJobs : List ScheduleJob

/-! ## Threads -/

/-- The pollers of the serve process, and the recovery that runs before them. -/
inductive Service
  | recovery
  | scheduler
  | jobRunReleaser
  | jobRunDispatcher
  | jobRunMonitor
  | taskRunDispatcher
  | taskRunMonitor
  | taskRunAttemptDispatcher
  | taskRunAttemptMonitor
  | notifications
  | retention
  deriving DecidableEq

/-- A service of the serve process, or any other caller: the dashboard, the MCP
server, a `flowlite` command at a terminal or inside a task. -/
inductive Tid
  | service (s : Service)
  | client (n : Nat)
  deriving DecidableEq

/-! ## Operations -/

/-- An error's text. -/
structure Err where
  text : String

/-- What a notification says; how a channel renders it is the channel's. -/
structure JobRunMessage where
  jobRun : JobRun
  taskRuns : List TaskRun
  failures : List (TaskRun × Option TaskRunAttempt × List TaskRunAttemptOutput)

/-- The command line, environment and directory of a spawn. -/
structure Command where
  script : String
  env : BTreeMap String String
  stdin : String
  workingDir : String

inductive Op
  | select (q : Query)
  | write (w : Write)
  /-- A `SELECT` on the `mem` schema. -/
  | selectMem
  /-- `Utc::now`. -/
  | now
  | systemBootTime
  /-- `std::fs::canonicalize` of the data directory. -/
  | canonicalize (path : String)
  | createDirAll (path : String)
  | removeDirAll (path : String)
  | pathExists (path : String)
  /-- A file's length, `none` where there is no such file. -/
  | metadata (path : String)
  | readFile (path : String)
  | writeFile (path content : String)
  | spawn (taskRunAttemptId : Nat) (command : Command) (startedAt : Instant)
  | childrenInsert (taskRunAttemptId : Nat) (child : TaskRunAttemptChild)
  | childrenRemove (taskRunAttemptId : Nat)
  | tryWait (process : Nat)
  | lastOutputAt (process : Nat)
  | processGroupIsGone (process : Nat)
  | terminateProcessGroup (process : Nat)
  | killProcessGroup (process : Nat)
  /-- `killpg` on a group id read off a row. -/
  | killOrphan (processGroupId : Nat)
  /-- `try_recv` until it answers `Empty`. -/
  | tryRecvAll (process : Nat)
  /-- `recv` until the channel closes, or the EOF timeout elapses. -/
  | recvUntilClosed (process : Nat)
  | abortReaders (process : Nat)
  /-- `notification` is no part of the call: it records, for the history of the
  world, the row the message is for. -/
  | sendNotification (notification : JobRunNotification) (channel : NotificationChannel)
      (recipients : List String) (message : JobRunMessage)
  /-- The pollers are started. -/
  | startServices

/-- What the outside decides about one operation. -/
structure Choice where
  fails : Bool := false
  /-- What a failed call says. -/
  text : String := ""
  now : Instant := 0
  bootTime : Option Instant := none
  path : String := ""
  pid : Nat := 0

abbrev Op.Ret : Op → Type
  | .select q => q.Answer
  | .write w => w.Answer
  | .now | .lastOutputAt _ => Instant
  | .systemBootTime => Option Instant
  | .canonicalize _ => String
  | .pathExists _ | .processGroupIsGone _ | .killOrphan _ => Bool
  | .metadata _ => Option Nat
  | .readFile _ => ByteArray
  -- the process, and the id of the group it leads
  | .spawn _ _ _ => Nat × Nat
  | .childrenRemove _ => Option TaskRunAttemptChild
  | .tryWait _ => Option ExitStatus
  | .tryRecvAll _ => List TaskRunAttemptOutputChunk
  -- what was received, and whether the channel closed
  | .recvUntilClosed _ => List TaskRunAttemptOutputChunk × Bool
  | .selectMem | .createDirAll _ | .removeDirAll _ | .writeFile _ _ | .childrenInsert _ _
  | .terminateProcessGroup _ | .killProcessGroup _ | .abortReaders _
  | .sendNotification _ _ _ _ | .startServices => Unit

/-- The operations of flowlite. -/
abbrev flowliteOps : Signature where
  Op := Op
  Ret := Op.Ret
  Err := Err

abbrev Result (o : Op) : Type := Except Err o.Ret

/-! ## The world -/

/-- The serve process; `ServeLock` lets one of them run at a time. -/
inductive Serve
  | down
  /-- Started with a configuration, its recovery not yet over. -/
  | starting (config : Config)
  | up (config : Config)

/-- One operation that was performed, by whom and with what result. -/
structure Event where
  thread : Tid
  op : Op
  result : Result op

structure World where
  db : Database
  procs : Table Process
  /-- `TaskRunAttemptChildren`, by task run attempt id. -/
  children : Nat → Option TaskRunAttemptChild
  files : String → Option ByteArray
  dirs : String → Bool
  serve : Serve
  /-- The rows of the job runs the retention service has deleted. Auxiliary. -/
  removed : List JobRun
  /-- Every operation performed so far, the latest first. Auxiliary. -/
  log : List Event

/-- A data directory nobody has used yet. -/
def World.fresh : World where
  db := .empty
  procs := .empty
  children := fun _ => none
  files := fun _ => none
  dirs := fun _ => false
  serve := .down
  removed := []
  log := []

namespace World

variable (w : World)

/-- Change one process. -/
def updateProcess (process : Nat) (f : Patch Process) : World :=
  { w with procs := w.procs.update (fun p => p.id = process) f }

/-- SIGKILL to every process of a group. -/
def signalGroup (processGroupId : Nat) : World :=
  { w with
    procs := w.procs.update (fun p => p.groupAlive && p.processGroupId = processGroupId)
      Process.kill }

/-- `kill_process_group`: the group, and then the child itself. -/
def killProcessGroup (process : Nat) : World :=
  match w.procs.find process with
  | none => w
  | some p => (w.signalGroup p.processGroupId).updateProcess process (Process.exit .signaled)

/-- The holder of the child of `process`, if there is such a process. -/
def hold (process : Nat) (holder : Holder) : World :=
  w.updateProcess process (Process.heldBy holder)

/-- What a write does to the world: the database, and the record of what it
removed for good. -/
def commit (db : Database) : Write → World
  | .deleteJobRunsWithChildren filter =>
      { w with
        db
        removed := w.removed ++
          w.db.jobRuns.rows.filter fun r => (w.db.deletedBy filter).contains r.id }
  | _ => { w with db }

/-- `perform` without its log entry: `none` for a choice that cannot be. -/
def outcome (ch : Choice) (w : World) : (o : Op) → Option (Result o × World)
  | .select q => some (if ch.fails then (.error ⟨ch.text⟩, w) else (.ok (q.run w.db), w))
  | .write q =>
      match ch.fails, q.run w.db ch.now with
      | false, some (a, db) => some (.ok a, w.commit db q)
      | _, _ => some (.error ⟨ch.text⟩, w)
  | .selectMem => some (if ch.fails then (.error ⟨ch.text⟩, w) else (.ok (), w))
  | .now => some (.ok ch.now, w)
  | .systemBootTime => some (.ok ch.bootTime, w)
  | .canonicalize _ => some (if ch.fails then (.error ⟨ch.text⟩, w) else (.ok ch.path, w))
  | .createDirAll path =>
      some (if ch.fails then (.error ⟨ch.text⟩, w) else
        (.ok (), { w with dirs := Function.update w.dirs path true }))
  | .removeDirAll path =>
      some (if ch.fails then (.error ⟨ch.text⟩, w) else
        (.ok (), { w with
          files := fun f => if f.startsWith (path ++ "/") then none else w.files f
          dirs := fun d => d ≠ path && !d.startsWith (path ++ "/") && w.dirs d }))
  | .pathExists path => some (.ok ((w.files path).isSome || w.dirs path), w)
  | .metadata path =>
      some (if ch.fails then (.error ⟨ch.text⟩, w) else (.ok ((w.files path).map (·.size)), w))
  | .readFile path =>
      match ch.fails, w.files path with
      | false, some bytes => some (.ok bytes, w)
      | _, _ => some (.error ⟨ch.text⟩, w)
  | .writeFile path content =>
      some (if ch.fails then (.error ⟨ch.text⟩, w) else
        (.ok (), { w with files := Function.update w.files path (some content.toUTF8) }))
  | .spawn taskRunAttemptId _ startedAt =>
      if ch.fails then some (.error ⟨ch.text⟩, w)
      else if w.procs.rows.any fun p => p.groupAlive && p.processGroupId = ch.pid then none
      else some (.ok (w.procs.next, ch.pid),
        { w with procs := w.procs.insert (Process.spawned taskRunAttemptId ch.pid startedAt) })
  | .childrenInsert taskRunAttemptId child =>
      some (.ok (), { w.hold child.process .map with
        children := Function.update w.children taskRunAttemptId (some child) })
  | .childrenRemove taskRunAttemptId =>
      some (.ok (w.children taskRunAttemptId),
        match w.children taskRunAttemptId with
        | none => w
        | some child => { w.hold child.process .monitor with
            children := Function.update w.children taskRunAttemptId none })
  | .tryWait process =>
      some (if ch.fails then (.error ⟨ch.text⟩, w) else
        (.ok ((w.procs.find process).bind (·.exited)), w))
  | .lastOutputAt process =>
      (w.procs.find process).map fun p => (.ok p.lastOutputAt, w)
  | .processGroupIsGone process =>
      (w.procs.find process).map fun p => (.ok (p.exited.isSome && !p.groupAlive), w)
  | .terminateProcessGroup _ => some (.ok (), w)
  | .killProcessGroup process => some (.ok (), w.killProcessGroup process)
  | .killOrphan processGroupId =>
      some (.ok (w.procs.rows.any fun p => p.groupAlive && p.processGroupId = processGroupId),
        w.signalGroup processGroupId)
  | .tryRecvAll process =>
      (w.procs.find process).map fun p =>
        (.ok p.chunks, w.updateProcess process Process.drain)
  | .recvUntilClosed process =>
      (w.procs.find process).bind fun p =>
        -- `ch.fails` is the timeout; without it the channel has to be closed by now
        if ch.fails then some (.ok (p.chunks, false), w.updateProcess process Process.drain)
        else if p.closed then some (.ok (p.chunks, true), w.updateProcess process Process.drain)
        else none
  | .abortReaders process => some (.ok (), w.updateProcess process Process.abortReaders)
  | .sendNotification _ _ _ _ =>
      some (if ch.fails then (.error ⟨ch.text⟩, w) else (.ok (), w))
  | .startServices =>
      match w.serve with
      | .starting config => some (.ok (), { w with serve := .up config })
      | _ => none

/-- One operation of thread `t`. -/
def perform (t : Tid) (o : Op) (ch : Choice) (w : World) : Option (Result o × World) :=
  (w.outcome ch o).map fun (r, w') => (r, { w' with log := ⟨t, o, r⟩ :: w'.log })

end World

/-! ## What happens outside the threads -/

inductive External
  /-- `flowlite serve` takes the lock. -/
  | boot (config : Config)
  /-- The serve process ends, by a crash or a shutdown. -/
  | crash
  /-- A process of the outside ends where it stands. -/
  | endClient (n : Nat)
  | exit (process : Nat) (status : ExitStatus)
  | groupExit (process : Nat)
  | deliver (process : Nat) (chunk : TaskRunAttemptOutputChunk)
  | touch (process : Nat) (at' : Instant)
  | eof (process : Nat) (stream : TaskRunAttemptOutputStream)
  | writeFile (path : String) (bytes : ByteArray)

namespace World

/-- No thread. -/
def nobody : Tid → Bool := fun _ => false

/-- The threads of the serve process. -/
def ofServe : Tid → Bool
  | .service _ => true
  | .client _ => false

/-- An outside event: the world after it, and the threads it ends. -/
def external (e : External) (w : World) : Option (World × (Tid → Bool)) :=
  match e with
  | .boot config =>
      match w.serve with
      | .down => some ({ w with serve := .starting config }, nobody)
      | _ => none
  | .crash =>
      match w.serve with
      | .down => none
      | _ => some ({ w with
          serve := .down
          children := fun _ => none
          procs := w.procs.update (fun _ => true) Process.orphan }, ofServe)
  | .endClient n => some (w, fun t => t = .client n)
  | .exit process status =>
      some (w.updateProcess process (Process.exit status), nobody)
  | .groupExit process =>
      (w.procs.find process).bind fun p =>
        if p.exited.isSome then some (w.updateProcess process Process.groupExit, nobody) else none
  | .deliver process chunk =>
      (w.procs.find process).bind fun p =>
        if p.reader chunk.stream = .reading then
          some (w.updateProcess process (Process.deliver chunk), nobody)
        else none
  | .touch process at' => some (w.updateProcess process (Process.touch at'), nobody)
  | .eof process stream =>
      (w.procs.find process).bind fun p =>
        if p.reader stream = .reading then
          some (w.updateProcess process (Process.reachEof stream), nobody)
        else none
  | .writeFile path bytes =>
      some ({ w with files := Function.update w.files path (some bytes) }, nobody)

end World

end Flowlite.Host

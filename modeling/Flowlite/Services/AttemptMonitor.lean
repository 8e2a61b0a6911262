import Flowlite.Services.AttemptDispatcher

/-!
# TaskRunAttemptMonitor

Takes the child of a running attempt out of the map, and owns it from there on:
records what it printed, and settles the attempt once it has exited, run past a
limit or been stopped. An attempt the map holds no child for is settled Invalid.
-/

namespace Flowlite

open Store Host Threads Crud

namespace TaskRunAttemptMonitor

/-! ## Output -/

def outputInput (attempt : TaskRunAttempt) (stream : TaskRunAttemptOutputStream)
    (content : String) : InsertTaskRunAttemptOutputInput :=
  { taskRunAttemptId := attempt.id, taskRunId := attempt.taskRunId, jobRunId := attempt.jobRunId
    jobId := attempt.jobId, taskId := attempt.taskId, stream, content }

/-- Appends one row per stream that has new output, and none for one that has
not. -/
def insertOutput (attempt : TaskRunAttempt) (stdout stderr : String) : Code Unit :=
  Prog.forEach [(TaskRunAttemptOutputStream.stdout, stdout), (.stderr, stderr)]
    fun (stream, content) => do
      if content = "" then
        return ()
      else
        let _ ← insertTaskRunAttemptOutput (outputInput attempt stream content)

/-- What was received, one row per stream. -/
def insertChunks (attempt : TaskRunAttempt) (chunks : List TaskRunAttemptOutputChunk) :
    Code Unit :=
  insertOutput attempt (streamContent .stdout chunks) (streamContent .stderr chunks)

/-- Records whatever the readers have delivered so far. -/
def recordOutput (attempt : TaskRunAttempt) (child : TaskRunAttemptChild) : Code Unit := do
  let chunks ← perform (.tryRecvAll child.process)
  insertChunks attempt chunks

/-- Records everything the readers will ever deliver, by waiting for the channel
to close; a reader whose EOF never comes is aborted. -/
def finishReading (attempt : TaskRunAttempt) (child : TaskRunAttemptChild) : Code Unit := do
  let (chunks, closed) ← perform (.recvUntilClosed child.process)
  if closed then
    insertChunks attempt chunks
  else
    perform (.abortReaders child.process)
    insertChunks attempt chunks

/-! ## Settling -/

def stopUnlessSucceeded (attempt : TaskRunAttempt) (status : TaskRunAttemptStatus) :
    Code Unit :=
  if status = .succeeded then return () else stopChildJobRuns attempt

/-- Writes the terminal status, and stops the runs the attempt submitted unless
it succeeded. -/
def finishTaskRunAttempt (attempt : TaskRunAttempt) (status : TaskRunAttemptStatus)
    (output : Option String) : Code Unit := do
  -- before the status: written after it, a failure would never be retried
  stopUnlessSucceeded attempt status
  let now ← now
  updateTaskRunAttempts { id := some attempt.id }
    { status := some status, finishedAt := some (some now), output }

/-- A row with no process to wait on. -/
def setToInvalid (attempt : TaskRunAttempt) : Code Unit :=
  finishTaskRunAttempt attempt .invalid none

/-- A row `deriveNextStatus` derived as something the pass does not handle. -/
def setHeldToInvalid (attempt : TaskRunAttempt) (child : TaskRunAttemptChild) : Code Unit := do
  perform (.killProcessGroup child.process)
  finishReading attempt child
  finishTaskRunAttempt attempt .invalid none

/-! The sentences a result is refused with. -/

def noDirectory (error : Err) : String := s!"flowlite: {error.text}\n"

def unreadable (path : String) (error : Err) : String :=
  s!"flowlite: could not read the result at {path}: {error.text}\n"

def tooLong (len maxBytes : Nat) : String :=
  s!"flowlite: the result written to $FLOWLITE_TASK_OUTPUT is {len} " ++
    s!"bytes, over the {maxBytes} allowed by [orchestrator] " ++
    "max_task_output_bytes. The attempt failed rather than recording part of it, " ++
    "since a dependent task would have parsed the part it got as the whole result.\n"

def notUtf8 : String :=
  "flowlite: the result written to $FLOWLITE_TASK_OUTPUT is not valid UTF-8. It is stored as " ++
    "text and travels through --json and the dashboard, so it is refused rather than mangled.\n"

/-- What the command wrote to `$FLOWLITE_TASK_OUTPUT`, or the sentence explaining
why it is not going to be recorded. -/
def readTaskOutput (config : Config) (attempt : TaskRunAttempt) : Code (Except String String) := do
  match ← (jobRunDir config attempt.jobRunId).attempt with
  | .error error => return .error (noDirectory error)
  | .ok dir =>
      let path := taskOutputPath dir attempt.taskId attempt.attempt
      match ← (perform (.metadata path)).attempt with
      | .error error => return .error (unreadable path error)
      | .ok none => return .ok ""
      | .ok (some len) =>
          if len > config.app.maxTaskOutputBytes then
            return .error (tooLong len config.app.maxTaskOutputBytes)
          else
            match ← (perform (.readFile path)).attempt with
            | .error error => return .error (unreadable path error)
            | .ok bytes =>
                match String.fromUTF8? bytes with
                | none => return .error notUtf8
                | some output => return .ok output

/-- Succeeds the attempt whose process exited zero, unless its result cannot be
recorded. -/
def setToSucceeded (config : Config) (attempt : TaskRunAttempt) (child : TaskRunAttemptChild) :
    Code Unit := do
  finishReading attempt child
  match ← readTaskOutput config attempt with
  | .ok output => finishTaskRunAttempt attempt .succeeded (some output)
  | .error rejection =>
      insertOutput attempt "" rejection
      finishTaskRunAttempt attempt .failed none

def setToFailed (attempt : TaskRunAttempt) (child : TaskRunAttemptChild) : Code Unit := do
  finishReading attempt child
  finishTaskRunAttempt attempt .failed none

/-! ## Ending a command -/

/-- flowlite's one line on which limit ended an attempt. -/
def timeoutNote (child : TaskRunAttemptChild) (now : Instant) : String :=
  match child.idleTimeout with
  | some idleTimeout =>
      if now ≤ child.timesOutAt then
        s!"flowlite: no output for {idleTimeout / 1000}s, the task's idle_timeout; ending the " ++
          "attempt\n"
      else
        "flowlite: past the task's timeout; ending the attempt\n"
  | none => "flowlite: past the task's timeout; ending the attempt\n"

/-- Kills whatever of the group is left, drains and settles. -/
def finishTermination (attempt : TaskRunAttempt) (child : TaskRunAttemptChild)
    (status : TaskRunAttemptStatus) : Code Unit := do
  perform (.killProcessGroup child.process)
  finishReading attempt child
  finishTaskRunAttempt attempt status none

/-- Records what there is and hands the child back, whether or not that was
written. -/
def recordAndPutBack (attempt : TaskRunAttempt) (child : TaskRunAttemptChild) : Code Unit := do
  let result ← (recordOutput attempt child).attempt
  perform (.childrenInsert attempt.id child)
  Prog.ofExcept result

/-- Says on the attempt's stderr which limit ended it. -/
def noteTimeout (attempt : TaskRunAttempt) (child : TaskRunAttemptChild)
    (status : TaskRunAttemptStatus) : Code Unit := do
  if status = .timedOut then
    let now ← now
    insertOutput attempt "" (timeoutNote child now)
  else
    return ()

/-- Asks a timed-out or stopped command to exit, and decides now what the attempt
settles as however it then exits. -/
def beginTermination (config : Config) (attempt : TaskRunAttempt) (child : TaskRunAttemptChild)
    (status : TaskRunAttemptStatus) : Code Unit := do
  noteTimeout attempt child status
  if config.app.killGraceSeconds = 0 then
    finishTermination attempt child status
  else
    perform (.terminateProcessGroup child.process)
    let now ← now
    let termination := { status, killAt := now + seconds config.app.killGraceSeconds }
    recordAndPutBack attempt { child with terminating := some termination }

/-- A command that was asked to exit: settled once nothing of its group is left,
or killed and settled once the grace runs out. -/
def handleTerminating (attempt : TaskRunAttempt) (child : TaskRunAttemptChild)
    (termination : Termination) : Code Unit := do
  let now ← now
  if now ≥ termination.killAt then
    finishTermination attempt child termination.status
  else
    let isGone ← perform (.processGroupIsGone child.process)
    if isGone then
      finishTermination attempt child termination.status
    else
      recordAndPutBack attempt child

/-! ## One attempt -/

/-- Its exit status if it has one, else whether it is past a limit, else whether
its job run was stopped, else still running. -/
def deriveNextStatus (attempt : TaskRunAttempt) (child : TaskRunAttemptChild) :
    Code TaskRunAttemptStatus := do
  match ← perform (.tryWait child.process) with
  | some exitStatus => return if exitStatus.success then .succeeded else .failed
  | none =>
      let wallNow ← now
      if wallNow > child.timesOutAt then
        return .timedOut
      else
        let idleNow ← now
        let lastOutputAt ← perform (.lastOutputAt child.process)
        if child.isIdle lastOutputAt idleNow then
          return .timedOut
        else
          let isStopped ← isJobRunStopped attempt.jobRunId
          return if isStopped then .aborted else .running

/-- What a pass does with a child that has not been asked to exit. -/
def handleChild (config : Config) (attempt : TaskRunAttempt) (child : TaskRunAttemptChild) :
    Code Unit := do
  match ← (deriveNextStatus attempt child).attempt with
  | .ok .succeeded => setToSucceeded config attempt child
  | .ok .failed => setToFailed attempt child
  | .ok .timedOut => beginTermination config attempt child .timedOut
  | .ok .aborted => beginTermination config attempt child .aborted
  | .ok .running => recordAndPutBack attempt child
  | .ok _ => setHeldToInvalid attempt child
  | .error error =>
      perform (.childrenInsert attempt.id child)
      Prog.throw error

def handleRunningTaskRunAttempt (config : Config) (attempt : TaskRunAttempt) : Code Unit := do
  match ← perform (.childrenRemove attempt.id) with
  | none => setToInvalid attempt
  | some child =>
      match child.terminating with
      | some termination => handleTerminating attempt child termination
      | none => handleChild config attempt child

def getTaskRunAttempts : Code (List TaskRunAttempt) :=
  selectTaskRunAttempts { status := some .running } (some .id)

def poller (config : Config) : Poller where
  Row := TaskRunAttempt
  select := getTaskRunAttempts
  handle := handleRunningTaskRunAttempt config

end TaskRunAttemptMonitor

/-! ## Recovery -/

namespace Recovery

/-- Kills the attempt's process group where its id cannot have been handed out
again, and reports whether it did. -/
def killOrphanProcessGroup (attempt : TaskRunAttempt) (systemBootTime : Option Instant) :
    Code Bool :=
  match attempt.processGroupId, attempt.startedAt, systemBootTime with
  | some processGroupId, some startedAt, some bootTime =>
      if startedAt < bootTime then return false
      else perform (.killOrphan processGroupId)
  | _, _, _ => return false

def recoverTaskRunAttempt (systemBootTime : Option Instant) (attempt : TaskRunAttempt) :
    Code Unit := do
  let _ ← killOrphanProcessGroup attempt systemBootTime
  stopChildJobRuns attempt
  let now ← now
  updateTaskRunAttempts { id := some attempt.id }
    { status := some .invalid, finishedAt := some (some now) }

/-- Settles the attempts a previous run of the program left running. -/
def recoverOrphanedTaskRunAttempts (systemBootTime : Option Instant) : Code Unit := do
  let taskRunAttempts ← selectTaskRunAttempts { status := some .running } (some .id)
  Prog.forEach taskRunAttempts (recoverTaskRunAttempt systemBootTime)

/-- What `serve` does before it serves: an error of the recovery is its own. -/
def recoverThenStart : Code Unit := do
  let systemBootTime ← perform .systemBootTime
  recoverOrphanedTaskRunAttempts systemBootTime
  perform .startServices

end Recovery

end Flowlite

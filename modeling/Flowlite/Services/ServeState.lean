import Flowlite.Host.DataDir

/-!
# serve_state

Taking a data directory's lock, asking whether somebody has it, and describing the
server that does.
-/

namespace Flowlite.ServeState

open Store Host Host.DataDir Threads

/-- A program of a process at a data directory. -/
abbrev Code := Prog lockOps

def perform (o : DataDir.Op) : Code o.Ret := Prog.perform (S := lockOps) o

def takeLock (file : Nat) : Code Bool := perform (.flock file)

def readState : Code (Option ServeState) := perform .readState

/-- What `acquire` says where somebody else has the lock. -/
def alreadyServed (dataDir : String) : Option ServeState → Err
  | some state => ⟨s!"another flowlite serve is already running on {dataDir} (pid {state.pid}, " ++
      s!"http://{state.address}:{state.port})"⟩
  | none => ⟨s!"another flowlite serve is already starting up on {dataDir}"⟩

/-- Ends with an error, after the descriptor is dropped. -/
def bail (file : Nat) (error : Err) {α : Type} : Code α := do
  perform (.close file)
  Prog.throw error

/-- Takes the directory's lock, or reports who has it. -/
def acquire (dataDir : String) : Code Nat := do
  perform .createStateDir
  match ← perform (.openLock .server) with
  | none => Prog.throw ⟨"Failed to open the serve lock"⟩
  | some file =>
      match ← (takeLock file).attempt with
      | .error error => bail file error
      | .ok true =>
          -- whoever wrote a state file that is there has gone
          let _ ← (perform .removeState).attempt
          return file
      | .ok false =>
          match ← readState.attempt with
          | .error error => bail file error
          | .ok holder =>
              perform (.close file)
              perform (.refuse (alreadyServed dataDir holder))
              Prog.throw (alreadyServed dataDir holder)

/-- Whether a server holds this data directory, asked by trying to take its lock and
giving it straight back. -/
def status : Code ServeStatus := do
  match ← perform (.openLock .probe) with
  | none => return .down
  | some file =>
      match ← (takeLock file).attempt with
      | .error error => bail file error
      | .ok true =>
          perform (.close file)
          return .down
      | .ok false =>
          match ← readState.attempt with
          | .error error => bail file error
          | .ok state =>
              perform (.close file)
              return match state with
                | some state => .up state
                | none => .starting

def writeState (state : ServeState) : Code Unit := do
  perform .createStateDir
  perform .createTmp
  perform (.fillTmp state)
  perform .renameTmp

/-- `ServeCmd::run`, which has the lock for as long as it serves. -/
def serve (dataDir : String) (state : ServeState) : Code Unit := do
  let lock ← acquire dataDir
  let result ← (do
    perform .startUp
    writeState state
    perform .serveUntilShutdown : Code Unit).attempt
  perform (.close lock)
  Prog.ofExcept result

/-- `StatusCmd::run`. -/
def statusCmd : Code Unit := do
  let state ← status
  perform (.report state)

/-! ## The processes at one data directory -/

inductive Start
  | serve (state : ServeState)
  | status

def Start.code (dataDir : String) : Start → Code Unit
  | .serve state => ServeState.serve dataDir state
  | .status => statusCmd

/-- Any number of processes that serve a data directory, or ask whether it is
served. -/
abbrev processes (dataDir : String) : Machine lockOps where
  Tid := Nat
  State := Directory
  Choice := Choice
  perform t o ch w := w.perform t o ch
  Start := Start
  start _ a _ := some (a.code dataDir)
  -- a process that ends
  Env := Nat
  env process w := some (w.kill process)
  init w := w = .fresh

end Flowlite.ServeState

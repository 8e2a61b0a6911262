import Flowlite.Host.World

/-!
# The serve lock of a data directory

What `serve` and `status` find in the `.flowlite` directory of a data directory: the
lock file, the descriptors open on it and which of them has the lock, and the file
a server describes itself in. Any number of processes act on it, and any of them may
be killed between two of its operations.

`flock` is exclusive per open file description, and whoever has the lock loses it
with the descriptor.
-/

namespace Flowlite.Host.DataDir

open Flowlite.Store Flowlite.Threads

/-- What a running `serve` says about itself. -/
structure ServeState where
  pid : Nat
  address : String
  port : Nat
  startedAt : Instant
  version : String
  deriving DecidableEq

/-- What the lock and the state file together say about a data directory. -/
inductive ServeStatus
  | down
  /-- The lock is held but no state file is readable yet. -/
  | starting
  | up (state : ServeState)
  deriving DecidableEq

/-- `ServeLock::acquire` opens the lock file for writing and creates it; `status`
opens it for reading, if it is there. -/
inductive OpenedBy
  | server
  | probe
  deriving DecidableEq

/-- A descriptor open on the lock file. -/
structure Descriptor where
  id : Nat
  process : Nat
  openedBy : OpenedBy
  locked : Bool
  /-- What its server has written about itself by now. Auxiliary. -/
  described : Option ServeState
  deriving DecidableEq

instance : Keyed Descriptor := ⟨Descriptor.id⟩

@[simp] theorem key_descriptor (d : Descriptor) : Keyed.key d = d.id := rfl

namespace Descriptor

def opened (process : Nat) (openedBy : OpenedBy) : Draft Descriptor where
  row id := { id, process, openedBy, locked := false, described := none }
  key_row _ := rfl

def lock : Patch Descriptor where
  apply d := { d with locked := true }
  key_apply _ := rfl

def describe (state : Option ServeState) : Patch Descriptor where
  apply d := { d with described := state }
  key_apply _ := rfl

/-- A server that holds the directory. -/
def serves (d : Descriptor) : Bool := d.openedBy = .server && d.locked

end Descriptor

deriving instance DecidableEq for Err

/-- What a file reads as; a half-written one reads as no state. -/
abbrev Content : Type := Option ServeState

inductive Op
  /-- `create_dir_all` of the state directory. -/
  | createStateDir
  /-- `open` of the lock file; `none` where there is none and none is created. -/
  | openLock (openedBy : OpenedBy)
  /-- `flock` with `LOCK_EX | LOCK_NB`: whether the lock was taken. -/
  | flock (file : Nat)
  | removeState
  | readState
  /-- `write` creates the file beside the state file, and fills it. -/
  | createTmp
  | fillTmp (state : ServeState)
  | renameTmp
  /-- The descriptor is dropped. -/
  | close (file : Nat)
  /-- What `serve` does between taking the lock and writing the state. -/
  | startUp
  | serveUntilShutdown
  /-- `flowlite status` prints what it found. -/
  | report (status : ServeStatus)
  /-- `flowlite serve` ends with the error of a lock that somebody else has. -/
  | refuse (error : Err)
  deriving DecidableEq

abbrev Op.Ret : Op → Type
  | .openLock _ => Option Nat
  | .flock _ => Bool
  | .readState => Option ServeState
  | .createStateDir | .removeState | .createTmp | .fillTmp _ | .renameTmp | .close _ | .startUp
  | .serveUntilShutdown | .report _ | .refuse _ => Unit

/-- The operations on a data directory's lock. -/
abbrev lockOps : Signature where
  Op := Op
  Ret := Op.Ret
  Err := Err

abbrev Result (o : Op) : Type := Except Err o.Ret

structure Directory where
  stateDir : Bool
  lockFile : Bool
  descriptors : Table Descriptor
  stateFile : Option Content
  tmpFile : Option Content
  /-- The descriptors at every moment of the call a process is making, the latest
  first. Auxiliary. -/
  moments : Nat → List (Table Descriptor)

/-- A directory nobody has served yet. -/
def Directory.fresh : Directory where
  stateDir := false
  lockFile := false
  descriptors := .empty
  stateFile := none
  tmpFile := none
  moments := fun _ => []

namespace Directory

variable (w : Directory)

/-- Somebody else's descriptor has the lock. -/
def isHeldFrom (file : Nat) : Bool :=
  w.descriptors.rows.any fun d => d.locked && d.id ≠ file

/-- What a failed call answers. -/
def failed (text : String) {α : Type} : Except Err α := .error ⟨text⟩

/-- `perform` without its record of the moment. -/
def outcome (t : Nat) (ch : Choice) (w : Directory) : (o : Op) → Result o × Directory
  | .createStateDir =>
      if ch.fails then (failed ch.text, w) else (.ok (), { w with stateDir := true })
  | .openLock openedBy =>
      let opened := some w.descriptors.next
      let descriptors := w.descriptors.insert (Descriptor.opened t openedBy)
      if ch.fails then (failed ch.text, w)
      else if w.lockFile then (.ok opened, { w with descriptors })
      else
        match openedBy, w.stateDir with
        | .server, true => (.ok opened, { w with descriptors, lockFile := true })
        | .server, false => (failed ch.text, w)
        | .probe, _ => (.ok none, w)
  | .flock file =>
      if ch.fails then (failed ch.text, w)
      else if w.isHeldFrom file then (.ok false, w)
      else (.ok true, { w with
        descriptors := w.descriptors.update (fun d => d.id = file) Descriptor.lock })
  | .removeState =>
      match ch.fails, w.stateFile with
      | false, some _ => (.ok (), { w with stateFile := none })
      | _, _ => (failed ch.text, w)
  | .readState =>
      if ch.fails then (failed ch.text, w)
      else
        match w.stateFile with
        | none => (.ok none, w)
        | some content => (.ok content, w)
  | .createTmp =>
      if ch.fails then (failed ch.text, w) else (.ok (), { w with tmpFile := some none })
  | .fillTmp state =>
      if ch.fails then (failed ch.text, w) else (.ok (), { w with tmpFile := some (some state) })
  | .renameTmp =>
      match ch.fails, w.tmpFile with
      | false, some content => (.ok (), { w with
          stateFile := some content
          tmpFile := none
          descriptors := w.descriptors.update (fun d => d.process = t && d.serves)
            (Descriptor.describe content) })
      | _, _ => (failed ch.text, w)
  | .close file => (.ok (), { w with
      descriptors := w.descriptors.delete fun d => d.id = file })
  | .startUp | .serveUntilShutdown => if ch.fails then (failed ch.text, w) else (.ok (), w)
  | .report _ | .refuse _ => (.ok (), w)

/-- The operations `acquire` and `status` begin with. -/
def begins : Op → Bool
  | .createStateDir | .openLock .probe => true
  | _ => false

/-- The moment after an operation of `t`, for every call that is being made. -/
def noted (t : Nat) (o : Op) : Directory :=
  { w with moments := fun u =>
      w.descriptors :: if u = t ∧ begins o then [] else w.moments u }

/-- One operation of process `t`. -/
def perform (t : Nat) (o : Op) (ch : Choice) (w : Directory) :
    Option (Result o × Directory) :=
  some ((w.outcome t ch o).1, (w.outcome t ch o).2.noted t o)

/-- A process ends, killed or by itself, and its descriptors are closed. -/
def kill (process : Nat) (w : Directory) : Directory × (Nat → Bool) :=
  let descriptors := w.descriptors.delete fun d => d.process = process
  ({ w with descriptors, moments := fun u => descriptors :: w.moments u }, fun u => u = process)

end Directory

end Flowlite.Host.DataDir

import Flowlite.Crud.Runs

/-!
# Pollers

A service is the rows it selects and what it does with each one. One pass of its
poller handles every row of one select; an error on a row is logged and the next
row handled, an error of the select ends the pass.
-/

namespace Flowlite

open Threads

/-- One background service a poller drives. -/
structure Poller where
  Row : Type
  select : Code (List Row)
  handle : Row → Code Unit

/-- One wake-up: what the loop of `Poller::run` does between two of them. -/
def Poller.pass (p : Poller) : Code Unit :=
  p.select.bind fun rows =>
    Prog.forEach rows fun row => do
      -- a row the service cannot handle is left for the next wake-up
      let _ ← (p.handle row).attempt

end Flowlite

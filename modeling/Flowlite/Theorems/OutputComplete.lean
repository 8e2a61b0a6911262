import Flowlite.Logic.Books
import Flowlite.Theorems.Replay

/-!
# Complete output

Whether the rows of an attempt that has settled say what its command printed. They say
it together with lines of flowlite's own: which limit ended the attempt, or why its
result was refused, is told where its reader is already looking.
-/

namespace Flowlite

open Store Host Threads Crud Machine Outline

variable {lib : Library}

/-- The rows of an attempt are the chunks of its command and nothing else. -/
def OutputVerbatim (w : World) : Prop :=
  ∀ n p x, w.procs.find n = some p → w.db.taskRunAttempts.find p.taskRunAttemptId = some x →
    Reports x.status → p.stdout = .eof → p.stderr = .eof →
    ∀ stream, String.join (w.db.recorded x.id stream) = streamContent stream p.delivered

/-- The rows of an attempt are the chunks of its command, with the lines that go with its
status in one place among those of stderr. -/
def OutputComplete (w : World) : Prop :=
  ∀ n p x, w.procs.find n = some p → w.db.taskRunAttempts.find p.taskRunAttemptId = some x →
    Reports x.status → ReadToEnd n w →
    ∃ notes, OwnLines x.status notes ∧ ∀ stream, ∃ before after,
      w.db.recorded x.id stream = before ++ notes stream ++ after ∧
        String.join (before ++ after) = streamContent stream p.delivered

/-- **Output completeness** in every run of the system in which no row fails that is for
what a command has printed so far. -/
theorem output_is_complete (lib : Library) (c : (flowlite lib).Config)
    (hc : Reachable (keepsOutput lib) c) : OutputComplete c.state := by
  obtain ⟨cond, hle, hat, hc⟩ := attended hc
  have hlogged := (outputs_valid hat hle).inv hc
  intro n p x hp hx hreports hend
  obtain ⟨notes, hnotes, hw⟩ := hlogged.settled n p x hp hx hreports
  have hid : x.id = p.taskRunAttemptId := Table.key_of_find hx
  refine ⟨notes, hnotes, fun stream => ?_⟩
  obtain ⟨before, after, hrows, hsum⟩ := hw hend p x hp hx stream
  refine ⟨before, after, by rw [hid, hrows], ?_⟩
  -- the channel is empty, and nothing is in hand
  rw [(hlogged.ended n p hp hend).2] at hsum
  simpa [noText, streamContent] using hsum

namespace Replay

/-- Both readers of the command come to the end of their pipes. -/
def printsNoMore : List Event := [.env (.eof 1 .stdout), .env (.eof 1 .stderr)]

/-- The command prints, and goes on; then prints some more, and succeeds. -/
def printsTwice : List Event :=
  spawned ++ [.env (.deliver 1 ⟨.stdout, "one"⟩)] ++ wake .taskRunAttemptMonitor 10 ++
    [.env (.deliver 1 ⟨.stdout, "two"⟩), .env (.deliver 1 ⟨.stderr, "done"⟩),
      .env (.exit 1 (.code 0))] ++ printsNoMore ++ wake .taskRunAttemptMonitor 10

/-- The command prints nothing, and is ended when it has run for too long. -/
def silentTimeout : List Event :=
  let monitor := Tid.service .taskRunAttemptMonitor
  spawned ++ wake .taskRunAttemptMonitor 3 ++
    [step monitor { now := 70000 }, step monitor { now := 70000 }] ++ steps monitor 5 ++
    [.env (.exit 1 .signaled), .env (.groupExit 1)] ++ printsNoMore ++
    wake .taskRunAttemptMonitor 9

/-- What the command prints first is taken and not written; it succeeds all the same. -/
def rowFails : List Event :=
  let monitor := Tid.service .taskRunAttemptMonitor
  spawned ++ [.env (.deliver 1 ⟨.stdout, "one"⟩)] ++ wake .taskRunAttemptMonitor 8 ++
    [step monitor { fails := true }] ++ steps monitor 1 ++ [.env (.exit 1 (.code 0))] ++
    printsNoMore ++ wake .taskRunAttemptMonitor 8

theorem process_of_check {f : Process → Bool} {c : (flowlite library).Config}
    (h : (c.state.procs.find 1).any f = true) :
    ∃ p, c.state.procs.find 1 = some p ∧ f p = true :=
  (Option.any_eq_true _ _).mp h

/-- The readers of process 1, which is that of attempt 1, came to the end of their pipes,
and this is what they had delivered on one stream. -/
def delivered (stream : TaskRunAttemptOutputStream) (text : String) (p : Process) : Bool :=
  p.taskRunAttemptId = 1 && p.stdout = .eof && p.stderr = .eof &&
    streamContent stream p.delivered = text

theorem delivered_spec {stream : TaskRunAttemptOutputStream} {text : String} {p : Process}
    (h : delivered stream text p = true) : p.taskRunAttemptId = 1 ∧ p.stdout = .eof ∧
      p.stderr = .eof ∧ streamContent stream p.delivered = text := by
  simpa [delivered, and_assoc] using h

/-- Rows that say something else than what was delivered. -/
theorem not_verbatim {c : (flowlite library).Config} {stream : TaskRunAttemptOutputStream}
    {text : String} {status : TaskRunAttemptStatus} (hstatus : attemptStatusOf 1 c = some status)
    (hreports : Reports status)
    (hdelivered : (c.state.procs.find 1).any (delivered stream text) = true)
    (hrows : String.join (c.state.db.recorded 1 stream) ≠ text) : ¬ OutputVerbatim c.state := by
  intro hverbatim
  obtain ⟨p, hp, hcheck⟩ := process_of_check hdelivered
  obtain ⟨hid, hout, herr, htext⟩ := delivered_spec hcheck
  obtain ⟨x, hx, hxs⟩ := Option.map_eq_some_iff.mp hstatus
  have hkey : x.id = 1 := Table.key_of_find hx
  have hjoin := hverbatim 1 p x hp (hid ▸ hx) (hxs ▸ hreports) hout herr stream
  rw [hkey, htext] at hjoin
  exact hrows hjoin

end Replay

open Replay in
/-- The attempt succeeded, and both of its rows of stdout are there. -/
theorem output_is_complete_at_exit : ∃ c : (flowlite library).Config,
    attemptStatusOf 1 c = some .succeeded ∧ ReadToEnd 1 c.state ∧
      c.state.db.recorded 1 .stdout = ["one", "two"] ∧ OutputComplete c.state := by
  have hrun : (replay (keepsOutput library) printsTwice).any (fun c => decide
      (attemptStatusOf 1 c = some .succeeded ∧
        c.state.log.any (·.readsToEnd 1) = true ∧
        c.state.db.recorded 1 .stdout = ["one", "two"])) = true := by
    decide +kernel
  obtain ⟨c, hc, hcheck⟩ := reachable_of_replay hrun
  obtain ⟨hsucceeded, hend, hrows⟩ := of_decide_eq_true hcheck
  exact ⟨c, hsucceeded, hend, hrows, output_is_complete library c hc⟩

open Replay in
/-- The rows are not the chunks verbatim: the command printed nothing, and stderr says why
it was ended. -/
theorem timeout_note_is_recorded : ∃ c : (flowlite library).Config,
    Reachable .any c ∧ attemptStatusOf 1 c = some .timedOut ∧
      c.state.db.recorded 1 .stderr =
        ["flowlite: past the task's timeout; ending the attempt\n"] ∧
      ¬ OutputVerbatim c.state := by
  have hrun : (replay .any silentTimeout).any (fun c => decide
      (attemptStatusOf 1 c = some .timedOut ∧ c.state.db.recorded 1 .stderr =
          ["flowlite: past the task's timeout; ending the attempt\n"] ∧
        (c.state.procs.find 1).any (delivered .stderr "") = true)) = true := by
    decide +kernel
  obtain ⟨c, hc, hcheck⟩ := reachable_of_replay hrun
  obtain ⟨htimedOut, hrows, hdelivered⟩ := of_decide_eq_true hcheck
  refine ⟨c, hc, htimedOut, hrows, not_verbatim htimedOut (.inr (.inr (.inl rfl))) hdelivered ?_⟩
  rw [hrows]
  decide

open Replay in
/-- Without the condition more is lost than that: a chunk that was taken and not written
is gone, and the attempt succeeds. -/
theorem unwritten_chunk_is_lost : ∃ c : (flowlite library).Config,
    Reachable .any c ∧ attemptStatusOf 1 c = some .succeeded ∧
      c.state.db.recorded 1 .stdout = [] ∧ ¬ OutputVerbatim c.state := by
  have hrun : (replay .any rowFails).any (fun c => decide
      (attemptStatusOf 1 c = some .succeeded ∧ c.state.db.recorded 1 .stdout = [] ∧
        (c.state.procs.find 1).any (delivered .stdout "one") = true)) = true := by
    decide +kernel
  obtain ⟨c, hc, hcheck⟩ := reachable_of_replay hrun
  obtain ⟨hsucceeded, hrows, hdelivered⟩ := of_decide_eq_true hcheck
  refine ⟨c, hc, hsucceeded, hrows, not_verbatim hsucceeded (.inl rfl) hdelivered ?_⟩
  rw [hrows]
  decide

end Flowlite

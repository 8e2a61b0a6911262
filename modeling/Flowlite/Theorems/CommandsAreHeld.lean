import Flowlite.Logic.Ownership
import Flowlite.Theorems.Replay

/-!
# Commands that run are held

Whether flowlite can lose a command it has spawned. Two writes are made at a moment at
which their failure loses it: the monitor's note that a limit ended the attempt, made
with the child in hand, and the dispatcher's note that the attempt is running, without
which its next pass takes the spawn for one that was left behind by an earlier `serve`.
-/

namespace Flowlite

open Store Host Threads Crud Machine Outline

variable {lib : Library}

/-- Every command that runs has its child in the map, under its attempt. -/
def CommandsHeld (w : World) : Prop :=
  ∀ n p, w.procs.find n = some p → p.exited = none →
    ∃ child, w.children p.taskRunAttemptId = some child ∧ child.process = n

/-- The attempt of a command that runs is not settled. -/
def CommandsUnsettled (w : World) : Prop :=
  ∀ n p, w.procs.find n = some p → p.exited = none →
    ∀ x, w.db.taskRunAttempts.find p.taskRunAttemptId = some x → x.status.isFinished = false

/-- The services that have children are between two passes. -/
def BetweenPasses (c : (flowlite lib).Config) : Prop :=
  ∀ t, HasChildren t → c.pool t = none

/-- Between passes, flowlite can reach every command that runs, and its attempt is open. -/
def ProcessOwnership (c : (flowlite lib).Config) : Prop :=
  BetweenPasses c → CommandsHeld c.state ∧ CommandsUnsettled c.state

theorem StatusUnder.not_finished {holder : Holder} {status : TaskRunAttemptStatus}
    (h : StatusUnder holder status) : status.isFinished = false := by
  rcases h.of_map with rfl | rfl <;> rfl

/-- **Process ownership** in every run of the system in which `serve` does not crash, and
no write is lost that says of a running command that it was ended or that it runs. -/
theorem commands_are_held (lib : Library) (c : (flowlite lib).Config)
    (hc : Reachable (recordsCommands lib) c) : ProcessOwnership c := by
  obtain ⟨cond, hle, hat, hc⟩ := attended hc
  have hvalid := ownership_valid hat.base hat.spawns hat.attempts hat.custody hle
  have howned := hvalid.inv hc
  intro hbetween
  refine ⟨fun n p hp halive => ?_, fun n p hp halive x hx => ?_⟩
  · have hdispatcher := hvalid.idle_of_none hc (hbetween _ (.inl rfl))
    have hmonitor := hvalid.idle_of_none hc (hbetween _ (.inr rfl))
    refine howned.custody.child n p hp ?_
    cases hholder : p.holder with
    | map => rfl
    | dispatcher => exact nomatch hdispatcher.1 n p hp halive hholder
    | monitor => exact nomatch hmonitor n p hp halive hholder
    | nobody => exact absurd hholder (howned.held n p hp halive)
  · exact (howned.status n p hp halive x hx).not_finished

namespace Replay

/-- A timeout is due, and the note that says so is not written. -/
def noteFails : List Event :=
  let monitor := Tid.service .taskRunAttemptMonitor
  spawned ++ wake .taskRunAttemptMonitor 3 ++
    [step monitor { now := 70000 }, step monitor { now := 70000 }, step monitor { fails := true }]

/-- The command is spawned and handed over, and not recorded as running; the next pass
finds its attempt queued and spawned for. -/
def runningFails : List Event :=
  attempted ++ wake .taskRunAttemptDispatcher 10 ++
    [step (.service .taskRunAttemptDispatcher) { fails := true }] ++
    wake .taskRunAttemptDispatcher 3

/-- Whether the services that have children are between two passes. -/
def betweenPasses (c : (flowlite library).Config) : Bool :=
  (c.pool (.service .taskRunAttemptDispatcher)).isNone &&
    (c.pool (.service .taskRunAttemptMonitor)).isNone

theorem betweenPasses_spec {c : (flowlite library).Config} (h : betweenPasses c = true) :
    BetweenPasses c := by
  obtain ⟨hd, hm⟩ := Bool.and_eq_true_iff.mp h
  rintro t (rfl | rfl)
  · exact Option.isNone_iff_eq_none.mp hd
  · exact Option.isNone_iff_eq_none.mp hm

/-- The command of process 1 runs, and is that of attempt 1. -/
def runs (c : (flowlite library).Config) : Bool :=
  (c.state.procs.find 1).any fun p => p.exited = none && p.taskRunAttemptId = 1

theorem runs_spec {c : (flowlite library).Config} (h : runs c = true) :
    ∃ p, c.state.procs.find 1 = some p ∧ p.exited = none ∧ p.taskRunAttemptId = 1 := by
  obtain ⟨p, hp, hcheck⟩ := (Option.any_eq_true _ _).mp h
  exact ⟨p, hp, by simpa using hcheck⟩

end Replay

open Replay in
/-- The command has been spawned, and its child is in the map. -/
theorem commands_are_held_at_spawn : ∃ c : (flowlite library).Config,
    BetweenPasses c ∧ runs c = true ∧ attemptStatusOf 1 c = some .running ∧
      ProcessOwnership c := by
  have hrun : (replay (recordsCommands library) spawned).any (fun c => decide
      (betweenPasses c = true ∧ runs c = true ∧ attemptStatusOf 1 c = some .running)) = true := by
    decide +kernel
  obtain ⟨c, hc, hcheck⟩ := reachable_of_replay hrun
  obtain ⟨hbetween, hruns, hrunning⟩ := of_decide_eq_true hcheck
  exact ⟨c, betweenPasses_spec hbetween, hruns, hrunning, commands_are_held library c hc⟩

open Replay in
/-- Without the condition it fails: the monitor stops at the note, and the child it had in
hand is gone while the command runs on. -/
theorem unnoted_command_is_lost : ∃ c : (flowlite library).Config,
    Reachable (servesOn library) c ∧ BetweenPasses c ∧ runs c = true ∧
      attemptStatusOf 1 c = some .running ∧ ¬ ProcessOwnership c := by
  have hrun : (replay (servesOn library) noteFails).any (fun c => decide (betweenPasses c = true ∧
      runs c = true ∧ attemptStatusOf 1 c = some .running ∧
        (c.state.children 1).isNone = true)) = true := by
    decide +kernel
  obtain ⟨c, hc, hcheck⟩ := reachable_of_replay hrun
  obtain ⟨hbetween, hruns, hrunning, hgone⟩ := of_decide_eq_true hcheck
  have hbetween := betweenPasses_spec hbetween
  refine ⟨c, hc, hbetween, hruns, hrunning, fun howned => ?_⟩
  obtain ⟨p, hp, halive, hid⟩ := runs_spec hruns
  obtain ⟨child, hchild, -⟩ := (howned hbetween).1 1 p hp halive
  rw [hid, Option.isNone_iff_eq_none.mp hgone] at hchild
  cases hchild

open Replay in
/-- Nor does it hold when only the other write fails: the attempt is settled while its
command runs on. -/
theorem unrecorded_command_is_settled : ∃ c : (flowlite library).Config,
    Reachable (servesOn library) c ∧ BetweenPasses c ∧ runs c = true ∧
      attemptStatusOf 1 c = some .invalid ∧ ¬ ProcessOwnership c := by
  have hrun : (replay (servesOn library) runningFails).any (fun c => decide
      (betweenPasses c = true ∧ runs c = true ∧ attemptStatusOf 1 c = some .invalid)) = true := by
    decide +kernel
  obtain ⟨c, hc, hcheck⟩ := reachable_of_replay hrun
  obtain ⟨hbetween, hruns, hinvalid⟩ := of_decide_eq_true hcheck
  have hbetween := betweenPasses_spec hbetween
  refine ⟨c, hc, hbetween, hruns, hinvalid, fun howned => ?_⟩
  obtain ⟨p, hp, halive, hid⟩ := runs_spec hruns
  obtain ⟨x, hx, hstatus⟩ := Option.map_eq_some_iff.mp hinvalid
  have hopen := (howned hbetween).2 1 p hp halive x (hid ▸ hx)
  rw [hstatus] at hopen
  cases hopen

end Flowlite

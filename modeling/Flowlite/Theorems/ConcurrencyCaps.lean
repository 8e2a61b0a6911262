import Flowlite.Logic.Caps
import Flowlite.Theorems.Replay

/-!
# The caps on running attempts

Two tallies gate each spawn, and two writes lie between them and the attempt's status.
What was free is still free by then: nobody else sets an attempt running, and an attempt
that wakes from a wait is the one thing that makes a tally too small.
-/

namespace Flowlite

open Store Host Threads Crud Machine Outline

theorem within_caps {lib : Library} {cap : Nat} {limits : BTreeMap String Nat}
    {c : (flowlite lib).Config} (hc : Reachable ((capped lib cap limits).and (neverWaits lib)) c) :
    WithinCaps cap limits c.state := by
  have hbase := base_valid.established hc
  have htallies := (tallies_valid (Condition.and_le_right _ _)).established hbase
  have hle := (Condition.and_le_left (((capped lib cap limits).and (neverWaits lib)).and
    (base lib).established) (tallies lib).established)
  have hcaps : (caps lib cap limits).Valid _ := caps_valid
    ((hle.trans (Condition.and_le_left _ _)).trans (Condition.and_le_left _ _))
    ((hle.trans (Condition.and_le_left _ _)).trans (Condition.and_le_right _ _))
    (hle.trans (Condition.and_le_right _ _)) (Condition.and_le_right _ _)
  exact (hcaps.inv htallies).within

theorem spawned_on_free_slots {lib : Library} {c c' : (flowlite lib).Config} {id : Nat}
    {command : Command} {startedAt : Instant} {r : Result (.spawn id command startedAt)}
    (hc : Reachable (.any : (flowlite lib).Condition) c) (hnext : Next .any c c')
    (hlog : c'.state.log = ⟨.service .taskRunAttemptDispatcher,
      .spawn id command startedAt, r⟩ :: c.state.log) : OnFreeSlots c.state id := by
  have hbase := base_valid.established hc
  have htallies : (tallies lib).Valid _ := tallies_valid
    (Condition.and_le_right (.any : (flowlite lib).Condition) (base lib).established)
  have hnext := htallies.next_established hbase (base_valid.next_established hc hnext)
  exact onFreeSlots_of (performs_of_log hnext hlog).2.2.2.1

namespace Replay

/-- Two tasks of the job of `config`, for one slot. -/
def oneSlot : Config :=
  { config with
    app := { app with maxRunningAttempts := 1, concurrencyLimits := [("warehouse", 1)] }
    jobs := [{ job with limits := ["warehouse"] }]
    tasks := [task "extract" [], task "load" []] }

/-- Both tasks have an attempt. -/
def bothQueued : List Event :=
  boot oneSlot ++ request 0 (.submit oneSlot "etl" [] 0 none) 5 ++ wake .jobRunReleaser 4 ++
    wake .jobRunDispatcher 9 ++ wake .taskRunDispatcher 7 ++ wake .taskRunMonitor 7

/-- The dispatcher is about to spawn the first one's command. -/
def slotFound : List Event := bothQueued ++ wake .taskRunAttemptDispatcher 10

/-- It goes through with it, and leaves the second one queued. -/
def slotTaken : List Event := bothQueued ++ wake .taskRunAttemptDispatcher 15

/-- Whether what happened is the spawn for an attempt. -/
def spawns (id : Nat) (e : Host.Event) : Bool :=
  match e.thread, e.op with
  | .service .taskRunAttemptDispatcher, .spawn id' _ _ => id' = id
  | _, _ => false

theorem spawns_spec {id : Nat} {e : Host.Event} (h : spawns id e = true) :
    ∃ command startedAt r,
      e = ⟨.service .taskRunAttemptDispatcher, .spawn id command startedAt, r⟩ := by
  obtain ⟨t, o, r⟩ := e
  unfold spawns at h
  dsimp only at h
  split at h
  · obtain rfl := of_decide_eq_true h
    exact ⟨_, _, r, rfl⟩
  · cases h

end Replay

end Flowlite

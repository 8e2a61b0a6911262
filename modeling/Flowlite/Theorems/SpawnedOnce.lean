import Flowlite.Logic.Spawns
import Flowlite.Theorems.Replay

/-!
# At most one spawn

However often `serve` crashes and is started again, and whichever statements and
spawns fail, the command of an attempt is spawned at most once.
-/

namespace Flowlite

open Store Host Threads Crud Machine Outline Relation

/-- **At-most-once spawn**: in every reachable state, at most one command has ever
been spawned for an attempt. -/
theorem spawned_at_most_once (lib : Library) (c : (flowlite lib).Config)
    (hc : Reachable .any c) (id : Nat) : c.state.spawns id ≤ 1 := by
  have hvalid : (spawnsOnce lib).Valid (Condition.any.and (base lib).established) :=
    spawnsOnce_valid (Condition.and_le_right _ _)
  exact (hvalid.inv (base_valid.established hc) id).1

open Replay in
/-- `serve` crashes before the attempt is set to running; started again, it settles
the attempt instead of spawning its command a second time. -/
theorem spawned_at_most_once_at_crash : ∃ c : (flowlite library).Config,
    c.state.spawns 1 = 1 ∧ (c.state.db.taskRunAttempts.find 1).any (·.status = .invalid) ∧
      c.state.spawns 1 ≤ 1 := by
  have hrun : (replay .any (attempted ++ wake .taskRunAttemptDispatcher 9 ++ [.env .crash] ++
      boot config ++ wake .taskRunAttemptDispatcher 3)).any (fun c => decide
        (c.state.spawns 1 = 1 ∧
          (c.state.db.taskRunAttempts.find 1).any (·.status = .invalid))) = true := by
    decide +kernel
  obtain ⟨c, hc, hcheck⟩ := reachable_of_replay hrun
  obtain ⟨hspawned, hinvalid⟩ := of_decide_eq_true hcheck
  exact ⟨c, hspawned, hinvalid, spawned_at_most_once library c hc 1⟩

end Flowlite

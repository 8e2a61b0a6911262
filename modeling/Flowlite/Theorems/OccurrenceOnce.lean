import Flowlite.Logic.Occurrences
import Flowlite.Theorems.Replay

/-!
# A run for each occurrence

A pass of the scheduler keeps nothing for the next one: what it has submitted, it reads off the
table. That is enough. However often it restarts, and whatever fails, stops or deletes runs in
between, an occurrence has a second run only if its first was deleted.
-/

namespace Flowlite

open Store Host Threads Machine

namespace Replay

/-- The job of `config`, due at every full minute. -/
def scheduleConfig : Config :=
  { config with
    schedules := [{ scheduleId := "nightly", cron := "0 * * * * *", timezone := "UTC"
                    startDate := none, endDate := none, disabled := false, submitAhead := 1 }]
    scheduleJobs := [{ scheduleId := "nightly", jobId := "etl", parameters := [] }] }

/-- The occurrence is submitted, its run is deleted, and a new scheduler looks again. -/
def deletedOccurrence : List Event :=
  boot scheduleConfig ++ wake .scheduler 8 ++ wake .scheduler 4 ++ request 0 (.delete 1) 4 ++
    [.env .crash] ++ boot scheduleConfig ++ wake .scheduler 8 ++ wake .scheduler 4

/-- The runs there are for the first full minute. -/
def runsOfOccurrence (c : (flowlite library).Config) : List Nat :=
  (c.state.db.jobRuns.rows.filter fun x =>
    x.scheduleId = some "nightly" ∧ x.jobId = "etl" ∧ x.scheduledAt = seconds 60).map (·.id)

end Replay

/-- **One run an occurrence**: of two runs of one job that are there for one instant of one
schedule, the older has been deleted. -/
theorem one_run_per_occurrence (lib : Library) (c : (flowlite lib).Config)
    (hc : Reachable .any c) : OncePerOccurrence c.state := by
  obtain ⟨c₁, hentails, hb⟩ := (base_valid : (base lib).Valid .any).entails
  exact ((occurrences_valid hb).inv (hentails.reachable hc)).2

open Replay in
/-- Two passes submit one run, and two more submit another when it has been deleted. -/
theorem one_run_per_occurrence_deleted : ∃ c : (flowlite library).Config,
    runsOfOccurrence c = [1, 2] ∧ statusOf 2 c = some .scheduled ∧ OncePerOccurrence c.state := by
  have hrun : (replay .any deletedOccurrence).any (fun c =>
      decide (runsOfOccurrence c = [1, 2] ∧ statusOf 2 c = some .scheduled)) = true := by
    decide +kernel
  obtain ⟨c, hc, hcheck⟩ := reachable_of_replay hrun
  obtain ⟨hruns, hscheduled⟩ := of_decide_eq_true hcheck
  exact ⟨c, hruns, hscheduled, one_run_per_occurrence library c hc⟩

end Flowlite

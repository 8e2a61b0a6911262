import Flowlite.Logic.Turns
import Flowlite.Theorems.Replay

/-!
# The oldest waiting run first

Among the queued runs a pass has selected, none is started past an older one of its job.
The pass asks for each of them on its own whether there is a slot, so this rests on no
slot coming free between two of these questions, and on none of them failing.
-/

namespace Flowlite

open Store Host Threads Crud Machine Outline

/-- A run that is set to running passes no older one: none of its job, selected in the
same pass and not stopped, is still queued. -/
def OldestFirst (w : World) (e : Host.Event) : Prop :=
  ∀ f i, e.thread = .service .jobRunDispatcher → e.op = .write (.updateJobRuns f i) →
    i.status = some .running → ∀ x ∈ w.db.jobRuns.rows, f.id = some x.id →
      ∀ y ∈ w.dispatchPass.selected, y.id < x.id → y.jobId = x.jobId → ¬ IsStopped w y.id →
        ∀ z, w.db.jobRuns.find y.id = some z → z.status ≠ .queued

/-- **Queued runs are started oldest first**, in every run of the system in which no slot
of a job is freed, and nothing fails, between two questions of a pass. -/
theorem oldest_first (lib : Library) (c c' : (flowlite lib).Config)
    (hc : Reachable (keepsTurn lib) c) (hn : Next (keepsTurn lib) c c') (e : Host.Event)
    (hlog : c'.state.log = e :: c.state.log) : OldestFirst c.state e := by
  have hbase : (base lib).Valid (keepsTurn lib) := base_valid
  have hjobs : (jobRuns lib).Valid _ := jobRuns_valid
    (Condition.and_le_right (keepsTurn lib) (base lib).established)
  have hvalid : (turns lib).Valid _ := turns_valid
    ((Condition.and_le_left _ _).trans (Condition.and_le_left (keepsTurn lib) _))
    ((Condition.and_le_left _ _).trans (Condition.and_le_right _ _))
    (Condition.and_le_right ((keepsTurn lib).and (base lib).established) (jobRuns lib).established)
  have hreach := hbase.established hc
  have hstep := performs_of_log (hvalid.next_established (hjobs.established hreach)
    (hjobs.next_established hreach (hbase.next_established hc hn))) hlog
  intro f i hthread hop hrunning x hx hid y hy hlt hjob hstopped z hz
  have hturn : InTurn c.state x := by
    have hpre := hstep.2.2.2.1
    rw [hthread, hop] at hpre
    exact hpre hrunning x hx hid
  obtain ⟨-, hout | hpast⟩ := hturn y hy hlt hjob
  · exact absurd hout hstopped
  · have := hpast.2 z hz
    intro hqueued
    rw [hqueued] at this
    cases this

namespace Replay

/-- The job of `config`, `n` runs of which may be under way. -/
def limited (n : Nat) : Config := { config with jobs := [{ job with maxParallelRuns := n }] }

/-- Two runs of a job that allows two are queued, and the dispatcher has started one and
is about to start the other. -/
def startsBoth : List Event :=
  boot (limited 2) ++ request 0 (.submit (limited 2) "etl" [] 0 none) 4 ++
    request 0 (.submit (limited 2) "etl" [] 0 none) 4 ++ wake .jobRunReleaser 7 ++
    wake .jobRunDispatcher 18

/-- The one run that is allowed is under way, all but finished, and two are queued. The
older of them finds no slot; then the first is finished. -/
def freesSlot : List Event :=
  boot (limited 1) ++ request 0 (.submit (limited 1) "etl" [] 0 none) 4 ++
    wake .jobRunReleaser 4 ++ wake .jobRunDispatcher 10 ++ wake .taskRunDispatcher 4 ++
    wake .taskRunMonitor 4 ++ wake .taskRunAttemptDispatcher 11 ++
    [.env (.exit 1 (.code 0)), .env (.eof 1 .stdout), .env (.eof 1 .stderr)] ++
    wake .taskRunAttemptMonitor 8 ++ wake .taskRunMonitor 4 ++
    request 0 (.submit (limited 1) "etl" [] 0 none) 4 ++
    request 0 (.submit (limited 1) "etl" [] 0 none) 4 ++ wake .jobRunReleaser 7 ++
    wake .jobRunDispatcher 4 ++ wake .jobRunMonitor 4 ++ steps (.service .jobRunDispatcher) 8

end Replay

open Replay in
/-- The second run is started once the first one runs. -/
theorem oldest_first_at_second : ∃ (c c' : (flowlite library).Config) (e : Host.Event),
    c'.state.log = e :: c.state.log ∧ statusOf 1 c = some .running ∧
      statusOf 2 c = some .queued ∧ statusOf 2 c' = some .running ∧ OldestFirst c.state e := by
  have hrun : (replay (keepsTurn library) startsBoth).any (fun c =>
      (execEvent (keepsTurn library) c (step (.service .jobRunDispatcher))).any fun c' =>
        c.state.log.length < c'.state.log.length && c'.state.log.head?.any fun _ => decide
          (statusOf 1 c = some .running ∧ statusOf 2 c = some .queued ∧
            statusOf 2 c' = some .running)) = true := by
    decide +kernel
  obtain ⟨c, c', e, hc, hn, hlog, hcheck⟩ := next_of_replay hrun
  obtain ⟨hfirst, hbefore, hafter⟩ := of_decide_eq_true hcheck
  exact ⟨c, c', e, hlog, hfirst, hbefore, hafter, oldest_first library c c' hc hn e hlog⟩

/-- The operation sets the run to running. -/
def Replay.startsRun (id : Nat) : Op → Bool
  | .write (.updateJobRuns f i) => f.id == some id && i.status == some .running
  | _ => false

open Replay in
/-- Without the condition it fails, and nothing has to fail for it: the slot that came
free goes to the youngest run. -/
theorem younger_run_is_started_first : ∃ (c c' : (flowlite library).Config) (e : Host.Event),
    Reachable .any c ∧ Next .any c c' ∧ c'.state.log = e :: c.state.log ∧
      (∀ e' ∈ c'.state.log, e'.result.toBool = true) ∧ ¬ OldestFirst c.state e := by
  have hrun : (replay .any freesSlot).any (fun c =>
      (execEvent .any c (step (.service .jobRunDispatcher))).any fun c' =>
        c.state.log.length < c'.state.log.length && c'.state.log.head?.any fun e => decide
          ((c'.state.log.all fun e' => e'.result.toBool) = true ∧
            e.thread = .service .jobRunDispatcher ∧
            startsRun 3 e.op = true ∧
            (∃ x ∈ c.state.db.jobRuns.rows, x.id = 3 ∧ x.jobId = "etl") ∧
            (∃ y ∈ c.state.dispatchPass.selected, y.id = 2 ∧ y.jobId = "etl") ∧
            ¬ IsStopped c.state 2 ∧ statusOf 2 c = some .queued)) = true := by
    decide +kernel
  obtain ⟨c, c', e, hc, hn, hlog, hcheck⟩ := next_of_replay hrun
  obtain ⟨hall, hthread, hop, ⟨x, hx, hxid, hxjob⟩, ⟨y, hy, hyid, hyjob⟩, hstopped, hqueued⟩ :=
    of_decide_eq_true hcheck
  refine ⟨c, c', e, hc, hn, hlog, fun e' he' => List.all_eq_true.mp hall e' he', fun holdest => ?_⟩
  unfold startsRun at hop
  split at hop
  · rename_i f i heq
    obtain ⟨hid, hrunning⟩ := Bool.and_eq_true_iff.mp hop
    obtain ⟨z, hz, hzqueued⟩ := statusOf_eq hqueued
    rw [← hyid] at hz hstopped
    refine holdest f i hthread heq (beq_iff_eq.mp hrunning) x hx ?_ y hy ?_ ?_ hstopped z hz hzqueued
    · rw [beq_iff_eq.mp hid, hxid]
    · omega
    · rw [hyjob, hxjob]
  · cases hop

end Flowlite

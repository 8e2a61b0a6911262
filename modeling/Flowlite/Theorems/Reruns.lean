import Flowlite.Logic.Reruns
import Flowlite.Theorems.Replay

/-!
# Reruns

A run is submitted, and rerun, and the rerun is rerun in turn, with any statements of
anybody's in between: what the last one executes is what the first one was submitted as.
-/

namespace Flowlite

open Store Host Threads Crud Machine

/-- A run that was rerun from the run `id₀` of the tables `db₀`, through any chain of reruns,
and is now the run `id`; nothing has been added to it since it was written. -/
inductive Reruns (db₀ : Database) (id₀ : Nat) : Database → Nat → Prop
  | original : Reruns db₀ id₀ db₀ id₀
  /-- Any other statement, whether it writes to the run or deletes it. -/
  | elapse {db db' : Database} {id : Nat} {q : Write} {now : Instant} {a : q.Answer} :
      Reruns db₀ id₀ db id → q.run db now = some (a, db') → ¬ q.AddsTo id →
        Reruns db₀ id₀ db' id
  | rerun {w w' : World} {id copy : Nat} {parent : Option Nat} {clock : World → Instant} :
      Reruns db₀ id₀ w.db id →
        (rerunJob id parent).alone (undisturbed clock) w = some (.ok copy, w') →
          Reruns db₀ id₀ w'.db copy

/-- Where a run of the chain is still there, it is what the first one was submitted as. -/
structure Reproduced (db₀ : Database) (id₀ : Nat) (db : Database) (id : Nat) : Prop where
  references : db.References
  known : id < db.jobRuns.next
  snapshot : db.snapshot id = db₀.snapshot id₀ ∨ db.snapshot id = none

theorem find_lt_next {db : Database} {id : Nat} {s : Store.Snapshot} (h : db.snapshot id = some s) :
    id < db.jobRuns.next := by
  obtain ⟨x, hx, -⟩ := Database.snapshot_eq_some.mp h
  exact Table.lt_next_of_find hx

theorem Reruns.reproduced {db₀ db : Database} {id₀ id : Nat} (lib : Library)
    (hrefs : db₀.References) (hwritten : FullyWritten db₀ id₀) (h : Reruns db₀ id₀ db id) :
    Reproduced db₀ id₀ db id := by
  obtain ⟨s, hs, hwhole⟩ := hwritten
  induction h with
  | original => exact ⟨hrefs, find_lt_next hs, .inl rfl⟩
  | elapse _ hrun hadds ih =>
      refine ⟨ih.references.run hrun, ih.known.trans_le (next_le hrun).1, ?_⟩
      rcases Database.snapshot_run hrun hadds ih.known with hkept | hgone
      · rw [hkept]
        exact ih.snapshot
      · exact .inr hgone
  | @rerun w w' id copy parent clock _ halone ih =>
      have hrefs' := references_undisturbed lib halone ih.references
      rcases ih.snapshot with hsame | hgone
      · rcases alone_rerunJob_of_whole clock parent ih.references
          (hsame.trans hs) hwhole with ⟨e, -, herror⟩ | ⟨w'', hok, hcopy, -⟩
        · cases herror.symm.trans halone
        · cases hok.symm.trans halone
          exact ⟨hrefs', find_lt_next hcopy, .inl (hcopy.trans hs.symm)⟩
      · rcases alone_rerunJob clock w id parent with
          ⟨e, -, herror⟩ | hrerun
        · cases herror.symm.trans halone
        · rw [Database.snapshot_eq_none.mp hgone, halone] at hrerun
          cases hrerun

/-- **A rerun**, of any run in a chain of reruns of a fully written run, writes the job
fields, parameters, task snapshots and notifications of the first run, row by row, fresh and
under no schedule; where it writes none, the run has been deleted or the parent is refused. -/
theorem rerun_reproduces (db₀ : Database) (id₀ : Nat) (hrefs : db₀.References)
    (hwritten : FullyWritten db₀ id₀) (w : World) (id : Nat) (hchain : Reruns db₀ id₀ w.db id)
    (parent : Option Nat) (clock : World → Instant) :
    ∃ answer w', (rerunJob id parent).alone (undisturbed clock) w = some (answer, w') ∧
      match answer with
      | .ok copy => w'.db.snapshot copy = db₀.snapshot id₀ ∧
          Fresh none (parent.filter w.db.hasTaskRunAttempt) w'.db copy
      | .error e => w' = w ∧ (w.db.jobRuns.find id = none ∨
          (resolveParentTaskRunAttempt parent).alone (undisturbed clock) w =
            some (.error e, w)) := by
  have hreproduced := hchain.reproduced ⟨fun _ => "", fun _ _ _ => []⟩ hrefs hwritten
  obtain ⟨s, hs, hwhole⟩ := hwritten
  rcases hreproduced.snapshot with hsame | hgone
  · rcases alone_rerunJob_of_whole clock parent hreproduced.references
      (hsame.trans hs) hwhole with ⟨e, hrefused, herror⟩ | ⟨w', hok, hcopy, hfresh⟩
    · exact ⟨_, _, herror, rfl, .inr hrefused⟩
    · exact ⟨_, _, hok, hcopy.trans hs.symm, hfresh⟩
  · have hnone := Database.snapshot_eq_none.mp hgone
    rcases alone_rerunJob clock w id parent with
      ⟨e, -, herror⟩ | hrerun
    · exact ⟨_, _, herror, rfl, .inl hnone⟩
    · rw [hnone] at hrerun
      exact ⟨_, _, hrerun, rfl, .inl hnone⟩

namespace Replay

/-- A job of two tasks, with parameters and a notification. -/
def twoTasks : Config :=
  { config with
    jobs := [{ job with
      parameters := [("table", "runs")], onFailureRecipients := [(.email, ["data"])] }]
    tasks := [task "extract" [], { task "load" ["extract"] with env := [("MODE", "full")] }] }

/-- It has been submitted. -/
def submittedTwo : World :=
  (((submitJob twoTasks "etl" [] 0 (some "nightly") none).alone (undisturbed fun _ => 5)
    .fresh).getD (.ok 0, .fresh)).2

/-- The run is set to running. -/
def runningTwo : World :=
  { submittedTwo with
    db := submittedTwo.db.updateJobRuns { id := some 1 } { status := some .running } }

/-- And rerun. -/
def rerunTwo : World :=
  (((rerunJob 1 none).alone (undisturbed fun _ => 6) runningTwo).getD (.ok 0, .fresh)).2

end Replay

open Replay in
/-- The rerun of the rerun of a submission that has been set to running since. -/
theorem rerun_reproduces_twoTasks :
    (submitJob twoTasks "etl" [] 0 (some "nightly") none).alone (undisturbed fun _ => 5) .fresh =
        some (.ok 1, submittedTwo) ∧
      (rerunJob 1 none).alone (undisturbed fun _ => 6) runningTwo = some (.ok 2, rerunTwo) ∧
        ∃ answer w', (rerunJob 2 none).alone (undisturbed fun _ => 7) rerunTwo =
            some (answer, w') ∧
          match answer with
          | .ok copy => w'.db.snapshot copy = submittedTwo.db.snapshot 1 ∧
              Fresh none none w'.db copy
          | .error e => w' = rerunTwo ∧ (rerunTwo.db.jobRuns.find 2 = none ∨
              (resolveParentTaskRunAttempt none).alone (undisturbed fun _ => 7) rerunTwo =
                some (.error e, rerunTwo)) := by
  have hsubmit : (submitJob twoTasks "etl" [] 0 (some "nightly") none).alone
      (undisturbed fun _ => 5) .fresh = some (.ok 1, submittedTwo) := rfl
  have hrerun : (rerunJob 1 none).alone (undisturbed fun _ => 6) runningTwo =
      some (.ok 2, rerunTwo) := rfl
  have hfresh : World.fresh.db.References := Database.referencesHold_iff.mp rfl
  have hwritten : FullyWritten submittedTwo.db 1 :=
    (written_of_submitJob hfresh (by decide) hsubmit).1
  have hrunning : Reruns submittedTwo.db 1 runningTwo.db 1 :=
    .elapse (q := .updateJobRuns { id := some 1 } { status := some .running }) .original
      (rfl : Write.run _ 0 _ = _) not_false
  exact ⟨hsubmit, hrerun, rerun_reproduces submittedTwo.db 1
    (references_undisturbed library hsubmit hfresh) hwritten rerunTwo 2
      (.rerun hrunning hrerun) none _⟩

end Flowlite

import Flowlite.Services.Running

/-!
# What one operation can do

Each table changes in a handful of ways, and for one row of it there are fewer
still. The `…Moves` relations list them, for the row under one key; everything
proved later about a status is a case split over one of these lists.
-/

namespace Flowlite

open Store Host Threads Crud Machine

variable {lib : Library} {cond : (flowlite lib).Condition}

/-! ## Operations and the log -/

theorem performs_cases {t : Tid} {o : Op} {w w' : World} {r : Result o}
    (h : Performs cond t o w r w') :
    ∃ ch w₁, w.outcome ch o = some (r, w₁) ∧ w' = { w₁ with log := ⟨t, o, r⟩ :: w₁.log } := by
  obtain ⟨⟨ch, hperform⟩, -⟩ := h
  obtain ⟨⟨r₁, w₁⟩, houtcome, heq⟩ := Option.map_eq_some_iff.mp hperform
  simp only [Prod.mk.injEq] at heq
  obtain ⟨rfl, rfl⟩ := heq
  exact ⟨ch, w₁, houtcome, rfl⟩

/-- An operation adds itself to the log, and nothing else. -/
theorem log_performs {t : Tid} {o : Op} {w w' : World} {r : Result o}
    (h : Performs cond t o w r w') : w'.log = ⟨t, o, r⟩ :: w.log := by
  obtain ⟨ch, w₁, houtcome, rfl⟩ := performs_cases h
  suffices w₁.log = w.log by rw [this]
  cases o
  case write q =>
    simp only [World.outcome] at houtcome
    split at houtcome <;> cases houtcome
    · cases q <;> rfl
    · rfl
  all_goals
    simp only [World.outcome, Option.some.injEq, Option.map_eq_some_iff,
      Option.bind_eq_some_iff] at houtcome
  all_goals grind [World.updateProcess, World.hold, World.killProcessGroup, World.signalGroup]

theorem log_happens {w w' : World} {kill : Tid → Bool} (h : Happens cond w w' kill) :
    w'.log = w.log := by
  obtain ⟨e, he, -⟩ := h
  cases e <;>
    simp only [World.external, Option.some.injEq, Prod.mk.injEq, Option.bind_eq_some_iff] at he <;>
    grind [World.updateProcess]

theorem next_log {c c' : (flowlite lib).Config} (h : Next cond c c') :
    c'.state.log = c.state.log ∨ ∃ e, c'.state.log = e :: c.state.log := by
  cases h with
  | run _ hperf => exact .inr ⟨_, log_performs hperf⟩
  | start _ _ => exact .inl rfl
  | env hhappens => exact .inl (log_happens hhappens)

/-- The step that added an event to the log is the operation the event records. -/
theorem performs_of_log {c c' : (flowlite lib).Config} {e : Host.Event} (h : Next cond c c')
    (hlog : c'.state.log = e :: c.state.log) :
    Performs cond e.thread e.op c.state e.result c'.state := by
  have hgrown : c'.state.log ≠ c.state.log := by
    rw [hlog]
    exact List.cons_ne_self _ _
  cases h with
  | run _ hperf =>
      have hhead := (log_performs hperf).symm.trans hlog
      obtain rfl := (List.cons.inj hhead).1
      exact hperf
  | start _ _ => exact absurd rfl hgrown
  | env hhappens => exact absurd (log_happens hhappens) hgrown

/-- What is in the log was added by a step on the way. -/
theorem reachable_of_log {c : (flowlite lib).Config} (h : Reachable cond c)
    {since before : List Host.Event} {e : Host.Event} (hlog : c.state.log = since ++ e :: before) :
    ∃ a b, Reachable cond a ∧ Next cond a b ∧ Relation.ReflTransGen (Next cond) b c ∧
      b.state.log = e :: a.state.log ∧ a.state.log = before := by
  induction h generalizing since with
  | init hfresh =>
      cases hfresh
      exact absurd hlog.symm (by simp [World.fresh])
  | @next c c' hc hn ih =>
      rcases next_log hn with hsame | ⟨e', hadded⟩
      · obtain ⟨a, b, ha, hab, hbc, hb⟩ := ih (hsame.symm.trans hlog)
        exact ⟨a, b, ha, hab, hbc.tail hn, hb⟩
      · cases since with
        | nil =>
            obtain ⟨rfl, hbefore⟩ := List.cons.inj (hadded.symm.trans hlog)
            exact ⟨c, c', hc, hn, .refl, hadded, hbefore⟩
        | cons s since =>
            have htail := (List.cons.inj (hadded.symm.trans hlog)).2
            obtain ⟨a, b, ha, hab, hbc, hb⟩ := ih htail
            exact ⟨a, b, ha, hab, hbc.tail hn, hb⟩

/-- A write either fails, and then changes nothing, or does what it says. -/
theorem write_cases {t : Tid} {q : Write} {w w' : World} {r : Result (.write q)}
    (h : Performs cond t (.write q) w r w') :
    (∃ e, r = .error e ∧ w' = { w with log := ⟨t, .write q, r⟩ :: w.log }) ∨
      ∃ now a db, q.run w.db now = some (a, db) ∧ r = .ok a ∧
        w' = { w.commit db q with log := ⟨t, .write q, r⟩ :: w.log } := by
  obtain ⟨ch, w₁, houtcome, rfl⟩ := performs_cases h
  simp only [World.outcome] at houtcome
  split at houtcome
  · rename_i a db _ hrun
    cases houtcome
    refine .inr ⟨ch.now, a, db, hrun, rfl, ?_⟩
    cases q <;> rfl
  · cases houtcome
    exact .inl ⟨_, rfl, rfl⟩

@[simp] theorem commit_db (w : World) (db : Database) (q : Write) : (w.commit db q).db = db := by
  cases q <;> rfl

@[simp] theorem commit_procs (w : World) (db : Database) (q : Write) :
    (w.commit db q).procs = w.procs := by
  cases q <;> rfl

@[simp] theorem commit_children (w : World) (db : Database) (q : Write) :
    (w.commit db q).children = w.children := by
  cases q <;> rfl

/-- A write that succeeded did what it says. -/
theorem write_ok {t : Tid} {q : Write} {w w' : World} {a : q.Answer}
    (h : Performs cond t (.write q) w (.ok a) w') : ∃ now, q.run w.db now = some (a, w'.db) := by
  rcases write_cases h with ⟨e, he, -⟩ | ⟨now, b, db, hrun, hb, rfl⟩
  · cases he
  · cases hb
    exact ⟨now, by simpa using hrun⟩

/-- A write that failed changed nothing. -/
theorem write_error {t : Tid} {q : Write} {w w' : World} {e : Err}
    (h : Performs cond t (.write q) w (.error e) w') : w'.db = w.db := by
  rcases write_cases h with ⟨e', -, rfl⟩ | ⟨now, b, db, -, hb, -⟩
  · rfl
  · cases hb

@[simp] theorem updateProcess_db (w : World) (n : Nat) (f : Patch Process) :
    (w.updateProcess n f).db = w.db := rfl

@[simp] theorem hold_db (w : World) (n : Nat) (h : Holder) : (w.hold n h).db = w.db := rfl

@[simp] theorem killProcessGroup_db (w : World) (n : Nat) :
    (w.killProcessGroup n).db = w.db := by
  unfold World.killProcessGroup
  split <;> rfl

/-- Only a write changes the database. -/
theorem db_of_not_write {t : Tid} {o : Op} {w w' : World} {r : Result o}
    (h : Performs cond t o w r w') (ho : ∀ q, o ≠ .write q) : w'.db = w.db := by
  obtain ⟨ch, w₁, houtcome, rfl⟩ := performs_cases h
  cases o
  case write q => exact absurd rfl (ho q)
  all_goals
    simp only [World.outcome, Option.some.injEq, Option.map_eq_some_iff,
      Option.bind_eq_some_iff] at houtcome
  all_goals grind [updateProcess_db, hold_db, killProcessGroup_db, World.signalGroup]

/-- The operation answered. -/
def Succeeded {o : Op} (r : Result o) : Prop := ∃ a, r = .ok a

/-- The database after a step: as it was, or as one write made it. -/
theorem db_cases {t : Tid} {o : Op} {w w' : World} {r : Result o}
    (h : Performs cond t o w r w') :
    w'.db = w.db ∨ Succeeded r ∧ ∃ q now a, o = .write q ∧ q.run w.db now = some (a, w'.db) := by
  cases o
  case write q =>
    rcases write_cases h with ⟨e, -, rfl⟩ | ⟨now, a, db, hrun, hok, rfl⟩
    · exact .inl rfl
    · exact .inr ⟨⟨a, hok⟩, q, now, a, rfl, by simpa using hrun⟩
  all_goals exact .inl (db_of_not_write h fun q => nofun)

/-! ## One row of a table -/

/-- What a write does to the job run with an id. -/
inductive JobRunMoves (db : Database) (q : Write) (id : Nat) :
    Option JobRun → Option JobRun → Prop
  | same {a : Option JobRun} : JobRunMoves db q id a a
  | inserted {i : InsertJobRunInput} {tasks : List String} {n : Nat} {now : Instant} :
      q = .insertJobRun i tasks n → id = db.jobRuns.next →
      JobRunMoves db q id none (some ((i.draft now).row id))
  | updated {f : UpdateJobRunsFilter} {i : UpdateJobRunsInput} {r : JobRun} :
      q = .updateJobRuns f i → f.holds r = true → r.id = id →
      JobRunMoves db q id (some r) (some (i.patch.apply r))
  | tombstoned {deletedAt : Instant} {r : JobRun} :
      q = .deleteJobRun id deletedAt → r.status = .scheduled → r.id = id →
      JobRunMoves db q id (some r)
        (some { r with status := .deleted, finishedAt := some deletedAt })
  | removed {f : DeleteJobRunsFilter} {r : JobRun} :
      q = .deleteJobRunsWithChildren f → id ∈ db.deletedBy f → JobRunMoves db q id (some r) none

/-- What a write does to the task run with an id. -/
inductive TaskRunMoves (db : Database) (q : Write) (id : Nat) :
    Option TaskRun → Option TaskRun → Prop
  | same {a : Option TaskRun} : TaskRunMoves db q id a a
  | inserted {i : InsertTaskRunInput} {now : Instant} :
      q = .insertTaskRun i → id = db.taskRuns.next → (db.jobRuns.find i.jobRunId).isSome →
      (∀ r ∈ db.taskRuns.rows, r.jobRunId = i.jobRunId → r.taskId = i.taskId →
        r.jobId ≠ i.jobId) →
      TaskRunMoves db q id none (some ((i.draft now).row id))
  | updated {f : UpdateTaskRunsFilter} {i : UpdateTaskRunsInput} {r : TaskRun} :
      q = .updateTaskRuns f i → f.holds r = true → r.id = id →
      TaskRunMoves db q id (some r) (some (i.patch.apply r))
  | tombstoned {deletedAt : Instant} {r : TaskRun} {j : JobRun} :
      q = .deleteJobRun r.jobRunId deletedAt → db.jobRuns.find r.jobRunId = some j →
      j.status = .scheduled → r.id = id →
      TaskRunMoves db q id (some r)
        (some { r with status := .skipped, finishedAt := some deletedAt })
  | removed {f : DeleteJobRunsFilter} {r : TaskRun} :
      q = .deleteJobRunsWithChildren f → r.jobRunId ∈ db.deletedBy f →
      TaskRunMoves db q id (some r) none

/-- What a write does to the attempt with an id. -/
inductive TaskRunAttemptMoves (db : Database) (q : Write) (id : Nat) :
    Option TaskRunAttempt → Option TaskRunAttempt → Prop
  | same {a : Option TaskRunAttempt} : TaskRunAttemptMoves db q id a a
  | inserted {i : InsertTaskRunAttemptInput} {now : Instant} :
      q = .insertTaskRunAttempt i → id = db.taskRunAttempts.next →
      (db.taskRuns.find i.taskRunId).isSome → (db.jobRuns.find i.jobRunId).isSome →
      (∀ r ∈ db.taskRunAttempts.rows, r.taskRunId = i.taskRunId → r.attempt ≠ i.attempt) →
      TaskRunAttemptMoves db q id none (some ((i.draft now).row id))
  | updated {f : UpdateTaskRunAttemptsFilter} {i : UpdateTaskRunAttemptsInput}
      {r : TaskRunAttempt} :
      q = .updateTaskRunAttempts f i → f.holds r = true → r.id = id →
      TaskRunAttemptMoves db q id (some r) (some (i.patch.apply r))
  | removed {f : DeleteJobRunsFilter} {r : TaskRunAttempt} :
      q = .deleteJobRunsWithChildren f → r.jobRunId ∈ db.deletedBy f →
      TaskRunAttemptMoves db q id (some r) none

/-- What a write does to the notification with an id. -/
inductive JobRunNotificationMoves (db : Database) (q : Write) (id : Nat) :
    Option JobRunNotification → Option JobRunNotification → Prop
  | same {a : Option JobRunNotification} : JobRunNotificationMoves db q id a a
  | inserted {i : InsertJobRunNotificationInput} {now : Instant} :
      q = .insertJobRunNotification i → id = db.jobRunNotifications.next →
      (db.jobRuns.find i.jobRunId).isSome →
      JobRunNotificationMoves db q id none (some ((i.draft now).row id))
  | updated {i : UpdateJobRunNotificationsInput} {r : JobRunNotification} :
      q = .updateJobRunNotification id i → r.id = id →
      JobRunNotificationMoves db q id (some r) (some (i.patch.apply r))
  | removed {f : DeleteJobRunsFilter} {r : JobRunNotification} :
      q = .deleteJobRunsWithChildren f → r.jobRunId ∈ db.deletedBy f →
      JobRunNotificationMoves db q id (some r) none

section Moves

variable {db db' : Database} {q : Write} {now : Instant} {a : q.Answer}

theorem jobRun_moves (h : q.run db now = some (a, db')) (id : Nat) :
    JobRunMoves db q id (db.jobRuns.find id) (db'.jobRuns.find id) := by
  cases q with
  | insertJobRun i tasks n =>
      simp only [Write.run, Option.ite_none_right_eq_some, Option.some.injEq,
        Prod.mk.injEq] at h
      obtain ⟨-, -, rfl⟩ := h
      rw [Table.find_insert]
      split
      · rename_i hid
        rw [hid, Table.find_eq_none_of_le (le_refl _)]
        exact .inserted rfl rfl
      · exact .same
  | updateJobRuns f i =>
      simp only [Write.run, Option.some.injEq, Prod.mk.injEq] at h
      obtain ⟨-, rfl⟩ := h
      simp only [Database.updateJobRuns, Table.find_update]
      cases hf : db.jobRuns.find id with
      | none => exact .same
      | some r =>
          cases hr : f.holds r with
          | false => simpa [hr] using JobRunMoves.same
          | true => simpa [hr] using JobRunMoves.updated rfl hr (Table.key_of_find hf)
  | deleteJobRun jobRunId deletedAt =>
      simp only [Write.run] at h
      split at h
      · rename_i hs
        cases h
        simp only [Database.tombstone, Database.updateJobRuns, Database.updateTaskRuns,
          Table.find_update]
        cases hf : db.jobRuns.find id with
        | none => exact .same
        | some r =>
            have hid := Table.key_of_find hf
            by_cases hj : id = jobRunId
            · subst hj
              rw [hf] at hs
              have hr : r.id = id := hid
              have hs : r.status = .scheduled := by simpa using hs
              have : JobRunMoves db (.deleteJobRun id deletedAt) id (some r)
                  (some { r with status := .deleted, finishedAt := some deletedAt }) :=
                .tombstoned rfl hs hr
              simpa [UpdateJobRunsFilter.holds, UpdateJobRunsInput.patch, hr] using this
            · have hr : ¬ r.id = jobRunId := fun h' => hj (hid.symm.trans h')
              simpa [UpdateJobRunsFilter.holds, hr] using JobRunMoves.same
      · cases h
        exact .same
  | deleteJobRunsWithChildren f =>
      obtain ⟨-, rfl, -⟩ := Database.run_deleteJobRunsWithChildren h
      simp only [Database.deleteRows, Table.find_delete]
      cases hf : db.jobRuns.find id with
      | none => exact .same
      | some r =>
          have hkey : r.id = id := Table.key_of_find hf
          by_cases hr : id ∈ db.deletedBy f
          · simpa [Option.filter, hkey, hr] using JobRunMoves.removed rfl hr
          · simpa [Option.filter, hkey, hr] using JobRunMoves.same
  | _ =>
      simp only [Write.run, Option.ite_none_right_eq_some, Option.some.injEq,
        Prod.mk.injEq] at h
      grind [JobRunMoves, Database.updateTaskRuns, Database.updateTaskRunAttempts]

theorem taskRun_moves (h : q.run db now = some (a, db')) (id : Nat) :
    TaskRunMoves db q id (db.taskRuns.find id) (db'.taskRuns.find id) := by
  cases q with
  | insertTaskRun i =>
      simp only [Write.run, Option.ite_none_right_eq_some, Option.some.injEq,
        Prod.mk.injEq] at h
      obtain ⟨hchecks, -, rfl⟩ := h
      rw [Table.find_insert]
      split
      · rename_i hid
        rw [hid, Table.find_eq_none_of_le (le_refl _)]
        simp only [Bool.and_eq_true, Bool.not_eq_true', List.any_eq_false,
          decide_eq_true_eq, not_and] at hchecks
        exact .inserted rfl rfl hchecks.1 fun r hr h₁ h₂ => hchecks.2 r hr ⟨h₁, h₂⟩
      · exact .same
  | updateTaskRuns f i =>
      simp only [Write.run, Option.some.injEq, Prod.mk.injEq] at h
      obtain ⟨-, rfl⟩ := h
      simp only [Database.updateTaskRuns, Table.find_update]
      cases hf : db.taskRuns.find id with
      | none => exact .same
      | some r =>
          cases hr : f.holds r with
          | false => simpa [hr] using TaskRunMoves.same
          | true => simpa [hr] using TaskRunMoves.updated rfl hr (Table.key_of_find hf)
  | deleteJobRun jobRunId deletedAt =>
      simp only [Write.run] at h
      split at h
      · rename_i hs
        cases h
        simp only [Database.tombstone, Database.updateJobRuns, Database.updateTaskRuns,
          Table.find_update]
        obtain ⟨j, hj, hscheduled⟩ : ∃ j, db.jobRuns.find jobRunId = some j ∧
            j.status = .scheduled := by
          cases hj : db.jobRuns.find jobRunId with
          | none => simp [hj] at hs
          | some j => exact ⟨j, rfl, by simpa [hj] using hs⟩
        cases hf : db.taskRuns.find id with
        | none => exact .same
        | some r =>
            by_cases hr : r.jobRunId = jobRunId
            · subst hr
              have : TaskRunMoves db (.deleteJobRun r.jobRunId deletedAt) id (some r)
                  (some { r with status := .skipped, finishedAt := some deletedAt }) :=
                .tombstoned rfl hj hscheduled (Table.key_of_find hf)
              simpa [UpdateTaskRunsFilter.holds, UpdateTaskRunsInput.patch] using this
            · simpa [UpdateTaskRunsFilter.holds, hr] using TaskRunMoves.same
      · cases h
        exact .same
  | deleteJobRunsWithChildren f =>
      obtain ⟨-, rfl, -⟩ := Database.run_deleteJobRunsWithChildren h
      simp only [Database.deleteRows, Table.find_delete]
      cases hf : db.taskRuns.find id with
      | none => exact .same
      | some r =>
          by_cases hr : r.jobRunId ∈ db.deletedBy f
          · simpa [Option.filter, hr] using TaskRunMoves.removed rfl hr
          · simpa [Option.filter, hr] using TaskRunMoves.same
  | _ =>
      simp only [Write.run, Option.ite_none_right_eq_some, Option.some.injEq,
        Prod.mk.injEq] at h
      grind [TaskRunMoves, Database.updateJobRuns, Database.updateTaskRunAttempts]

theorem taskRunAttempt_moves (h : q.run db now = some (a, db')) (id : Nat) :
    TaskRunAttemptMoves db q id (db.taskRunAttempts.find id) (db'.taskRunAttempts.find id) := by
  cases q with
  | insertTaskRunAttempt i =>
      simp only [Write.run, Option.ite_none_right_eq_some, Option.some.injEq,
        Prod.mk.injEq] at h
      obtain ⟨hchecks, -, rfl⟩ := h
      rw [Table.find_insert]
      split
      · rename_i hid
        rw [hid, Table.find_eq_none_of_le (le_refl _)]
        simp only [Bool.and_eq_true, Bool.not_eq_true', List.any_eq_false,
          decide_eq_true_eq, not_and] at hchecks
        exact .inserted rfl rfl hchecks.1.1 hchecks.1.2 fun r hr h₁ h₂ => hchecks.2 r hr h₁ h₂
      · exact .same
  | updateTaskRunAttempts f i =>
      simp only [Write.run, Option.some.injEq, Prod.mk.injEq] at h
      obtain ⟨-, rfl⟩ := h
      simp only [Database.updateTaskRunAttempts, Table.find_update]
      cases hf : db.taskRunAttempts.find id with
      | none => exact .same
      | some r =>
          cases hr : f.holds r with
          | false => simpa [hr] using TaskRunAttemptMoves.same
          | true => simpa [hr] using TaskRunAttemptMoves.updated rfl hr (Table.key_of_find hf)
  | deleteJobRunsWithChildren f =>
      obtain ⟨-, rfl, -⟩ := Database.run_deleteJobRunsWithChildren h
      simp only [Database.deleteRows, Table.find_delete]
      cases hf : db.taskRunAttempts.find id with
      | none => exact .same
      | some r =>
          by_cases hr : r.jobRunId ∈ db.deletedBy f
          · simpa [Option.filter, hr] using TaskRunAttemptMoves.removed rfl hr
          · simpa [Option.filter, hr] using TaskRunAttemptMoves.same
  | deleteJobRun jobRunId deletedAt =>
      simp only [Write.run] at h
      split at h <;> cases h <;> exact .same
  | _ =>
      simp only [Write.run, Option.ite_none_right_eq_some, Option.some.injEq,
        Prod.mk.injEq] at h
      grind [TaskRunAttemptMoves, Database.updateJobRuns, Database.updateTaskRuns]

theorem jobRunNotification_moves (h : q.run db now = some (a, db')) (id : Nat) :
    JobRunNotificationMoves db q id (db.jobRunNotifications.find id)
      (db'.jobRunNotifications.find id) := by
  cases q with
  | insertJobRunNotification i =>
      simp only [Write.run, Option.ite_none_right_eq_some, Option.some.injEq,
        Prod.mk.injEq] at h
      obtain ⟨hjob, -, rfl⟩ := h
      rw [Table.find_insert]
      split
      · rename_i hid
        rw [hid, Table.find_eq_none_of_le (le_refl _)]
        exact .inserted rfl rfl hjob
      · exact .same
  | updateJobRunNotification nid i =>
      simp only [Write.run, Option.some.injEq, Prod.mk.injEq] at h
      obtain ⟨-, rfl⟩ := h
      simp only [Table.find_update]
      cases hf : db.jobRunNotifications.find id with
      | none => exact .same
      | some r =>
          have hkey : r.id = id := Table.key_of_find hf
          by_cases hn : id = nid
          · subst hn
            simpa [hkey] using JobRunNotificationMoves.updated rfl hkey
          · simpa [hkey, hn] using JobRunNotificationMoves.same
  | deleteJobRunsWithChildren f =>
      obtain ⟨-, rfl, -⟩ := Database.run_deleteJobRunsWithChildren h
      simp only [Database.deleteRows, Table.find_delete]
      cases hf : db.jobRunNotifications.find id with
      | none => exact .same
      | some r =>
          by_cases hr : r.jobRunId ∈ db.deletedBy f
          · simpa [Option.filter, hr] using JobRunNotificationMoves.removed rfl hr
          · simpa [Option.filter, hr] using JobRunNotificationMoves.same
  | deleteJobRun jobRunId deletedAt =>
      simp only [Write.run] at h
      split at h <;> cases h <;> exact .same
  | _ =>
      simp only [Write.run, Option.ite_none_right_eq_some, Option.some.injEq,
        Prod.mk.injEq] at h
      grind [JobRunNotificationMoves, Database.updateJobRuns, Database.updateTaskRuns,
        Database.updateTaskRunAttempts]

end Moves

/-! ## Where a row comes from

A row that is there after a step was there before it, was inserted by it, or is
what the step made of the row that was there. -/

section Steps

variable {t : Tid} {o : Op} {w w' : World} {r : Result o}

theorem jobRun_origin (h : Performs cond t o w r w') {id : Nat} {x' : JobRun}
    (hx' : w'.db.jobRuns.find id = some x') :
    w.db.jobRuns.find id = some x' ∨
      (∃ i tasks n now, o = .write (.insertJobRun i tasks n) ∧ Succeeded r ∧
        id = w.db.jobRuns.next ∧ x' = (i.draft now).row id) ∨
      ∃ x, w.db.jobRuns.find id = some x ∧
        ((∃ f i, o = .write (.updateJobRuns f i) ∧ Succeeded r ∧ f.holds x = true ∧
            x' = i.patch.apply x) ∨
          ∃ now, o = .write (.deleteJobRun id now) ∧ Succeeded r ∧ x.status = .scheduled ∧
            x' = { x with status := .deleted, finishedAt := some now }) := by
  rcases db_cases h with heq | ⟨hok, q, now, a, rfl, hrun⟩
  · exact .inl (by rwa [heq] at hx')
  · have hmoves := jobRun_moves hrun id
    rw [hx'] at hmoves
    generalize hx : w.db.jobRuns.find id = before at hmoves
    cases hmoves with
    | same => exact .inl rfl
    | inserted hq hid => exact .inr (.inl ⟨_, _, _, _, by rw [hq], hok, hid, rfl⟩)
    | updated hq hf hid => exact .inr (.inr ⟨_, rfl, .inl ⟨_, _, by rw [hq], hok, hf, rfl⟩⟩)
    | tombstoned hq hs hid => exact .inr (.inr ⟨_, rfl, .inr ⟨_, by rw [hq], hok, hs, rfl⟩⟩)

/-- A run that is still there was there before. -/
theorem jobRun_there_before (h : Performs cond t o w r w') {id : Nat}
    (hid : id < w.db.jobRuns.next) (hthere : (w'.db.jobRuns.find id).isSome = true) :
    (w.db.jobRuns.find id).isSome = true := by
  obtain ⟨j', hj'⟩ := Option.isSome_iff_exists.mp hthere
  rcases jobRun_origin h hj' with hj | ⟨i, tasks, n, now, -, -, hnext, -⟩ | ⟨j, hj, -⟩
  · exact Option.isSome_of_eq_some hj
  · exact absurd hid (by omega)
  · exact Option.isSome_of_eq_some hj

theorem taskRun_origin (h : Performs cond t o w r w') {id : Nat} {x' : TaskRun}
    (hx' : w'.db.taskRuns.find id = some x') :
    w.db.taskRuns.find id = some x' ∨
      (∃ i now, o = .write (.insertTaskRun i) ∧ Succeeded r ∧ id = w.db.taskRuns.next ∧
        (w.db.jobRuns.find i.jobRunId).isSome ∧
        (∀ y ∈ w.db.taskRuns.rows, y.jobRunId = i.jobRunId → y.taskId = i.taskId →
          y.jobId ≠ i.jobId) ∧ x' = (i.draft now).row id) ∨
      ∃ x, w.db.taskRuns.find id = some x ∧
        ((∃ f i, o = .write (.updateTaskRuns f i) ∧ Succeeded r ∧ f.holds x = true ∧
            x' = i.patch.apply x) ∨
          ∃ now j, o = .write (.deleteJobRun x.jobRunId now) ∧ Succeeded r ∧
            w.db.jobRuns.find x.jobRunId = some j ∧ j.status = .scheduled ∧
            x' = { x with status := .skipped, finishedAt := some now }) := by
  rcases db_cases h with heq | ⟨hok, q, now, a, rfl, hrun⟩
  · exact .inl (by rwa [heq] at hx')
  · have hmoves := taskRun_moves hrun id
    rw [hx'] at hmoves
    generalize hx : w.db.taskRuns.find id = before at hmoves
    cases hmoves with
    | same => exact .inl rfl
    | inserted hq hid hjob hunique =>
        exact .inr (.inl ⟨_, _, by rw [hq], hok, hid, hjob, hunique, rfl⟩)
    | updated hq hf hid => exact .inr (.inr ⟨_, rfl, .inl ⟨_, _, by rw [hq], hok, hf, rfl⟩⟩)
    | tombstoned hq hj hs hid =>
        exact .inr (.inr ⟨_, rfl, .inr ⟨_, _, by rw [hq], hok, hj, hs, rfl⟩⟩)

theorem taskRunAttempt_origin (h : Performs cond t o w r w') {id : Nat} {x' : TaskRunAttempt}
    (hx' : w'.db.taskRunAttempts.find id = some x') :
    w.db.taskRunAttempts.find id = some x' ∨
      (∃ i now, o = .write (.insertTaskRunAttempt i) ∧ Succeeded r ∧
        id = w.db.taskRunAttempts.next ∧
        (w.db.taskRuns.find i.taskRunId).isSome ∧ (w.db.jobRuns.find i.jobRunId).isSome ∧
        (∀ y ∈ w.db.taskRunAttempts.rows, y.taskRunId = i.taskRunId → y.attempt ≠ i.attempt) ∧
        x' = (i.draft now).row id) ∨
      ∃ x, w.db.taskRunAttempts.find id = some x ∧ ∃ f i,
        o = .write (.updateTaskRunAttempts f i) ∧ Succeeded r ∧ f.holds x = true ∧
          x' = i.patch.apply x := by
  rcases db_cases h with heq | ⟨hok, q, now, a, rfl, hrun⟩
  · exact .inl (by rwa [heq] at hx')
  · have hmoves := taskRunAttempt_moves hrun id
    rw [hx'] at hmoves
    generalize hx : w.db.taskRunAttempts.find id = before at hmoves
    cases hmoves with
    | same => exact .inl rfl
    | inserted hq hid htask hjob hunique =>
        exact .inr (.inl ⟨_, _, by rw [hq], hok, hid, htask, hjob, hunique, rfl⟩)
    | updated hq hf hid => exact .inr (.inr ⟨_, rfl, _, _, by rw [hq], hok, hf, rfl⟩)

theorem jobRunNotification_origin (h : Performs cond t o w r w') {id : Nat}
    {x' : JobRunNotification} (hx' : w'.db.jobRunNotifications.find id = some x') :
    w.db.jobRunNotifications.find id = some x' ∨
      (∃ i now, o = .write (.insertJobRunNotification i) ∧ Succeeded r ∧
        id = w.db.jobRunNotifications.next ∧ (w.db.jobRuns.find i.jobRunId).isSome ∧
        x' = (i.draft now).row id) ∨
      ∃ x i, w.db.jobRunNotifications.find id = some x ∧
        o = .write (.updateJobRunNotification id i) ∧ Succeeded r ∧ x' = i.patch.apply x := by
  rcases db_cases h with heq | ⟨hok, q, now, a, rfl, hrun⟩
  · exact .inl (by rwa [heq] at hx')
  · have hmoves := jobRunNotification_moves hrun id
    rw [hx'] at hmoves
    generalize hx : w.db.jobRunNotifications.find id = before at hmoves
    cases hmoves with
    | same => exact .inl rfl
    | inserted hq hid hjob => exact .inr (.inl ⟨_, _, by rw [hq], hok, hid, hjob, rfl⟩)
    | updated hq hid => exact .inr (.inr ⟨_, _, rfl, by rw [hq], hok, rfl⟩)

/-! ## What becomes of a row

It is removed with its job run, or keeps everything but its status and stamps. -/

/-- Two rows of one job run. -/
def JobRun.Same (x y : JobRun) : Prop :=
  y = { x with status := y.status, startedAt := y.startedAt, finishedAt := y.finishedAt }

/-- Two rows of one task run. -/
def TaskRun.Same (x y : TaskRun) : Prop :=
  y = { x with status := y.status, startedAt := y.startedAt, finishedAt := y.finishedAt }

/-- Two rows of one attempt. -/
def TaskRunAttempt.Same (x y : TaskRunAttempt) : Prop :=
  y = { x with
    status := y.status, startedAt := y.startedAt, finishedAt := y.finishedAt
    processGroupId := y.processGroupId, output := y.output, waitingSince := y.waitingSince }

/-- The run is removed by this step, with everything that hangs off it. -/
def Removes (w : World) (o : Op) (r : Result o) (id : Nat) : Prop :=
  Succeeded r ∧ ∃ f, o = .write (.deleteJobRunsWithChildren f) ∧ id ∈ w.db.deletedBy f

theorem Removes.gone (h : Performs cond t o w r w') {id : Nat} (hr : Removes w o r id) :
    w'.db.jobRuns.find id = none ∧ (∀ x ∈ w'.db.taskRuns.rows, x.jobRunId ≠ id) ∧
      (∀ x ∈ w'.db.taskRunAttempts.rows, x.jobRunId ≠ id) ∧ w'.db.referencesHold = true := by
  obtain ⟨⟨ids, rfl⟩, f, rfl, hid⟩ := hr
  obtain ⟨now, hrun⟩ := write_ok h
  obtain ⟨-, hdb, hrefs⟩ := Database.run_deleteJobRunsWithChildren hrun
  have hrefs := hrefs (List.ne_nil_of_mem hid)
  rw [hdb] at hrefs ⊢
  refine ⟨?_, fun x hx => ?_, fun x hx => ?_, hrefs⟩
  · refine Table.find_eq_none.mpr fun x hx hkey => ?_
    have hkey : x.id = id := hkey
    simpa [hkey, hid] using (Table.mem_delete.mp hx).2
  · rintro rfl
    simpa [hid] using (Table.mem_delete.mp hx).2
  · rintro rfl
    simpa [hid] using (Table.mem_delete.mp hx).2

theorem jobRun_fate (h : Performs cond t o w r w') {id : Nat} {x : JobRun}
    (hx : w.db.jobRuns.find id = some x) :
    Removes w o r id ∨ ∃ x', w'.db.jobRuns.find id = some x' ∧ JobRun.Same x x' := by
  rcases db_cases h with heq | ⟨hok, q, now, a, rfl, hrun⟩
  · exact .inr ⟨x, by rw [heq, hx], rfl⟩
  · have hmoves := jobRun_moves hrun id
    rw [hx] at hmoves
    generalize hx' : w'.db.jobRuns.find id = after at hmoves
    cases hmoves with
    | same => exact .inr ⟨x, rfl, rfl⟩
    | updated => exact .inr ⟨_, rfl, rfl⟩
    | tombstoned => exact .inr ⟨_, rfl, rfl⟩
    | removed hq hmem => exact .inl ⟨hok, _, by rw [hq], hmem⟩

theorem taskRun_fate (h : Performs cond t o w r w') {id : Nat} {x : TaskRun}
    (hx : w.db.taskRuns.find id = some x) :
    Removes w o r x.jobRunId ∨ ∃ x', w'.db.taskRuns.find id = some x' ∧ TaskRun.Same x x' := by
  rcases db_cases h with heq | ⟨hok, q, now, a, rfl, hrun⟩
  · exact .inr ⟨x, by rw [heq, hx], rfl⟩
  · have hmoves := taskRun_moves hrun id
    rw [hx] at hmoves
    generalize hx' : w'.db.taskRuns.find id = after at hmoves
    cases hmoves with
    | same => exact .inr ⟨x, rfl, rfl⟩
    | updated => exact .inr ⟨_, rfl, rfl⟩
    | tombstoned => exact .inr ⟨_, rfl, rfl⟩
    | removed hq hmem => exact .inl ⟨hok, _, by rw [hq], hmem⟩

theorem taskRunAttempt_fate (h : Performs cond t o w r w') {id : Nat} {x : TaskRunAttempt}
    (hx : w.db.taskRunAttempts.find id = some x) :
    Removes w o r x.jobRunId ∨
      ∃ x', w'.db.taskRunAttempts.find id = some x' ∧ TaskRunAttempt.Same x x' := by
  rcases db_cases h with heq | ⟨hok, q, now, a, rfl, hrun⟩
  · exact .inr ⟨x, by rw [heq, hx], rfl⟩
  · have hmoves := taskRunAttempt_moves hrun id
    rw [hx] at hmoves
    generalize hx' : w'.db.taskRunAttempts.find id = after at hmoves
    cases hmoves with
    | same => exact .inr ⟨x, rfl, rfl⟩
    | updated => exact .inr ⟨_, rfl, rfl⟩
    | removed hq hmem => exact .inl ⟨hok, _, by rw [hq], hmem⟩

/-- A run somebody has asked to stop. -/
def IsStopped (w : World) (jobRunId : Nat) : Prop :=
  ∃ s ∈ w.db.jobRunStops.rows, s.jobRunId = jobRunId

instance (w : World) (jobRunId : Nat) : Decidable (IsStopped w jobRunId) := by
  unfold IsStopped
  infer_instance

/-- A stop goes only with its run. -/
theorem isStopped_fate (h : Performs cond t o w r w') {id : Nat} (hs : IsStopped w id) :
    Removes w o r id ∨ IsStopped w' id := by
  obtain ⟨s, hs, rfl⟩ := hs
  rcases db_cases h with heq | ⟨hok, q, now, a, rfl, hrun⟩
  · exact .inr ⟨s, by rwa [heq], rfl⟩
  cases q with
  | deleteJobRunsWithChildren f =>
      by_cases hr : s.jobRunId ∈ w.db.deletedBy f
      · exact .inl ⟨hok, f, rfl, hr⟩
      · obtain ⟨-, hdb, -⟩ := Database.run_deleteJobRunsWithChildren hrun
        rw [IsStopped, hdb]
        exact .inr ⟨s, Table.mem_delete.mpr ⟨hs, by simpa using hr⟩, rfl⟩
  | insertJobRunStop jobRunId =>
      simp only [Write.run, Option.ite_none_right_eq_some, Option.some.injEq,
        Prod.mk.injEq] at hrun
      rw [IsStopped, ← hrun.2.2]
      exact .inr ⟨s, Table.mem_insert.mpr (.inl hs), rfl⟩
  | deleteJobRun jobRunId deletedAt =>
      simp only [Write.run] at hrun
      split at hrun <;> simp only [Option.some.injEq, Prod.mk.injEq] at hrun <;>
        rw [IsStopped, ← hrun.2] <;> exact .inr ⟨s, hs, rfl⟩
  | _ =>
      simp only [Write.run, Option.ite_none_right_eq_some, Option.some.injEq,
        Prod.mk.injEq] at hrun
      refine .inr ⟨s, ?_, rfl⟩
      grind [Database.updateJobRuns, Database.updateTaskRuns, Database.updateTaskRunAttempts]

/-- A stop that was inserted is there. -/
theorem insertJobRunStop_stops {id n : Nat}
    (h : Performs cond t (.write (.insertJobRunStop id)) w (.ok n) w') : IsStopped w' id := by
  obtain ⟨now, hrun⟩ := write_ok h
  simp only [Write.run, Option.ite_none_right_eq_some, Option.some.injEq, Prod.mk.injEq] at hrun
  rw [IsStopped, ← hrun.2.2]
  exact ⟨_, Table.mem_insert.mpr (.inr rfl), rfl⟩

/-! ## What a step leaves alone -/

/-- The operations that may change the job run table. -/
def WritesJobRuns : Op → Prop
  | .write (.insertJobRun _ _ _) | .write (.updateJobRuns _ _) | .write (.deleteJobRun _ _)
  | .write (.deleteJobRunsWithChildren _) => True
  | _ => False

/-- The operations that may change the task run table. -/
def WritesTaskRuns : Op → Prop
  | .write (.insertTaskRun _) | .write (.updateTaskRuns _ _) | .write (.deleteJobRun _ _)
  | .write (.deleteJobRunsWithChildren _) => True
  | _ => False

/-- The operations that may change the attempt table. -/
def WritesTaskRunAttempts : Op → Prop
  | .write (.insertTaskRunAttempt _) | .write (.updateTaskRunAttempts _ _)
  | .write (.deleteJobRunsWithChildren _) => True
  | _ => False

theorem jobRuns_kept (h : Performs cond t o w r w') (ho : ¬ WritesJobRuns o) :
    w'.db.jobRuns = w.db.jobRuns := by
  rcases db_cases h with heq | ⟨hok, q, now, a, rfl, hrun⟩
  · rw [heq]
  · cases q <;> simp only [WritesJobRuns, not_true_eq_false, not_false_eq_true] at ho
    all_goals
      simp only [Write.run, Option.ite_none_right_eq_some, Option.some.injEq,
        Prod.mk.injEq] at hrun
    all_goals grind [Database.updateTaskRuns, Database.updateTaskRunAttempts]

theorem taskRuns_kept (h : Performs cond t o w r w') (ho : ¬ WritesTaskRuns o) :
    w'.db.taskRuns = w.db.taskRuns := by
  rcases db_cases h with heq | ⟨hok, q, now, a, rfl, hrun⟩
  · rw [heq]
  · cases q <;> simp only [WritesTaskRuns, not_true_eq_false, not_false_eq_true] at ho
    all_goals
      simp only [Write.run, Option.ite_none_right_eq_some, Option.some.injEq,
        Prod.mk.injEq] at hrun
    all_goals grind [Database.updateJobRuns, Database.updateTaskRunAttempts]

theorem taskRunAttempts_kept (h : Performs cond t o w r w') (ho : ¬ WritesTaskRunAttempts o) :
    w'.db.taskRunAttempts = w.db.taskRunAttempts := by
  rcases db_cases h with heq | ⟨hok, q, now, a, rfl, hrun⟩
  · rw [heq]
  · cases q <;> simp only [WritesTaskRunAttempts, not_true_eq_false, not_false_eq_true] at ho
    case deleteJobRun jobRunId deletedAt =>
      simp only [Write.run] at hrun
      split at hrun <;> simp only [Option.some.injEq, Prod.mk.injEq] at hrun <;> rw [← hrun.2]
      rfl
    all_goals
      simp only [Write.run, Option.ite_none_right_eq_some, Option.some.injEq,
        Prod.mk.injEq] at hrun
    all_goals grind [Database.updateJobRuns, Database.updateTaskRuns]

/-! ## Keys are never handed out again -/

section Next

variable {db db' : Database} {q : Write} {now : Instant} {a : q.Answer}

theorem next_le (h : q.run db now = some (a, db')) :
    db.jobRuns.next ≤ db'.jobRuns.next ∧ db.taskRuns.next ≤ db'.taskRuns.next ∧
      db.taskRunAttempts.next ≤ db'.taskRunAttempts.next ∧
      db.jobRunNotifications.next ≤ db'.jobRunNotifications.next := by
  cases q with
  | deleteJobRun jobRunId deletedAt =>
      simp only [Write.run] at h
      split at h <;> cases h <;> exact ⟨le_refl _, le_refl _, le_refl _, le_refl _⟩
  | deleteJobRunsWithChildren f =>
      obtain ⟨-, rfl, -⟩ := Database.run_deleteJobRunsWithChildren h
      exact ⟨le_refl _, le_refl _, le_refl _, le_refl _⟩
  | _ =>
      simp only [Write.run, Option.ite_none_right_eq_some, Option.some.injEq,
        Prod.mk.injEq] at h
      grind [Table.next_insert, Table.next_update, Table.next_delete, Database.updateJobRuns,
        Database.updateTaskRuns, Database.updateTaskRunAttempts, Database.deleteRows]

end Next

theorem jobRuns_next_le (h : Performs cond t o w r w') :
    w.db.jobRuns.next ≤ w'.db.jobRuns.next := by
  rcases db_cases h with heq | ⟨hok, q, now, a, rfl, hrun⟩
  · rw [heq]
  · exact (next_le hrun).1

theorem taskRuns_next_le (h : Performs cond t o w r w') :
    w.db.taskRuns.next ≤ w'.db.taskRuns.next := by
  rcases db_cases h with heq | ⟨hok, q, now, a, rfl, hrun⟩
  · rw [heq]
  · exact (next_le hrun).2.1

theorem taskRunAttempts_next_le (h : Performs cond t o w r w') :
    w.db.taskRunAttempts.next ≤ w'.db.taskRunAttempts.next := by
  rcases db_cases h with heq | ⟨hok, q, now, a, rfl, hrun⟩
  · rw [heq]
  · exact (next_le hrun).2.2.1

theorem jobRunNotifications_next_le (h : Performs cond t o w r w') :
    w.db.jobRunNotifications.next ≤ w'.db.jobRunNotifications.next := by
  rcases db_cases h with heq | ⟨hok, q, now, a, rfl, hrun⟩
  · rw [heq]
  · exact (next_le hrun).2.2.2

theorem happens_db {kill : Tid → Bool} (h : Happens cond w w' kill) : w'.db = w.db := by
  obtain ⟨e, he, -⟩ := h
  cases e <;>
    simp only [World.external, Option.some.injEq, Prod.mk.injEq, Option.bind_eq_some_iff] at he <;>
    grind [updateProcess_db]

end Steps

end Flowlite

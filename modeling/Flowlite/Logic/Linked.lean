import Flowlite.Logic.Effects

/-!
# What the database keeps by itself

The foreign keys and the unique indexes, as facts about the rows: they hold of
every database the services can reach, whatever the services do.
-/

namespace Flowlite

open Store Host Threads Machine

variable {lib : Library} {cond : (flowlite lib).Condition}

/-- Every row's references are there, and no two rows share a unique key. -/
structure Linked (db : Database) : Prop where
  jobRun_of_taskRun : ∀ r ∈ db.taskRuns.rows, (db.jobRuns.find r.jobRunId).isSome = true
  taskRun_of_attempt : ∀ a ∈ db.taskRunAttempts.rows,
    (db.taskRuns.find a.taskRunId).isSome = true
  jobRun_of_attempt : ∀ a ∈ db.taskRunAttempts.rows, (db.jobRuns.find a.jobRunId).isSome = true
  taskRun_unique : ∀ r ∈ db.taskRuns.rows, ∀ s ∈ db.taskRuns.rows, r.jobRunId = s.jobRunId →
    r.taskId = s.taskId → r.jobId = s.jobId → r.id = s.id
  attempt_unique : ∀ a ∈ db.taskRunAttempts.rows, ∀ b ∈ db.taskRunAttempts.rows,
    a.taskRunId = b.taskRunId → a.attempt = b.attempt → a.id = b.id
  attempt_of_jobRun : ∀ r ∈ db.jobRuns.rows, ∀ id ∈ r.parentTaskRunAttemptId,
    (db.taskRunAttempts.find id).isSome = true

theorem linked_empty : Linked .empty where
  jobRun_of_taskRun _ h := absurd h List.not_mem_nil
  taskRun_of_attempt _ h := absurd h List.not_mem_nil
  jobRun_of_attempt _ h := absurd h List.not_mem_nil
  taskRun_unique _ h := absurd h List.not_mem_nil
  attempt_unique _ h := absurd h List.not_mem_nil
  attempt_of_jobRun _ h := absurd h List.not_mem_nil

section Steps

variable {t : Tid} {o : Op} {w w' : World} {r : Result o}

/-- A task run after a step is an old one or the one it inserted. -/
theorem taskRun_before (h : Performs cond t o w r w') {x' : TaskRun}
    (hx' : x' ∈ w'.db.taskRuns.rows) :
    (∃ x ∈ w.db.taskRuns.rows, TaskRun.Same x x') ∨
      (∃ i, o = .write (.insertTaskRun i) ∧ x'.jobRunId = i.jobRunId ∧ x'.taskId = i.taskId ∧
        x'.jobId = i.jobId ∧ x'.status = i.status) ∧
      (w.db.jobRuns.find x'.jobRunId).isSome = true ∧ x'.id = w.db.taskRuns.next ∧
        ∀ y ∈ w.db.taskRuns.rows, y.jobRunId = x'.jobRunId → y.taskId = x'.taskId →
          y.jobId ≠ x'.jobId := by
  rcases taskRun_origin h (Table.find_of_mem hx') with hx | ⟨i, now, ho, -, hid, hjob, hunique, hnew⟩ |
    ⟨x, hx, ⟨f, i, -, -, -, hnew⟩ | ⟨now, j, -, -, -, -, hnew⟩⟩
  · exact .inl ⟨x', Table.mem_of_find hx, rfl⟩
  · have hjobRunId : x'.jobRunId = i.jobRunId := congrArg TaskRun.jobRunId hnew
    have htaskId : x'.taskId = i.taskId := congrArg TaskRun.taskId hnew
    have hjobId : x'.jobId = i.jobId := congrArg TaskRun.jobId hnew
    refine .inr ⟨⟨i, ho, hjobRunId, htaskId, hjobId, congrArg TaskRun.status hnew⟩, ?_, hid, ?_⟩
    · rwa [hjobRunId]
    · rw [hjobRunId, htaskId, hjobId]
      exact hunique
  · exact .inl ⟨x, Table.mem_of_find hx, by rw [hnew]; rfl⟩
  · exact .inl ⟨x, Table.mem_of_find hx, by rw [hnew]; rfl⟩

/-- An attempt after a step is an old one or the one it inserted. -/
theorem taskRunAttempt_before (h : Performs cond t o w r w') {x' : TaskRunAttempt}
    (hx' : x' ∈ w'.db.taskRunAttempts.rows) :
    (∃ x ∈ w.db.taskRunAttempts.rows, TaskRunAttempt.Same x x') ∨
      (∃ i, o = .write (.insertTaskRunAttempt i) ∧ x'.taskRunId = i.taskRunId ∧
        x'.jobRunId = i.jobRunId ∧ x'.attempt = i.attempt ∧ x'.status = i.status) ∧
      (w.db.taskRuns.find x'.taskRunId).isSome = true ∧
        (w.db.jobRuns.find x'.jobRunId).isSome = true ∧ x'.id = w.db.taskRunAttempts.next ∧
        ∀ y ∈ w.db.taskRunAttempts.rows, y.taskRunId = x'.taskRunId → y.attempt ≠ x'.attempt := by
  rcases taskRunAttempt_origin h (Table.find_of_mem hx') with hx |
    ⟨i, now, ho, -, hid, htask, hjob, hunique, hnew⟩ | ⟨x, hx, f, i, -, -, -, hnew⟩
  · exact .inl ⟨x', Table.mem_of_find hx, rfl⟩
  · have htaskRunId : x'.taskRunId = i.taskRunId := congrArg TaskRunAttempt.taskRunId hnew
    have hjobRunId : x'.jobRunId = i.jobRunId := congrArg TaskRunAttempt.jobRunId hnew
    have hattempt : x'.attempt = i.attempt := congrArg TaskRunAttempt.attempt hnew
    refine .inr ⟨⟨i, ho, htaskRunId, hjobRunId, hattempt, congrArg TaskRunAttempt.status hnew⟩,
      ?_, ?_, hid, ?_⟩
    · rwa [htaskRunId]
    · rwa [hjobRunId]
    · rw [htaskRunId, hattempt]
      exact hunique
  · exact .inl ⟨x, Table.mem_of_find hx, by rw [hnew]; rfl⟩

/-- What a row that survives a step references survives it too: a step that removes
a referenced row checks every reference. -/
theorem jobRun_survives (h : Performs cond t o w r w') {id : Nat}
    (hx : (w.db.jobRuns.find id).isSome = true) (hr : ¬ Removes w o r id) :
    (w'.db.jobRuns.find id).isSome = true := by
  obtain ⟨x, hx⟩ := Option.isSome_iff_exists.mp hx
  rcases jobRun_fate h hx with hremoves | ⟨x', hx', -⟩
  · exact absurd hremoves hr
  · rw [hx']
    rfl

/-- The parent of a run that is inserted is there. -/
theorem insertJobRun_parent {i : InsertJobRunInput} {tasks : List String} {n : Nat}
    {r : Result (.write (.insertJobRun i tasks n))} (hok : Succeeded r)
    (h : Performs cond t (.write (.insertJobRun i tasks n)) w r w') :
    ∀ id ∈ i.parentTaskRunAttemptId, (w.db.taskRunAttempts.find id).isSome = true := by
  obtain ⟨id, rfl⟩ := hok
  obtain ⟨now, hrun⟩ := write_ok h
  simp only [Write.run, Option.ite_none_right_eq_some] at hrun
  intro parent hparent
  have hall := hrun.1
  rw [Option.mem_def.mp hparent] at hall
  exact hall

/-- The database names the run it inserts. -/
theorem insertJobRun_answer {i : InsertJobRunInput} {tasks : List String} {n id : Nat}
    (h : Performs cond t (.write (.insertJobRun i tasks n)) w (.ok id) w') :
    id = w.db.jobRuns.next ∧ w'.db.jobRuns.next = id + 1 := by
  obtain ⟨now, hrun⟩ := write_ok h
  simp only [Write.run, Option.ite_none_right_eq_some, Option.some.injEq, Prod.mk.injEq] at hrun
  obtain ⟨-, hid, hdb⟩ := hrun
  rw [← hdb, ← hid]
  exact ⟨rfl, rfl⟩

theorem taskRunAttempt_survives (h : Performs cond t o w r w') {id : Nat}
    (hx : (w.db.taskRunAttempts.find id).isSome = true)
    (hr : w'.db.referencesHold = true → (w'.db.taskRunAttempts.find id).isSome = true) :
    (w'.db.taskRunAttempts.find id).isSome = true := by
  obtain ⟨x, hx⟩ := Option.isSome_iff_exists.mp hx
  rcases taskRunAttempt_fate h hx with hremoves | ⟨x', hx', -⟩
  · exact hr (hremoves.gone h).2.2.2
  · rw [hx']
    rfl

theorem linked_performs (hl : Linked w.db) (h : Performs cond t o w r w') : Linked w'.db where
  jobRun_of_taskRun x' hx' := by
    have hstays : ¬ Removes w o r x'.jobRunId := fun hr => (hr.gone h).2.1 x' hx' rfl
    rcases taskRun_before h hx' with ⟨x, hx, hsame⟩ | ⟨-, hjob, -⟩
    · have hid : x'.jobRunId = x.jobRunId := by rw [hsame]
      exact jobRun_survives h (hid ▸ hl.jobRun_of_taskRun x hx) hstays
    · exact jobRun_survives h hjob hstays
  taskRun_of_attempt a' ha' := by
    have hstays : ∀ y, w.db.taskRuns.find a'.taskRunId = some y →
        (w'.db.taskRuns.find a'.taskRunId).isSome = true := by
      intro y hy
      rcases taskRun_fate h hy with hremoves | ⟨y', hy', -⟩
      · have hrefs := (hremoves.gone h).2.2.2
        simp only [Database.referencesHold, Bool.and_eq_true, List.all_eq_true] at hrefs
        exact (hrefs.1.1.1.2 a' ha').1
      · rw [hy']
        rfl
    rcases taskRunAttempt_before h ha' with ⟨a, ha, hsame⟩ | ⟨-, htask, -⟩
    · have hid : a'.taskRunId = a.taskRunId := by rw [hsame]
      obtain ⟨y, hy⟩ := Option.isSome_iff_exists.mp (hl.taskRun_of_attempt a ha)
      exact hstays y (hid ▸ hy)
    · obtain ⟨y, hy⟩ := Option.isSome_iff_exists.mp htask
      exact hstays y hy
  jobRun_of_attempt a' ha' := by
    have hstays : ¬ Removes w o r a'.jobRunId := fun hr => (hr.gone h).2.2.1 a' ha' rfl
    rcases taskRunAttempt_before h ha' with ⟨a, ha, hsame⟩ | ⟨-, -, hjob, -⟩
    · have hid : a'.jobRunId = a.jobRunId := by rw [hsame]
      exact jobRun_survives h (hid ▸ hl.jobRun_of_attempt a ha) hstays
    · exact jobRun_survives h hjob hstays
  taskRun_unique x' hx' y' hy' hjobRun htask hjob := by
    rcases taskRun_before h hx' with ⟨x, hx, hxs⟩ | ⟨-, -, hxid, hxu⟩ <;>
      rcases taskRun_before h hy' with ⟨y, hy, hys⟩ | ⟨-, -, hyid, hyu⟩
    · rw [hxs, hys] at hjobRun htask hjob ⊢
      exact hl.taskRun_unique x hx y hy hjobRun htask hjob
    · rw [hxs] at hjobRun htask hjob
      exact absurd hjob (hyu x hx hjobRun htask)
    · rw [hys] at hjobRun htask hjob
      exact absurd hjob.symm (hxu y hy hjobRun.symm htask.symm)
    · rw [hxid, hyid]
  attempt_unique a' ha' b' hb' htask hattempt := by
    rcases taskRunAttempt_before h ha' with ⟨a, ha, has⟩ | ⟨-, -, -, haid, hau⟩ <;>
      rcases taskRunAttempt_before h hb' with ⟨b, hb, hbs⟩ | ⟨-, -, -, hbid, hbu⟩
    · rw [has, hbs] at htask hattempt ⊢
      exact hl.attempt_unique a ha b hb htask hattempt
    · rw [has] at htask hattempt
      exact absurd hattempt (hbu a ha htask)
    · rw [hbs] at htask hattempt
      exact absurd hattempt.symm (hau b hb htask.symm)
    · rw [haid, hbid]
  attempt_of_jobRun x' hx' id hid := by
    refine taskRunAttempt_survives h ?_ fun hrefs => ?_
    · rcases jobRun_origin h (Table.find_of_mem hx') with hx | ⟨i, tasks, n, now, rfl, hok, -, hnew⟩ |
        ⟨x, hx, ⟨f, i, -, -, -, hnew⟩ | ⟨now, -, -, -, hnew⟩⟩
      · exact hl.attempt_of_jobRun x' (Table.mem_of_find hx) id hid
      · exact insertJobRun_parent hok h id (by rwa [hnew] at hid)
      · exact hl.attempt_of_jobRun x (Table.mem_of_find hx) id (by rwa [hnew] at hid)
      · exact hl.attempt_of_jobRun x (Table.mem_of_find hx) id (by rwa [hnew] at hid)
    · simp only [Database.referencesHold, Bool.and_eq_true, List.all_eq_true] at hrefs
      have hall := hrefs.1.1.1.1.1 x' hx'
      rw [Option.mem_def.mp hid] at hall
      exact hall

end Steps

end Flowlite

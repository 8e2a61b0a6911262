import Flowlite.Logic.Rules

/-!
# The job of a run

A definition is written run first, and its task runs under the job of the run: the task
runs of a run are all of one job, so that in a run a task id names one task run.
-/

namespace Flowlite

open Store Host Threads Crud Machine Outline

variable {lib : Library} {cond : (flowlite lib).Condition}

/-- The run, if it is still there, is a run of this job. -/
def IsOfJob (id : Nat) (jobId : String) (w : World) : Prop :=
  id < w.db.jobRuns.next ∧ ∀ x, w.db.jobRuns.find id = some x → x.jobId = jobId

theorem isOfJob_permanent (id : Nat) (jobId : String) : Permanent cond (IsOfJob id jobId) where
  performs {t o w r w'} h hw := by
    refine ⟨lt_of_lt_of_le hw.1 (jobRuns_next_le h), fun x' hx' => ?_⟩
    rcases jobRun_origin h hx' with hx | ⟨i, tasks, n, now, -, -, hid, -⟩ |
      ⟨x, hx, ⟨f, i, -, -, -, hnew⟩ | ⟨now, -, -, -, hnew⟩⟩
    · exact hw.2 x' hx
    · exact absurd hw.1 (by omega)
    · rw [hnew]
      exact hw.2 x hx
    · rw [hnew]
      exact hw.2 x hx
  happens h hw := by
    unfold IsOfJob
    rwa [happens_db h]

/-- A task run is written under the job of its run. -/
def sameJob (lib : Library) : Outline (flowlite lib) where
  inv w := Linked w.db ∧ ∀ x ∈ w.db.taskRuns.rows, IsOfJob x.jobRunId x.jobId w
  pre _ o w :=
    match o with
    | .write (.insertTaskRun i) => IsOfJob i.jobRunId i.jobId w
    | _ => True
  idle _ _ := True

/-- The task runs of a run are of one job. -/
theorem jobId_eq {w : World} (hi : (sameJob lib).inv w) {x y : TaskRun}
    (hx : x ∈ w.db.taskRuns.rows) (hy : y ∈ w.db.taskRuns.rows) (hrun : x.jobRunId = y.jobRunId) :
    x.jobId = y.jobId := by
  obtain ⟨j, hj⟩ := Option.isSome_iff_exists.mp (hi.1.jobRun_of_taskRun x hx)
  rw [← (hi.2 x hx).2 j hj, ← (hi.2 y hy).2 j (hrun ▸ hj)]

/-- So a task id names one of them. -/
theorem taskRun_eq {w : World} (hi : (sameJob lib).inv w) {x y : TaskRun}
    (hx : x ∈ w.db.taskRuns.rows) (hy : y ∈ w.db.taskRuns.rows) (hrun : x.jobRunId = y.jobRunId)
    (htask : x.taskId = y.taskId) : x = y :=
  Table.eq_of_key hx hy (hi.1.taskRun_unique x hx y hy hrun htask (jobId_eq hi hx hy hrun))

/-- Any operation but one that writes a task run. -/
def WritesNoTaskRun (o : Op) : Prop := ∀ i, o ≠ .write (.insertTaskRun i)

theorem writesNoTaskRun_pre {o : Op} (ho : WritesNoTaskRun o) (t : Tid) (w : World) :
    (sameJob lib).pre t o w := by
  cases o with
  | write q =>
      cases q with
      | insertTaskRun i => exact absurd rfl (ho i)
      | _ => trivial
  | _ => trivial

theorem Silent.writesNoTaskRun {o : Op} (h : Silent o) : WritesNoTaskRun o := by
  rintro i rfl
  exact h

section Submitting

variable {t : Tid}

theorem sameJob_walk : Prog.Walk (S := flowliteOps) WritesNoTaskRun
    (fun _ p => (sameJob lib).Triple cond t (fun _ => True) p fun _ _ => True)
    (fun _ p => (sameJob lib).Triple cond t (fun _ => True) p fun _ _ => True) :=
  Triple.walk (stable_true _)
    (fun _ ho _ _ _ _ _ _ => ⟨writesNoTaskRun_pre ho _ _, fun _ => trivial⟩) fun _ _ _ => trivial

/-- The run is there first, and its task runs are written under its job. -/
theorem sameJob_insert (d : JobRunDefinition) :
    (sameJob lib).Triple cond t (fun _ => True) (insertJobRunDefinition d) fun _ _ => True := by
  refine Triple.seq (R := fun r w => ∀ id, r = .ok id → IsOfJob id d.jobId w) ?_ fun id => ?_
  · refine Triple.perform (stable_true _) (fun _ _ _ _ _ _ => trivial) ?_
    rintro w r w' - - hperf - id rfl
    obtain ⟨hid, hnext⟩ := insertJobRun_answer hperf
    refine ⟨by omega, fun x' hx' => ?_⟩
    rcases jobRun_origin hperf hx' with hx | ⟨i, tasks, n, now, ho, -, -, hnew⟩ |
      ⟨x, hx, -⟩
    · exact absurd (Table.lt_next_of_find hx) (by omega)
    · cases ho
      rw [hnew]
      rfl
    · exact absurd (Table.lt_next_of_find hx) (by omega)
  · have htasks : (sameJob lib).Triple cond t (IsOfJob id d.jobId)
        (Prog.forEach d.tasks fun task => (insertTaskRun (d.taskRunInput id task)).bind
          fun _ => .ret ()) fun _ => IsOfJob id d.jobId :=
      Triple.permanent (isOfJob_permanent id d.jobId) (Prog.Uses.forEach fun task _ =>
        Prog.Uses.bind (uses_write fun _ _ hw => hw) fun _ => Prog.uses_ret _)
    refine Triple.seq (htasks.pre fun _ _ h => h id rfl) fun _ => Triple.pre ?_ fun _ _ _ => trivial
    exact sameJob_walk.uses (Prog.Uses.bind (Prog.Uses.forEach fun n _ =>
      Prog.Uses.bind (uses_write fun _ => nofun) fun _ => Prog.uses_ret _) fun _ => Prog.uses_ret _)

end Submitting

theorem sameJob_valid (hb : cond.Le (base lib).established) : (sameJob lib).Valid cond where
  init := by
    rintro w rfl
    exact ⟨⟨linked_empty, fun x hx => absurd hx List.not_mem_nil⟩, fun _ => trivial⟩
  step t o w r w' hi hpre h := by
    refine ⟨(linked_of hb h).2, fun x' hx' => ?_⟩
    rcases taskRun_before h hx' with ⟨x, hx, hsame⟩ | ⟨⟨i, rfl, hrun, -, hjob, -⟩, -⟩
    · have hsame : x' = _ := hsame
      rw [hsame]
      exact (isOfJob_permanent _ _).performs h (hi.2 x hx)
    · rw [hrun, hjob]
      exact (isOfJob_permanent _ _).performs h hpre
  env w w' kill hi h := by
    refine ⟨⟨?_, fun x hx => ?_⟩, fun _ _ => trivial⟩
    · rw [happens_db h]
      exact hi.1
    · rw [happens_db h] at hx
      exact (isOfJob_permanent _ _).happens h (hi.2 x hx)
  idle t := stable_true t
  start := by
    have hothers : ∀ {t : Tid}, ¬ Submits t → ∀ p : Code Unit,
        (sameJob lib).Triple cond t (fun _ => True) p fun _ _ => True := by
      intro t ht p
      refine Triple.of_pre fun o w r w' _ hperf => writesNoTaskRun_pre ?_ t w
      rintro i rfl
      cases allowed_of hb hperf with
      | submitTask hsubmits => exact ht hsubmits
    refine start_triple (fun config fuel s => ?_) fun c r => ?_
    · refine Triple.pre ?_ fun _ _ _ => trivial
      cases s with
      | scheduler =>
          exact scheduler_walk sameJob_walk (fun _ ho => ho.writesNoTaskRun) sameJob_insert lib config
      | _ => exact hothers (by rintro (h | ⟨c, h⟩) <;> cases h) _
    · exact request_walk sameJob_walk (fun _ ho => ho.writesNoTaskRun) sameJob_insert
        (fun _ _ => nofun) (fun _ _ _ => nofun) (fun _ _ _ => nofun) r

end Flowlite

import Flowlite.Logic.Verdicts

/-!
# How a job run settles

`JobRunMonitor` reads the task runs of a running run and settles the run by what it read,
a few operations later. By then nothing has changed: it settles the run only when all of
its task runs are finished, and a run that is started has all of them. `jobVerdicts` is
the outline that says so.
-/

namespace Flowlite

open Store Host Threads Crud Machine Outline

variable {lib : Library} {cond : (flowlite lib).Condition} {O : Outline (flowlite lib)}

/-- What holds of every run of the system in which what is released is also started, and
nothing is before all of it has been submitted. -/
structure Complete (cond : (flowlite lib).Condition) : Prop where
  ordered : Ordered cond
  submissions : cond.Le (submissions false lib).established

theorem complete_of_starts (hc : cond.Le (startsReleased lib))
    (hs : cond.Le (awaitsSubmission false lib)) :
    ∃ cond', Entails cond cond' ∧ Complete cond' := by
  obtain ⟨c₁, h₁, ho⟩ := ordered_of_starts hc
  obtain ⟨c₂, h₂, hsubmissions⟩ :=
    (submissions_valid ho.gated.base ho.gated.jobRuns (h₁.le.trans hs)).entails
  exact ⟨c₂, h₁.trans h₂, ho.mono h₂.le, hsubmissions⟩

/-! ## The rule -/

theorem mem_taskRunsOf {db : Database} {id : Nat} {x : TaskRun} :
    x ∈ db.taskRunsOf id ↔ x ∈ db.taskRuns.rows ∧ x.jobRunId = id := by
  simp [Database.taskRunsOf]

/-- What the monitor of a run reads. -/
theorem selectTaskRuns_of (db : Database) (id : Nat) :
    db.selectTaskRuns { jobRunId := some id } = db.taskRunsOf id := by
  unfold Database.selectTaskRuns Database.taskRunsOf
  congr 1
  funext x
  simp [SelectTaskRunsFilter.holds, clause]

/-- The rule sees of the task runs which statuses there are. -/
theorem deriveNextStatus_congr {xs ys : List TaskRun}
    (h : ∀ status, (∃ x ∈ xs, x.status = status) ↔ ∃ y ∈ ys, y.status = status) :
    JobRunMonitor.deriveNextStatus xs = JobRunMonitor.deriveNextStatus ys := by
  have hany : ∀ p : TaskRunStatus → Bool,
      (xs.any fun x => p x.status) = ys.any fun y => p y.status := by
    intro p
    rw [Bool.eq_iff_iff, List.any_eq_true, List.any_eq_true]
    constructor
    · rintro ⟨x, hx, hp⟩
      obtain ⟨y, hy, heq⟩ := (h x.status).mp ⟨x, hx, rfl⟩
      exact ⟨y, hy, heq ▸ hp⟩
    · rintro ⟨y, hy, hp⟩
      obtain ⟨x, hx, heq⟩ := (h y.status).mpr ⟨y, hy, rfl⟩
      exact ⟨x, hx, heq ▸ hp⟩
  have hall : ∀ p : TaskRunStatus → Bool,
      (xs.all fun x => p x.status) = ys.all fun y => p y.status := by
    intro p
    rw [List.all_eq_not_any_not, List.all_eq_not_any_not, hany fun status => !p status]
  unfold JobRunMonitor.deriveNextStatus
  rw [hall TaskRunStatus.isFinished, hall fun status => decide (status = .succeeded),
    hany fun status => decide (status = .invalid), hany fun status => decide (status = .failed),
    hany fun status => decide (status = .timedOut), hany TaskRunStatus.isStopped]

/-- A run that is derived as anything but running has finished task runs only. -/
theorem finished_of_derived {xs : List TaskRun}
    (h : JobRunMonitor.deriveNextStatus xs ≠ some .running) : ∀ x ∈ xs, x.status.isFinished = true := by
  by_contra hnot
  refine h (if_pos ?_)
  simpa using hnot

/-- The rule always applies. -/
theorem derived_cases (xs : List TaskRun) : JobRunMonitor.deriveNextStatus xs = some .running ∨
    ∃ status, JobRunMonitor.deriveNextStatus xs = some status ∧ (status = .succeeded ∨
      status = .failed ∨ status = .timedOut ∨ status = .aborted ∨ status = .invalid) := by
  by_cases hrunning : JobRunMonitor.deriveNextStatus xs = some .running
  · exact .inl hrunning
  have hfinished := finished_of_derived hrunning
  refine .inr ?_
  unfold JobRunMonitor.deriveNextStatus at hrunning ⊢
  split_ifs at hrunning ⊢ with hunfinished hinvalid hsucceeded hfailed htimedOut hstopped
  · exact absurd rfl hrunning
  · exact ⟨_, rfl, by simp⟩
  · exact ⟨_, rfl, by simp⟩
  · exact ⟨_, rfl, by simp⟩
  · exact ⟨_, rfl, by simp⟩
  · exact ⟨_, rfl, by simp⟩
  · -- a finished task run that is none of these has succeeded
    refine absurd (List.all_eq_true.mpr fun x hx => ?_) hsucceeded
    have hx₁ := hfinished x hx
    have hx₂ := List.any_eq_false.mp (Bool.eq_false_iff.mpr hinvalid) x hx
    have hx₃ := List.any_eq_false.mp (Bool.eq_false_iff.mpr hfailed) x hx
    have hx₄ := List.any_eq_false.mp (Bool.eq_false_iff.mpr htimedOut) x hx
    have hx₅ := List.any_eq_false.mp (Bool.eq_false_iff.mpr hstopped) x hx
    generalize x.status = status at hx₁ hx₂ hx₃ hx₄ hx₅ ⊢
    cases status with
    | planned | waiting | running => cases hx₁
    | succeeded => rfl
    | failed => exact absurd rfl hx₃
    | skipped | aborted => exact absurd rfl hx₅
    | timedOut => exact absurd rfl hx₄
    | invalid => exact absurd rfl hx₂

/-! ## The outline -/

/-- As long as the run is there, its task runs are finished, and this is what follows. -/
def JobJudged (status : JobRunStatus) (id : Nat) (w : World) : Prop :=
  id < w.db.jobRuns.next ∧ ∀ j, w.db.jobRuns.find id = some j →
    (∀ x ∈ w.db.taskRunsOf id, x.status.isFinished = true) ∧
      JobRunMonitor.deriveNextStatus (w.db.taskRunsOf id) = some status

/-- A run that was started is finished as its task runs are. -/
def jobVerdicts (lib : Library) : Outline (flowlite lib) where
  inv w := ∀ j ∈ w.db.jobRuns.rows, j.status.isFinished = true → j.status.hasStarted = true →
    JobJudged j.status j.id w
  pre _ o w :=
    match o with
    | .write (.updateJobRuns f i) => ∀ id, f.id = some id → ∀ status, i.status = some status →
        status.isFinished = true → status.hasStarted = true → JobJudged status id w
    | _ => True
  idle _ _ := True

theorem Silent.jobVerdicts_pre {o : Op} (h : Silent o) (t : Tid) (w : World) :
    (jobVerdicts lib).pre t o w := by
  cases o <;> trivial

section Steps

variable {t : Tid} {o : Op} {w w' : World} {r : Result o}

/-- A run that is under way is given no further task run. -/
theorem taskRunsOf_before (hc : Complete cond) (h : Performs cond t o w r w') {id : Nat}
    {j' : JobRun} (hj' : w'.db.jobRuns.find id = some j')
    (hstatus : j'.status = .running ∨ j'.status.isFinished = true) {x' : TaskRun}
    (hx' : x' ∈ w'.db.taskRunsOf id) : ∃ x ∈ w.db.taskRunsOf id, TaskRun.Same x x' := by
  obtain ⟨hrow', hrun'⟩ := mem_taskRunsOf.mp hx'
  rcases taskRun_before h hrow' with ⟨x, hx, hsame⟩ | ⟨⟨i, rfl, -, -, -, hset⟩, -⟩
  · have hsame' : x' = _ := hsame
    exact ⟨x, mem_taskRunsOf.mpr ⟨hx, by rw [← hrun', hsame']⟩, hsame⟩
  · -- it would be planned
    have hplanned : i.status = .planned := by
      cases allowed_of hc.ordered.gated.base h
      assumption
    have hinv := (hc.submissions.1 _ _ _ _ _ h.2).2.2
    exact absurd (hset.trans hplanned) (((hinv.1 id j' hj').2 hstatus).2 x' hrow' hrun')

theorem taskRunsOf_after (h : Performs cond t o w r w') {id : Nat} {j' : JobRun}
    (hj' : w'.db.jobRuns.find id = some j') {x : TaskRun} (hx : x ∈ w.db.taskRunsOf id) :
    ∃ x' ∈ w'.db.taskRunsOf id, TaskRun.Same x x' := by
  obtain ⟨hrow, hrun⟩ := mem_taskRunsOf.mp hx
  rcases taskRun_fate h (Table.find_of_mem hrow) with hremoves | ⟨x', hx', hsame⟩
  · exact absurd (hrun ▸ hremoves) (not_removes_of_find h hj')
  · have hsame' : x' = _ := hsame
    exact ⟨x', mem_taskRunsOf.mpr ⟨Table.mem_of_find hx', by rw [← hrun, hsame']⟩, hsame⟩

/-- A finished task run is as finished after a step. -/
theorem finished_same (ho : Ordered cond) (h : Performs cond t o w r w') {x x' : TaskRun}
    (hx : x ∈ w.db.taskRuns.rows) (hx' : x' ∈ w'.db.taskRuns.rows) (hsame : TaskRun.Same x x')
    (hfinished : x.status.isFinished = true) : x'.status = x.status := by
  have hsame' : x' = _ := hsame
  have hid : x'.id = x.id := by rw [hsame']
  have hfind : w.db.taskRuns.find x.id = some x := Table.find_of_mem hx
  have hfind' : w'.db.taskRuns.find x.id = some x' := hid ▸ Table.find_of_mem hx'
  have his : TaskRunIs x.id x.status w := ⟨Table.lt_next_of_find hfind, fun y hy => by
    cases hfind.symm.trans hy
    rfl⟩
  exact ((taskRunIs_permanent ho.gated ho.taskRuns hfinished).performs h his).2 x' hfind'

/-- What was judged of a run that is under way stays so. -/
theorem jobJudged_kept (hc : Complete cond) (h : Performs cond t o w r w') {status : JobRunStatus}
    {id : Nat} (hstatus : ∀ j', w'.db.jobRuns.find id = some j' →
      j'.status = .running ∨ j'.status.isFinished = true)
    (hjudged : JobJudged status id w) : JobJudged status id w' := by
  refine ⟨lt_of_lt_of_le hjudged.1 (jobRuns_next_le h), fun j' hj' => ?_⟩
  have hbefore : ∀ x' ∈ w'.db.taskRunsOf id, ∃ x ∈ w.db.taskRunsOf id, TaskRun.Same x x' :=
    fun _ hx' => taskRunsOf_before hc h hj' (hstatus j' hj') hx'
  have hafter : ∀ x ∈ w.db.taskRunsOf id, ∃ x' ∈ w'.db.taskRunsOf id, TaskRun.Same x x' :=
    fun _ hx => taskRunsOf_after h hj' hx
  obtain ⟨j, hj, -⟩ := jobRun_move hc.ordered.gated.base hc.ordered.gated.jobRuns h hj' hjudged.1
  obtain ⟨hfinished, hderived⟩ := hjudged.2 j hj
  have hsame : ∀ {x x' : TaskRun}, x ∈ w.db.taskRunsOf id → x' ∈ w'.db.taskRunsOf id →
      TaskRun.Same x x' → x'.status = x.status := fun hx hx' hsame =>
    finished_same hc.ordered h (mem_taskRunsOf.mp hx).1 (mem_taskRunsOf.mp hx').1 hsame
      (hfinished _ hx)
  refine ⟨fun x' hx' => ?_, ?_⟩
  · obtain ⟨x, hx, heq⟩ := hbefore x' hx'
    rw [hsame hx hx' heq]
    exact hfinished x hx
  · rw [← hderived]
    refine deriveNextStatus_congr fun s => ⟨?_, ?_⟩
    · rintro ⟨x', hx', rfl⟩
      obtain ⟨x, hx, heq⟩ := hbefore x' hx'
      exact ⟨x, hx, (hsame hx hx' heq).symm⟩
    · rintro ⟨x, hx, rfl⟩
      obtain ⟨x', hx', heq⟩ := hafter x hx
      exact ⟨x', hx', hsame hx hx' heq⟩

theorem jobVerdicts_performs (hc : Complete cond) (hi : (jobVerdicts lib).inv w)
    (hpre : (jobVerdicts lib).pre t o w) (h : Performs cond t o w r w') :
    (jobVerdicts lib).inv w' := by
  intro j' hj' hfinished hstarted
  have hfind' : w'.db.jobRuns.find j'.id = some j' := Table.find_of_mem hj'
  have hg := hc.ordered.gated
  have hkept : JobJudged j'.status j'.id w → JobJudged j'.status j'.id w' :=
    jobJudged_kept hc h fun k hk => by
      cases hfind'.symm.trans hk
      exact .inr hfinished
  rcases jobRun_origin h hfind' with hj | ⟨i, tasks, n, now, hop, -, -, hnew⟩ |
    ⟨j, hj, ⟨f, i, rfl, hok, hf, hnew⟩ | ⟨now, -, -, -, hnew⟩⟩
  · exact hkept (hi j' (Table.mem_of_find hj) hfinished hstarted)
  · have hallowed := allowed_of hg.base h
    rw [hop] at hallowed
    have hstatus : j'.status = i.status := by rw [hnew]; rfl
    rw [hstatus] at hfinished
    cases hallowed with
    | submitScheduled hscheduled | submit hscheduled =>
        rw [hscheduled] at hfinished
        cases hfinished
  · have hid : ∀ {n : Nat}, f.id = some n → j'.id = n := fun hn =>
      (Table.key_of_find hj).symm.trans (updateJobRunsFilter_holds hn hf)
    have hset : ∀ status, i.status = some status → j'.status = status := by
      intro status hset
      rw [hnew]
      simp [UpdateJobRunsInput.patch, hset]
    cases allowed_of hg.base h with
    | endJobRun ht hs =>
        rcases hs with rfl | rfl
        · rw [hset _ rfl] at hstarted
          cases hstarted
        · exact absurd rfl ((hg.halts.1 _ _ _ _ _ h.2).2.1 ht).1
    | queueJobRun | startJobRun =>
        rw [hset _ rfl] at hfinished
        cases hfinished
    | settleJobRun =>
        obtain rfl := hid rfl
        have hstatus := hset _ rfl
        exact hkept (hpre _ rfl _ (by rw [hstatus]) hfinished hstarted)
  · rw [hnew] at hstarted
    cases hstarted

end Steps

/-! ## The monitor -/

namespace JobRunMonitor

abbrev thread : Tid := .service .jobRunMonitor

/-- The run is still running, and its task runs are as they were read. -/
def Judging (status : JobRunStatus) (id : Nat) (w : World) : Prop :=
  JobRunAt thread id w ∧ JobJudged status id w

theorem judging_stable (hc : Complete cond) (status : JobRunStatus) (id : Nat) :
    O.Stable cond thread (Judging status id) := by
  intro w w' hothers hw
  have hat := jobRunAt_stays hc.ordered.gated.jobRuns thread id w w' hothers hw.1
  refine ⟨hat, ?_⟩
  cases hothers with
  | run _ _ _ _ hperf => exact jobJudged_kept hc hperf (fun j' hj' => .inl (hat.2 j' hj')) hw.2
  | env _ _ _ hhappens =>
      unfold JobJudged
      rw [happens_db hhappens]
      exact hw.2

theorem jobVerdicts_read (hc : Complete cond) (id : Nat) :
    (jobVerdicts lib).Triple cond thread (JobRunAt thread id)
      (selectTaskRuns { jobRunId := some id }) fun r w => ∀ rows, r = .ok rows →
        ∀ status, deriveNextStatus rows = some status → status ≠ .running → Judging status id w := by
  refine (Triple.select (q := .taskRuns { jobRunId := some id })
    (Q := fun (rows : List TaskRun) w => ∀ status, deriveNextStatus rows = some status →
      status ≠ .running → JobJudged status id w)
    (jobRunAt_stays hc.ordered.gated.jobRuns _ _) (fun _ _ h => h) (fun _ _ => trivial)
    fun w _ hat status hderived hne => ?_).post fun r w _ h rows hrows status hderived hne =>
      ⟨h.1, h.2 rows hrows status hderived hne⟩
  have hrows : (Query.taskRuns { jobRunId := some id }).run w.db = w.db.taskRunsOf id :=
    selectTaskRuns_of w.db id
  rw [hrows] at hderived
  refine ⟨hat.1, fun j _ => ⟨finished_of_derived fun hrunning => ?_, hderived⟩⟩
  exact hne (Option.some.inj (hderived.symm.trans hrunning))

theorem jobVerdicts_update (hc : Complete cond) (j : JobRun) (status : JobRunStatus) :
    (jobVerdicts lib).Triple cond thread (Judging status j.id) (updateJobRunStatus j status)
      fun _ _ => True := by
  have hstable := judging_stable (O := jobVerdicts lib) hc status j.id
  refine Triple.seq (Triple.now hstable (fun _ _ _ _ h => h)
    fun o w ho _ => ho.jobVerdicts_pre _ w) fun now => ?_
  refine Triple.perform (hstable.and (stable_const _ _)) ?_ fun _ _ _ _ _ _ _ => trivial
  intro w r w' _ hw _ id hid status' hset _ _
  cases hid
  cases hset
  exact hw.1.2

theorem jobVerdicts_handle (hc : Complete cond) (j : JobRun) :
    (jobVerdicts lib).Triple cond thread (JobRunAt thread j.id) (handleRunningJobRun j)
      fun _ _ => True := by
  refine Triple.seq (jobVerdicts_read hc j.id) fun rows => ?_
  rcases derived_cases rows with hrunning | ⟨status, hderived, hstatus⟩
  · rw [hrunning]
    exact Triple.ret fun _ _ _ => trivial
  · rw [hderived]
    have hupdate := (@jobVerdicts_update lib _ hc j status).pre
      (P := fun w => ∀ rows', (Except.ok rows : Except Err _) = .ok rows' → ∀ status,
        deriveNextStatus rows' = some status → status ≠ .running → Judging status j.id w)
      fun w _ h => h rows rfl status hderived (by
        rintro rfl
        rcases hstatus with heq | heq | heq | heq | heq <;> cases heq)
    rcases hstatus with rfl | rfl | rfl | rfl | rfl <;> exact hupdate

end JobRunMonitor

theorem jobVerdicts_valid (hc : Complete cond) : (jobVerdicts lib).Valid cond where
  init w hw := by
    have hw : w = .fresh := hw
    subst hw
    exact ⟨fun j hj => absurd hj List.not_mem_nil, fun _ => trivial⟩
  step _ _ _ _ _ hi hpre h := jobVerdicts_performs hc hi hpre h
  env w w' kill hi h := by
    refine ⟨?_, fun _ _ => trivial⟩
    unfold jobVerdicts JobJudged at hi ⊢
    dsimp only at hi ⊢
    rwa [happens_db h]
  idle t := stable_true t
  start := by
    have hg := hc.ordered.gated
    -- nobody else finishes a run that was started
    have hothers : ∀ {t : Tid}, t ≠ .service .jobRunMonitor →
        ∀ {P : World → Prop} (p : Code Unit),
          (jobVerdicts lib).Triple cond t P p fun _ _ => True := by
      intro t hmonitor P p
      refine Triple.of_pre fun o w r w' _ hperf => ?_
      have hallowed := allowed_of hg.base hperf
      cases o with
      | write q =>
          cases q with
          | updateJobRuns f i =>
              intro id hid status hset hfinished hstarted
              cases hallowed with
              | endJobRun ht hs =>
                  rcases hs with rfl | rfl
                  · cases hset
                    cases hstarted
                  · exact absurd rfl ((hg.halts.1 _ _ _ _ _ hperf.2).2.1 ht).1
              | queueJobRun | startJobRun =>
                  cases hset
                  cases hfinished
              | settleJobRun => exact absurd rfl hmonitor
          | _ => trivial
      | _ => trivial
    refine start_triple (fun config fuel s => ?_) fun c r => hothers (by nofun) _
    refine Triple.pre ?_ fun _ _ _ => trivial
    cases s with
    | jobRunMonitor =>
        refine Poller.pass_triple (P := fun _ => True)
          (K := fun x : JobRun => JobRunAt JobRunMonitor.thread x.id)
          (R := fun x y : JobRun => x.id ≠ y.id) ?_
          (fun x => jobRunAt_stays hg.jobRuns _ _)
          (fun x => (JobRunMonitor.jobVerdicts_handle hc x).pre fun _ _ h => h.2)
          fun x y hxy => ?_
        · exact Triple.selectJobRuns (stable_true _) (fun _ _ _ => trivial) (fun _ _ => trivial)
            fun w _ x _ _ hfind hholds => ⟨Table.lt_next_of_find hfind, fun y hy => by
              cases hfind.symm.trans hy
              exact selectJobRuns_status hholds⟩
        · exact (jobRunAt_frame hg.base hxy (jobRunMonitor_handles x)).mono
            fun o ho w r w' _ _ _ hperf hy => ho w r w' trivial trivial
              (hg.jobRuns.1 _ _ _ _ _ hperf.2).2.1 hperf hy
    | _ => exact hothers (by nofun) _

end Flowlite

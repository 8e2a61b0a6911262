import Flowlite.Logic.Gate
import Flowlite.Logic.Submissions

/-!
# Where the status of a task run goes

`TaskRunDispatcher` takes a task run out of Waiting and `TaskRunMonitor` out of Running,
each by the id of a row it selected a while ago. The services above them write the task
runs of a whole job run at once, which is why they only may as long as none of those has
started. `taskRuns` is the outline that says the two never meet: what has been released is
the business of the two services alone.
-/

namespace Flowlite

open Store Host Threads Crud Machine Outline

variable {lib : Library} {cond : (flowlite lib).Condition} {O : Outline (flowlite lib)}

/-- What holds of every run of the system in which what is released is also started. -/
structure Gated (cond : (flowlite lib).Condition) : Prop where
  base : cond.Le (base lib).established
  releases : cond.Le (releases lib).established
  jobRuns : cond.Le (jobRuns lib).established
  halts : cond.Le (halts lib).established
  gate : cond.Le (gate lib).established

/-- Every run in which what is released is also started is one of those. -/
theorem gated_of_starts (hc : cond.Le (startsReleased lib)) :
    ∃ cond', Entails cond cond' ∧ Gated cond' := by
  obtain ⟨c₁, h₁, hbase⟩ := (base_valid : (base lib).Valid cond).entails
  obtain ⟨c₂, h₂, hreleases⟩ := (releases_valid hbase).entails
  obtain ⟨c₃, h₃, hjobs⟩ := (jobRuns_valid (h₂.le.trans hbase)).entails
  have hbase₃ := (h₃.le.trans h₂.le).trans hbase
  obtain ⟨c₄, h₄, hhalts⟩ := (halts_valid hbase₃ hjobs).entails
  have hle : c₄.Le cond := (((h₄.le.trans h₃.le).trans h₂.le).trans h₁.le)
  obtain ⟨c₅, h₅, hgate⟩ :=
    (gate_valid (hle.trans hc) (h₄.le.trans hbase₃) (h₄.le.trans hjobs) hhalts).entails
  refine ⟨c₅, (((h₁.trans h₂).trans h₃).trans h₄).trans h₅, ?_⟩
  exact ⟨h₅.le.trans (h₄.le.trans hbase₃), h₅.le.trans (h₄.le.trans (h₃.le.trans hreleases)),
    h₅.le.trans (h₄.le.trans hjobs), h₅.le.trans hhalts, hgate⟩

theorem Gated.mono {cond' : (flowlite lib).Condition} (hg : Gated cond) (h : cond'.Le cond) :
    Gated cond' :=
  ⟨h.trans hg.base, h.trans hg.releases, h.trans hg.jobRuns, h.trans hg.halts, h.trans hg.gate⟩

/-! ## The way of a status -/

/-- The status in which the service that has a task run to itself finds it. -/
def TaskRunFrom : Tid → TaskRunStatus → Prop
  | .service .taskRunDispatcher, status => status = .waiting
  | .service .taskRunMonitor, status => status = .running
  | _, _ => False

/-- What a step can make of the status of a task run. -/
inductive TaskRunMove : TaskRunStatus → TaskRunStatus → Prop
  | release : TaskRunMove .planned .waiting
  | drop {before : TaskRunStatus} : before = .planned ∨ before = .waiting →
      TaskRunMove before .skipped
  | start : TaskRunMove .waiting .running
  | settle {status : TaskRunStatus} : status.isFinished = true → status ≠ .skipped →
      TaskRunMove .running status

/-- The statuses of a task run that has been given its attempts to make. -/
def Store.TaskRunStatus.hasBegun : TaskRunStatus → Bool
  | .running | .succeeded | .failed | .aborted | .timedOut | .invalid => true
  | .planned | .waiting | .skipped => false

/-- What settles without having begun is skipped. -/
theorem skipped_of_not_begun {status : TaskRunStatus} (h : status.hasBegun = false)
    (hfinished : status.isFinished = true) : status = .skipped := by
  cases status with
  | skipped => rfl
  | planned | waiting => cases hfinished
  | running | succeeded | failed | aborted | timedOut | invalid => cases h

theorem TaskRunMove.unfinished {before after : TaskRunStatus} (h : TaskRunMove before after) :
    before.isFinished = false := by
  cases h with
  | release | start | settle => rfl
  | drop hs => rcases hs with rfl | rfl <;> rfl

theorem TaskRunMove.hasBegun {before after : TaskRunStatus} (h : TaskRunMove before after)
    (hbefore : before.hasBegun = true) : after.hasBegun = true := by
  cases h with
  | release | start => cases hbefore
  | drop hs => rcases hs with rfl | rfl <;> cases hbefore
  | settle hfinished hskipped =>
      cases after <;> first | exact absurd rfl hskipped | rfl | cases hfinished

theorem TaskRunMove.released {before after : TaskRunStatus} (h : TaskRunMove before after)
    (hwaiting : after ≠ .waiting) (hskipped : after ≠ .skipped) :
    before ≠ .planned ∧ before ≠ .skipped := by
  cases h with
  | release => exact absurd rfl hwaiting
  | drop => exact absurd rfl hskipped
  | start | settle => exact ⟨nofun, nofun⟩

theorem taskRunFrom_unique {t u : Tid} {status : TaskRunStatus} (ht : TaskRunFrom t status)
    (hu : TaskRunFrom u status) : t = u := by
  unfold TaskRunFrom at ht hu
  split at ht <;> split at hu <;> first
    | rfl
    | exact ht.elim
    | exact hu.elim
    | (subst ht; cases hu)

/-- Where a service finds a task run, it has been released. -/
theorem TaskRunFrom.hasStarted {t : Tid} {status : TaskRunStatus} (h : TaskRunFrom t status) :
    status.hasStarted = true := by
  unfold TaskRunFrom at h
  split at h <;> first | exact h.elim | (subst h; rfl)

/-- The task run with this id is where `t` takes task runs from, as long as it is there. -/
def TaskRunAt (t : Tid) (id : Nat) (w : World) : Prop :=
  id < w.db.taskRuns.next ∧ ∀ x, w.db.taskRuns.find id = some x → TaskRunFrom t x.status

/-! ## The outline -/

/-- What has left the plan other than by being skipped has been released, and what has
attempts has begun. -/
structure TaskRunsMoved (w : World) : Prop where
  released : ∀ x ∈ w.db.taskRuns.rows, x.status ≠ .planned → x.status ≠ .skipped →
    w.Released x.jobRunId
  attempted : ∀ a ∈ w.db.taskRunAttempts.rows, ∀ x ∈ w.db.taskRuns.rows, x.id = a.taskRunId →
    x.status.hasBegun = true

/-- Every write by the id of a task run lands where its thread alone takes task runs from. -/
def taskRuns (lib : Library) : Outline (flowlite lib) where
  inv := TaskRunsMoved
  pre t o w :=
    match o with
    | .write (.updateTaskRuns f i) => ∀ id, f.id = some id → TaskRunAt t id w ∧
        (i.status = some .invalid → t = .service .taskRunMonitor)
    | .write (.insertTaskRunAttempt i) => TaskRunAt (.service .taskRunMonitor) i.taskRunId w
    | _ => True
  idle _ _ := True

theorem Silent.taskRuns_pre {o : Op} (h : Silent o) (t : Tid) (w : World) :
    (taskRuns lib).pre t o w := by
  cases o <;> trivial

section Steps

variable {t : Tid} {o : Op} {w w' : World} {r : Result o}

/-- A run that its dispatcher is not at work on, and that has not started, has not been
released. -/
theorem not_released (hi : ReleasedStarts w) {id : Nat} {j : JobRun}
    (hj : w.db.jobRuns.find id = some j) (hstatus : j.status.hasStarted = false)
    (hreleasing : j.status = .queued → w.releasing ≠ some id) : ¬ w.Released id := by
  intro hreleased
  rcases hi.started id hreleased with hnow | hstarted
  · have hqueued : j.status = .queued := (hi.queued id hnow).2 j hj
    exact hreleasing hqueued hnow
  · have hyes := hstarted.2 j hj
    rw [hstatus] at hyes
    cases hyes

theorem updateTaskRunsFilter_holds_id {f : UpdateTaskRunsFilter} {x : TaskRun} {id : Nat}
    (hid : f.id = some id) (h : f.holds x = true) : x.id = id := by
  have hclauses := Bool.and_eq_true_iff.mp (Bool.and_eq_true_iff.mp h).1
  simpa [clause, hid] using hclauses.1

/-- Only the services above write task runs by their job run. -/
theorem releases_of_run {f : UpdateTaskRunsFilter} {i : UpdateTaskRunsInput} {id : Nat}
    (h : Allowed t (.write (.updateTaskRuns f i))) (hid : f.jobRunId = some id) : Releases t := by
  cases h with
  | endTaskRuns ht => exact ht
  | releaseTaskRuns => exact .inr rfl
  | dropTaskRun | startTaskRun | settleTaskRun => cases hid

/-- A write to all task runs of a run finds it not released. -/
theorem unreleased_of_update (hg : Gated cond) {f : UpdateTaskRunsFilter} {i : UpdateTaskRunsInput}
    {r : Result (.write (.updateTaskRuns f i))}
    (h : Performs cond t (.write (.updateTaskRuns f i)) w r w') {id : Nat}
    (hid : f.jobRunId = some id) (hjob : (w.db.jobRuns.find id).isSome = true) :
    ¬ w.Released id ∧ (i.status = some .waiting ∨ i.status = some .skipped) := by
  obtain ⟨j, hj⟩ := Option.isSome_iff_exists.mp hjob
  obtain ⟨hat, hset⟩ := (hg.halts.1 _ _ _ _ _ h.2).2.1 id hid
  have hfrom := hat.2 j hj
  have hgate := hg.gate.1 _ _ _ _ _ h.2
  refine ⟨?_, hset.imp_right And.left⟩
  rcases releases_of_run (allowed_of hg.base h) hid with rfl | rfl
  · -- a scheduled run, or a deleted one
    have hfrom : j.status = .scheduled ∨ j.status = .deleted := hfrom
    refine not_released hgate.1 hj ?_ fun hqueued => ?_
    · rcases hfrom with heq | heq <;> rw [heq] <;> rfl
    · rw [hqueued] at hfrom
      rcases hfrom with heq | heq <;> cases heq
  · -- a queued one, and the dispatcher is at rest
    have hfrom : j.status = .queued := hfrom
    have hnone : w.releasing = none := hgate.2.1
    refine not_released hgate.1 hj (by rw [hfrom]; rfl) fun _ hreleasing => ?_
    rw [hnone] at hreleasing
    cases hreleasing

/-- What has not been released is planned, or skipped. -/
theorem TaskRunsMoved.resting (hi : TaskRunsMoved w) {x : TaskRun} (hx : x ∈ w.db.taskRuns.rows)
    (hreleased : ¬ w.Released x.jobRunId) : x.status = .planned ∨ x.status = .skipped := by
  by_contra hnot
  rw [not_or] at hnot
  exact hreleased (hi.released x hx hnot.1 hnot.2)

/-- A task run that is there after a step was there before it, and its status is as it was or
has made a move; once it is out of the plan, by the hands of the thread that takes it there. -/
theorem taskRun_move (hg : Gated cond) (hi : TaskRunsMoved w) (hpre : (taskRuns lib).pre t o w)
    (h : Performs cond t o w r w') {id : Nat} {x' : TaskRun}
    (hx' : w'.db.taskRuns.find id = some x') (hid : id < w.db.taskRuns.next) :
    ∃ x, w.db.taskRuns.find id = some x ∧
      (x'.status = x.status ∨ TaskRunMove x.status x'.status ∧
        (x.status ≠ .planned → TaskRunFrom t x.status)) := by
  rcases taskRun_origin h hx' with hx | ⟨i, now, -, -, hnext, -⟩ |
    ⟨x, hx, ⟨f, i, rfl, -, hf, rfl⟩ | ⟨now, j, rfl, -, hj, hscheduled, rfl⟩⟩
  · exact ⟨x', hx, .inl rfl⟩
  · omega
  · refine ⟨x, hx, ?_⟩
    have hrow := Table.mem_of_find hx
    have hkey : x.id = id := Table.key_of_find hx
    have hlinked := (linked_of hg.base h).1.jobRun_of_taskRun x hrow
    have hallowed := allowed_of hg.base h
    have hof : ∀ {n : Nat}, f.id = some n → n = id := fun hn =>
      (updateTaskRunsFilter_holds_id hn hf).symm.trans hkey
    have hrun : ∀ {n : Nat}, f.jobRunId = some n → ¬ w.Released x.jobRunId := by
      intro n hn
      have heq : x.jobRunId = n := updateTaskRunsFilter_holds_jobRun hn hf
      exact (unreleased_of_update hg h (heq ▸ hn) hlinked).1
    cases hallowed with
    | endTaskRuns ht hs =>
        have hskipped := (unreleased_of_update hg h rfl
          (updateTaskRunsFilter_holds_jobRun rfl hf ▸ hlinked)).2
        rcases hs with rfl | rfl
        · rcases hi.resting hrow (hrun rfl) with heq | heq
          · exact .inr ⟨heq ▸ .drop (.inl rfl), absurd heq⟩
          · exact .inl heq.symm
        · rcases hskipped with heq | heq <;> cases heq
    | releaseTaskRuns =>
        have hplanned : x.status = .planned := by
          have hclauses := (Bool.and_eq_true_iff.mp hf).2
          simpa [clause] using hclauses
        exact .inr ⟨hplanned ▸ .release, absurd hplanned⟩
    | dropTaskRun hs =>
        obtain ⟨hat, hinvalid⟩ := hpre _ rfl
        have hwaiting : x.status = .waiting := hat.2 x (hof rfl ▸ hx)
        rcases hs with rfl | rfl
        · exact .inr ⟨hwaiting ▸ .drop (.inr rfl), fun _ => hwaiting⟩
        · cases hinvalid rfl
    | startTaskRun =>
        have hwaiting : x.status = .waiting := (hpre _ rfl).1.2 x (hof rfl ▸ hx)
        exact .inr ⟨hwaiting ▸ .start, fun _ => hwaiting⟩
    | settleTaskRun hfinished hskipped =>
        have hrunning : x.status = .running := (hpre _ rfl).1.2 x (hof rfl ▸ hx)
        exact .inr ⟨hrunning ▸ .settle hfinished hskipped, fun _ => hrunning⟩
  · refine ⟨x, hx, ?_⟩
    have hrow := Table.mem_of_find hx
    have hgate := hg.gate.1 _ _ _ _ _ h.2
    have hunreleased : ¬ w.Released x.jobRunId :=
      not_released hgate.1 hj (by rw [hscheduled]; rfl) fun hqueued => by
        rw [hscheduled] at hqueued
        cases hqueued
    rcases hi.resting hrow hunreleased with heq | heq
    · exact .inr ⟨heq ▸ .drop (.inl rfl), absurd heq⟩
    · exact .inl heq.symm

/-- Nobody else takes a task run from where it is. -/
theorem taskRunAt_others (hg : Gated cond) (hi : TaskRunsMoved w) (hpre : (taskRuns lib).pre t o w)
    (h : Performs cond t o w r w') {u : Tid} (hu : t ≠ u) {id : Nat} (hat : TaskRunAt u id w) :
    TaskRunAt u id w' := by
  refine ⟨lt_of_lt_of_le hat.1 (taskRuns_next_le h), fun x' hx' => ?_⟩
  obtain ⟨x, hx, heq | ⟨-, hfrom⟩⟩ := taskRun_move hg hi hpre h hx' hat.1
  · rw [heq]
    exact hat.2 x hx
  · have hmine := hat.2 x hx
    have hplanned : x.status ≠ .planned := by
      intro hplanned
      have hstarted := hmine.hasStarted
      rw [hplanned] at hstarted
      cases hstarted
    exact absurd (taskRunFrom_unique (hfrom hplanned) hmine) hu

theorem taskRunAt_stable (hg : Gated cond) (t : Tid) (id : Nat) :
    (taskRuns lib).Stable cond t (TaskRunAt t id) := by
  intro w w' hothers hat
  cases hothers with
  | run hu hi _ hpre hperf => exact taskRunAt_others hg hi hpre hperf hu hat
  | env _ _ _ hhappens =>
      unfold TaskRunAt
      rwa [happens_db hhappens]

/-- What writes no status of a task run leaves every task run where it is. -/
theorem taskRunAt_kept (h : Performs cond t o w r w') (ho : ¬ WritesTaskRuns o) {u : Tid}
    {id : Nat} (hat : TaskRunAt u id w) : TaskRunAt u id w' := by
  unfold TaskRunAt
  rwa [taskRuns_kept h ho]

/-! ## One step -/

/-- A waiting task run belongs to a run that has been released. -/
theorem released_of_waiting (hg : Gated cond) (hi : TaskRunsMoved w)
    (h : Performs cond t o w r w') {x' : TaskRun} (hx' : x' ∈ w'.db.taskRuns.rows)
    (hwaiting : x'.status = .waiting) : w'.Released x'.jobRunId := by
  rcases waiting_before hg.base h hx' rfl hwaiting with
    ⟨y, hy, hrun, hstatus⟩ | ⟨-, f, i, rfl, ⟨a, rfl⟩, hrun, hstatus⟩
  · rw [← hrun]
    exact released_performs h (hi.released y hy (by rw [hstatus]; nofun) (by rw [hstatus]; nofun))
  · refine ⟨⟨t, .write (.updateTaskRuns f i), .ok a⟩, ?_, ?_⟩
    · rw [log_performs h]
      exact List.mem_cons_self
    · simp [Host.Event.releases, hstatus, hrun]

/-- A task run is out of the plan only in a run that has been released. -/
theorem released_kept (hg : Gated cond) (hi : TaskRunsMoved w) (hpre : (taskRuns lib).pre t o w)
    (h : Performs cond t o w r w') {x' : TaskRun} (hx' : x' ∈ w'.db.taskRuns.rows)
    (hplanned : x'.status ≠ .planned) (hskipped : x'.status ≠ .skipped) :
    w'.Released x'.jobRunId := by
  by_cases hwaiting : x'.status = .waiting
  · exact released_of_waiting hg hi h hx' hwaiting
  rcases taskRun_before h hx' with ⟨x, hx, hsame⟩ | ⟨⟨i, rfl, -, -, -, hset⟩, -⟩
  · have hsame : x' = _ := hsame
    have hid : x'.id = x.id := by rw [hsame]
    have hrun : x'.jobRunId = x.jobRunId := by rw [hsame]
    have hfind : w.db.taskRuns.find x.id = some x := Table.find_of_mem hx
    have hfind' : w'.db.taskRuns.find x.id = some x' := hid ▸ Table.find_of_mem hx'
    have hbefore : x.status ≠ .planned ∧ x.status ≠ .skipped := by
      obtain ⟨y, hy, heq | ⟨hmove, -⟩⟩ :=
        taskRun_move hg hi hpre h hfind' (Table.lt_next_of_find hfind)
      · cases hfind.symm.trans hy
        exact heq ▸ ⟨hplanned, hskipped⟩
      · cases hfind.symm.trans hy
        exact hmove.released hwaiting hskipped
    rw [hrun]
    exact released_performs h (hi.released x hx hbefore.1 hbefore.2)
  · have hset' : i.status = .planned := by
      cases allowed_of hg.base h
      assumption
    exact absurd (hset.trans hset') hplanned

theorem attempted_kept (hg : Gated cond) (hi : TaskRunsMoved w) (hpre : (taskRuns lib).pre t o w)
    (h : Performs cond t o w r w') {a' : TaskRunAttempt} (ha' : a' ∈ w'.db.taskRunAttempts.rows)
    {x' : TaskRun} (hx' : x' ∈ w'.db.taskRuns.rows) (hid : x'.id = a'.taskRunId) :
    x'.status.hasBegun = true := by
  -- it is enough for the task run to have begun before
  have hkept : ∀ x, w.db.taskRuns.find x'.id = some x → x.status.hasBegun = true →
      x'.status.hasBegun = true := by
    intro x hx hbegun
    obtain ⟨y, hy, heq | ⟨hmove, -⟩⟩ :=
      taskRun_move hg hi hpre h (Table.find_of_mem hx') (Table.lt_next_of_find hx)
    · cases hx.symm.trans hy
      rwa [heq]
    · cases hx.symm.trans hy
      exact hmove.hasBegun hbegun
  rcases taskRunAttempt_before h ha' with ⟨a, ha, hsame⟩ | ⟨⟨i, rfl, htask, -⟩, hthere, -⟩
  · have hsame : a' = _ := hsame
    have htask : a'.taskRunId = a.taskRunId := by rw [hsame]
    have hlinked := (linked_of hg.base h).1.taskRun_of_attempt a ha
    obtain ⟨x, hx⟩ := Option.isSome_iff_exists.mp hlinked
    rw [← htask, ← hid] at hx
    exact hkept x hx (hi.attempted a ha x (Table.mem_of_find hx)
      ((Table.key_of_find hx).trans (hid.trans htask)))
  · -- the one that is added now is one of a running task run
    obtain ⟨x, hx⟩ := Option.isSome_iff_exists.mp hthere
    have hrunning : x.status = .running := (hpre : TaskRunAt _ _ _).2 x (htask ▸ hx)
    exact hkept x (hid ▸ hx) (by rw [hrunning]; rfl)

theorem taskRunsMoved_performs (hg : Gated cond) (hi : TaskRunsMoved w)
    (hpre : (taskRuns lib).pre t o w) (h : Performs cond t o w r w') : TaskRunsMoved w' where
  released _ hx' := released_kept hg hi hpre h hx'
  attempted _ ha' _ hx' := attempted_kept hg hi hpre h ha' hx'

end Steps

/-! ## The two services -/

/-- What is done to one task run short of its last write: nothing, or, by its monitor, one
more attempt. -/
def Prepares (t : Tid) (id : Nat) (o : Op) : Prop :=
  Silent o ∨ ∃ i : InsertTaskRunAttemptInput, o = .write (.insertTaskRunAttempt i) ∧
    i.taskRunId = id ∧ t = .service .taskRunMonitor

theorem taskRunAt_uses (hg : Gated cond) {α : Type} {t : Tid} {id : Nat} {p : Code α}
    (hp : p.Uses (Prepares t id)) :
    (taskRuns lib).Triple cond t (TaskRunAt t id) p fun _ => TaskRunAt t id :=
  Triple.of_uses (taskRunAt_stable hg t id) (hp.mono fun o ho w r w' _ hat hperf => by
    rcases ho with hsilent | ⟨i, rfl, htask, rfl⟩
    · refine ⟨hsilent.taskRuns_pre t w, fun _ => ?_⟩
      rw [silent_performs hsilent hperf]
      exact hat
    · subst htask
      exact ⟨hat, fun _ => taskRunAt_kept hperf (fun h => h) hat⟩)

theorem taskRunAt_silent (hg : Gated cond) {α : Type} {t : Tid} {id : Nat} {p : Code α}
    (hp : p.Uses Silent) :
    (taskRuns lib).Triple cond t (TaskRunAt t id) p fun _ => TaskRunAt t id :=
  taskRunAt_uses hg (hp.mono fun _ => .inl)

/-- The last write, behind a look at the clock. -/
theorem taskRunAt_update (hg : Gated cond) {t : Tid} {id : Nat}
    {i : Instant → UpdateTaskRunsInput}
    (hinvalid : ∀ now, (i now).status = some .invalid → t = .service .taskRunMonitor) :
    (taskRuns lib).Triple cond t (TaskRunAt t id)
      (Crud.now.bind fun now => updateTaskRuns { id := some id } (i now)) fun _ _ => True := by
  refine Triple.seq (taskRunAt_silent hg now_silent) fun now => ?_
  refine Triple.perform (taskRunAt_stable hg t id) ?_ fun _ _ _ _ _ _ _ => trivial
  intro w r w' _ hat _ id' hid'
  cases hid'
  exact ⟨hat, hinvalid now⟩

/-- The dispatcher finds its dependencies settled one way or the other. -/
theorem taskRunDispatcher_ends (x : TaskRun) :
    (TaskRunDispatcher.deriveNextStatus x).Ends fun status =>
      status = some .skipped ∨ status = some .waiting ∨ status = some .running := by
  refine (Prog.ends_bind _ _).mpr (.of_forall _ fun dependentTaskRuns => ?_)
  have hskip : (TaskRunDispatcher.shouldSkip x dependentTaskRuns).Ends fun mustSkip =>
      mustSkip = false →
        dependentTaskRuns.any (fun t => TaskRunDispatcher.isUnsuccessful t.status) = false := by
    refine (Prog.ends_bind _ _).mpr (.of_forall _ fun isStopped => fun hskip => ?_)
    exact (Bool.or_eq_false_iff.mp hskip).2
  refine (Prog.ends_bind _ _).mpr (hskip.mono fun mustSkip hsettled => ?_)
  rw [Prog.pure_eq, Prog.ends_ret]
  split_ifs with hmust hwaiting hall
  · exact .inl rfl
  · exact .inr (.inl rfl)
  · exact .inr (.inr rfl)
  · -- every dependency has settled, and none without success
    refine absurd (List.all_eq_true.mpr fun t ht => ?_) hall
    have hsettled := List.any_eq_false.mp (hsettled (by simpa using hmust)) t ht
    have hfinished := List.any_eq_false.mp (Bool.eq_false_iff.mpr hwaiting) t ht
    cases hstatus : t.status <;> simp_all [TaskRunDispatcher.isUnsuccessful, TaskRunStatus.isFinished]

theorem taskRuns_dispatcher (hg : Gated cond) (x : TaskRun) :
    (taskRuns lib).Triple cond (.service .taskRunDispatcher)
      (TaskRunAt (.service .taskRunDispatcher) x.id)
      (TaskRunDispatcher.handleWaitingTaskRun x) fun _ _ => True := by
  refine Triple.seq ((taskRunAt_silent hg (taskRunDispatcher_derives x)).ends
    (taskRunDispatcher_ends x)) fun status => ?_
  refine Triple.of_fact (fun _ _ h => h.2 status rfl) fun hstatus => ?_
  refine Triple.pre ?_ fun _ _ h => h.1
  rcases hstatus with rfl | rfl | rfl
  · exact taskRunAt_update hg (by nofun)
  · exact Triple.ret fun _ _ _ => trivial
  · exact taskRunAt_update hg (by nofun)

/-- One more attempt of a task run its monitor is at. -/
theorem insertAttempt_prepares (x : TaskRun) (n : Nat) :
    (insertTaskRunAttempt (TaskRunMonitor.attemptInput x n)).Uses
      (Prepares (.service .taskRunMonitor) x.id) :=
  uses_write (.inr ⟨_, rfl, rfl, rfl⟩)

theorem taskRunMonitor_starts (x : TaskRun) :
    (TaskRunMonitor.getOrStartTaskRunAttempt x).Uses
      (Prepares (.service .taskRunMonitor) x.id) := by
  have hlast : (TaskRunMonitor.selectLastTaskRunAttempt x).Uses
      (Prepares (.service .taskRunMonitor) x.id) :=
    Prog.Uses.bind ((selectTaskRunAttempts_silent _ _).mono fun _ => .inl) fun _ => Prog.uses_ret _
  refine Prog.Uses.bind hlast fun last => ?_
  split
  · trivial
  · exact (insertAttempt_prepares x 1).bind fun _ => hlast.bind fun _ => orBail_uses

theorem taskRunMonitor_derives (x : TaskRun) (a : TaskRunAttempt) :
    (TaskRunMonitor.deriveNextStatus x a).Uses
      (Prepares (.service .taskRunMonitor) x.id) := by
  unfold TaskRunMonitor.deriveNextStatus
  split_ifs
  all_goals first
    | trivial
    | exact Prog.Uses.bind ((insertAttempt_prepares x _).bind fun _ => Prog.uses_ret _) fun _ => Prog.uses_ret _

theorem taskRuns_monitor (hg : Gated cond) (x : TaskRun) :
    (taskRuns lib).Triple cond (.service .taskRunMonitor)
      (TaskRunAt (.service .taskRunMonitor) x.id)
      (TaskRunMonitor.handleRunningTaskRun x) fun _ _ => True := by
  have hupdate : ∀ status, (taskRuns lib).Triple cond (.service .taskRunMonitor)
      (TaskRunAt (.service .taskRunMonitor) x.id)
      (TaskRunMonitor.updateTaskRunStatus x status) fun _ _ => True :=
    fun _ => taskRunAt_update hg fun _ _ => rfl
  refine Triple.seq (taskRunAt_uses hg (taskRunMonitor_starts x)) fun a => ?_
  refine Triple.seq (taskRunAt_uses hg (taskRunMonitor_derives x a)) fun status => ?_
  split
  · exact hupdate _
  · exact hupdate _
  · exact hupdate _
  · exact hupdate _
  · exact Triple.ret fun _ _ _ => trivial
  · exact hupdate _

/-- A pass over task runs selected where its thread takes them from. -/
theorem taskRuns_pass (hg : Gated cond) {s : Service} {status : TaskRunStatus}
    {handle : TaskRun → Code Unit} (hfrom : TaskRunFrom (.service s) status)
    (hhandles : ∀ x, (handle x).Uses (Handles (.service s) (.taskRun x.id)))
    (hhandle : ∀ x, (taskRuns lib).Triple cond (.service s) (TaskRunAt (.service s) x.id)
      (handle x) fun _ _ => True) :
    (taskRuns lib).Triple cond (.service s) (fun _ => True)
      (Poller.pass ⟨TaskRun, selectTaskRuns { status := some status }, handle⟩)
      fun _ _ => True := by
  refine Poller.pass_triple (K := fun x : TaskRun => TaskRunAt (.service s) x.id)
    (R := fun x y : TaskRun => x.id ≠ y.id) ?_ (fun x => taskRunAt_stable hg _ _)
    (fun x => (hhandle x).pre fun _ _ h => h.2) (fun x y hxy => ?_)
  · refine Triple.selectTaskRuns (O := taskRuns lib) (stable_true _) (fun _ _ _ => trivial)
      (fun _ _ => trivial) fun w _ x _ _ hfind hholds => ?_
    refine ⟨Table.lt_next_of_find hfind, fun y hy => ?_⟩
    cases hfind.symm.trans hy
    have hstatus : x.status = status := by
      simpa [SelectTaskRunsFilter.holds, clause] using hholds
    rw [hstatus]
    exact hfrom
  · -- each row is handled by its own id
    refine (hhandles x).mono fun o ho w r w' hi _ hpre hperf hat => ?_
    refine ⟨lt_of_lt_of_le hat.1 (taskRuns_next_le hperf), fun y' hy' => ?_⟩
    rcases taskRun_origin hperf hy' with hy | ⟨i, now, -, -, hnext, -⟩ |
      ⟨z, hz, ⟨f, i, rfl, -, hf, -⟩ | ⟨now, j, rfl, -⟩⟩
    · exact hat.2 y' hy
    · exact absurd (hnext ▸ hat.1) (lt_irrefl _)
    · have hid : z.id = x.id := updateTaskRunsFilter_holds_id ho.2 hf
      exact absurd (hid.symm.trans (Table.key_of_find hz)) hxy
    · cases ho.1

theorem taskRuns_valid (hg : Gated cond) : (taskRuns lib).Valid cond where
  init w hw := by
    have hw : w = .fresh := hw
    subst hw
    exact ⟨⟨fun x hx => absurd hx List.not_mem_nil, fun a ha => absurd ha List.not_mem_nil⟩,
      fun _ => trivial⟩
  step _ _ _ _ _ hi hpre h := taskRunsMoved_performs hg hi hpre h
  env w w' kill hi h := by
    refine ⟨⟨?_, ?_⟩, fun _ _ => trivial⟩
    · rw [happens_db h]
      exact fun x hx hplanned hskipped => released_happens h (hi.released x hx hplanned hskipped)
    · rw [happens_db h]
      exact hi.attempted
  idle t := stable_true t
  start := by
    -- nobody else writes a task run by its id, or adds an attempt
    have hothers : ∀ {t : Tid}, t ≠ .service .taskRunDispatcher → t ≠ .service .taskRunMonitor →
        ∀ {P : World → Prop} (p : Code Unit),
          (taskRuns lib).Triple cond t P p fun _ _ => True := by
      intro t hdispatcher hmonitor P p
      refine Triple.of_pre fun o w r w' _ hperf => ?_
      have hallowed := allowed_of hg.base hperf
      cases o with
      | write q =>
          cases q with
          | updateTaskRuns f i =>
              intro id hid
              cases hallowed with
              | endTaskRuns | releaseTaskRuns => cases hid
              | dropTaskRun | startTaskRun => exact absurd rfl hdispatcher
              | settleTaskRun => exact absurd rfl hmonitor
          | insertTaskRunAttempt i =>
              cases hallowed
              exact absurd rfl hmonitor
          | _ => trivial
      | _ => trivial
    refine start_triple (fun config fuel s => ?_) fun c r => hothers (by nofun) (by nofun) _
    refine Triple.pre ?_ fun _ _ _ => trivial
    cases s with
    | taskRunDispatcher =>
        exact taskRuns_pass hg rfl taskRunDispatcher_handles (taskRuns_dispatcher hg)
    | taskRunMonitor =>
        exact taskRuns_pass hg rfl taskRunMonitor_handles (taskRuns_monitor hg)
    | _ => exact hothers (by nofun) (by nofun) _

/-! ## Finished task runs -/

/-- The task run with this id has this status, as long as it is there. -/
def TaskRunIs (id : Nat) (status : TaskRunStatus) (w : World) : Prop :=
  id < w.db.taskRuns.next ∧ ∀ x, w.db.taskRuns.find id = some x → x.status = status

/-- A finished task run keeps its status. -/
theorem taskRunIs_permanent (hg : Gated cond) (ht : cond.Le (taskRuns lib).established) {id : Nat}
    {status : TaskRunStatus} (hfinished : status.isFinished = true) :
    Permanent cond (TaskRunIs id status) where
  performs h his := by
    refine ⟨lt_of_lt_of_le his.1 (taskRuns_next_le h), fun x' hx' => ?_⟩
    obtain ⟨hi, hpre, -⟩ := ht.1 _ _ _ _ _ h.2
    obtain ⟨x, hx, heq | ⟨hmove, -⟩⟩ := taskRun_move hg hi hpre h hx' his.1
    · rw [heq]
      exact his.2 x hx
    · have hunfinished := hmove.unfinished
      rw [his.2 x hx, hfinished] at hunfinished
      cases hunfinished
  happens h his := by
    unfold TaskRunIs
    rwa [happens_db h]

end Flowlite

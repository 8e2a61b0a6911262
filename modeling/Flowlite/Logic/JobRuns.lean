import Flowlite.Logic.Rules

/-!
# Where the status of a job run goes

`JobRunReleaser`, `JobRunDispatcher` and `JobRunMonitor` write by id, on the word
of a row each selected at the start of its pass. What makes that work is that
each of the three is the only one to take a run out of its status, so the row is
still where it was read; all but one of them: a scheduled run may be deleted
under the releaser's hands. `jobRuns` is the outline that says so.
-/

namespace Flowlite

open Store Host Threads Crud Machine Outline

variable {lib : Library} {cond : (flowlite lib).Condition}

/-! ## The outline -/

/-- The statuses a thread's `update_job_runs` finds a run in. -/
def JobRunFrom : Tid → JobRunStatus → Prop
  | .service .jobRunReleaser, status => status = .scheduled ∨ status = .deleted
  | .service .jobRunDispatcher, status => status = .queued
  | .service .jobRunMonitor, status => status = .running
  | _, _ => False

/-- Every `update_job_runs` lands where its thread alone takes runs from. -/
def jobRuns (lib : Library) : Outline (flowlite lib) where
  inv _ := True
  pre t o w := ∀ f i, o = .write (.updateJobRuns f i) →
    ∀ id x, w.db.jobRuns.find id = some x → f.holds x = true → JobRunFrom t x.status
  idle _ _ := True

/-- The run with this id is where `t` takes runs from, as long as it is there. -/
def JobRunAt (t : Tid) (id : Nat) (w : World) : Prop :=
  id < w.db.jobRuns.next ∧ ∀ x, w.db.jobRuns.find id = some x → JobRunFrom t x.status

theorem jobRunFrom_unique {t u : Tid} {status : JobRunStatus} (ht : JobRunFrom t status)
    (hu : JobRunFrom u status) : t = u := by
  unfold JobRunFrom at ht hu
  split at ht <;> split at hu <;> simp_all

theorem updateJobRunsFilter_holds {f : UpdateJobRunsFilter} {x : JobRun} {id : Nat}
    (hid : f.id = some id) (h : f.holds x = true) : x.id = id := by
  simpa [UpdateJobRunsFilter.holds, hid] using h

theorem jobRunAt_stable (t : Tid) (id : Nat) :
    (jobRuns lib).Stable cond t (JobRunAt t id) := by
  rintro w w' hothers ⟨hid, hat⟩
  cases hothers with
  | @run u o r hu _ _ hpre hperf =>
      refine ⟨lt_of_lt_of_le hid (jobRuns_next_le hperf), fun x' hx' => ?_⟩
      rcases jobRun_origin hperf hx' with hx | ⟨i, tasks, n, now, -, -, rfl, -⟩ |
        ⟨x, hx, ⟨f, i, rfl, -, hf, -⟩ | ⟨now, -, -, hscheduled, rfl⟩⟩
      · exact hat x' hx
      · exact absurd hid (lt_irrefl _)
      · exact absurd (jobRunFrom_unique (hpre f i rfl id x hx hf) (hat x hx)) hu
      · -- only the releaser's runs can be deleted where they are
        have := hat x hx
        rw [hscheduled] at this
        unfold JobRunFrom at this ⊢
        split at this <;> simp_all
  | env _ _ _ hhappens =>
      unfold JobRunAt
      rw [happens_db hhappens]
      exact ⟨hid, hat⟩

/-- What does not write job runs leaves them where they are. -/
theorem jobRunAt_uses {α : Type} {t : Tid} {id : Nat} {p : Code α}
    (hp : p.Uses fun o => ¬ WritesJobRuns o) :
    (jobRuns lib).Triple cond t (JobRunAt t id) p fun _ => JobRunAt t id := by
  refine Triple.of_uses (jobRunAt_stable t id) (hp.mono fun o ho w r w' _ hat hperf =>
    ⟨?_, fun _ => ?_⟩)
  · rintro f i rfl
    exact absurd trivial ho
  · unfold JobRunAt
    rw [jobRuns_kept hperf ho]
    exact hat

theorem silent_not_writesJobRuns {o : Op} (h : Silent o) : ¬ WritesJobRuns o := by
  cases o <;> simp_all [Silent, WritesJobRuns]

theorem jobRunAt_silent {α : Type} {t : Tid} {id : Nat} {p : Code α} (hp : p.Uses Silent) :
    (jobRuns lib).Triple cond t (JobRunAt t id) p fun _ => JobRunAt t id :=
  jobRunAt_uses (hp.mono fun _ => silent_not_writesJobRuns)

theorem jobRunAt_update {t : Tid} {id : Nat} (i : UpdateJobRunsInput) :
    (jobRuns lib).Triple cond t (JobRunAt t id) (updateJobRuns { id := some id } i)
      fun _ _ => True := by
  refine Triple.perform (jobRunAt_stable t id) ?_ fun _ _ _ _ _ _ _ => trivial
  rintro w r w' - ⟨-, hat⟩ - f j heq id' x hx hf
  cases heq
  have hxid : x.id = id := updateJobRunsFilter_holds rfl hf
  have hkey : x.id = id' := Table.key_of_find hx
  exact hat x (by rw [← hxid, hkey]; exact hx)

theorem jobRunAt_settleUnstarted {t : Tid} (ts : TaskRunStatus) (js : JobRunStatus) (id : Nat) :
    (jobRuns lib).Triple cond t (JobRunAt t id) (settleUnstarted ts js id) fun _ _ => True := by
  refine Triple.bind (jobRunAt_silent now_silent) (fun now => ?_) fun _ _ _ _ => trivial
  refine Triple.bind (jobRunAt_uses (uses_write nofun)) (fun _ => ?_) fun _ _ _ _ => trivial
  exact jobRunAt_update _

/-! ## The three services -/

theorem jobRuns_releaser (x : JobRun) :
    (jobRuns lib).Triple cond (.service .jobRunReleaser)
      (JobRunAt (.service .jobRunReleaser) x.id)
      (JobRunReleaser.handleScheduledJobRun x) fun _ _ => True := by
  refine Triple.bind (jobRunAt_silent (jobRunReleaser_derives x)) (fun status => ?_)
    fun _ _ _ _ => trivial
  split
  · exact jobRunAt_settleUnstarted _ _ _
  · exact jobRunAt_update _
  · exact Triple.ret fun _ _ _ => trivial
  · exact jobRunAt_settleUnstarted _ _ _

theorem jobRuns_dispatcher (config : Config) (x : JobRun) :
    (jobRuns lib).Triple cond (.service .jobRunDispatcher)
      (JobRunAt (.service .jobRunDispatcher) x.id)
      (JobRunDispatcher.handleQueuedJobRun config x) fun _ _ => True := by
  refine Triple.bind (jobRunAt_silent (jobRunDispatcher_derives config x)) (fun status => ?_)
    fun _ _ _ _ => trivial
  split
  · exact jobRunAt_settleUnstarted _ _ _
  · exact Triple.ret fun _ _ _ => trivial
  · refine Triple.bind (jobRunAt_uses (createJobRunDir_uses
      (fun _ => silent_not_writesJobRuns) (fun _ => nofun) _ _)) (fun _ => ?_)
      fun _ _ _ _ => trivial
    refine Triple.bind (jobRunAt_uses (uses_write nofun)) (fun _ => ?_) fun _ _ _ _ => trivial
    refine Triple.bind (jobRunAt_silent now_silent) (fun _ => ?_) fun _ _ _ _ => trivial
    exact jobRunAt_update _
  · exact jobRunAt_settleUnstarted _ _ _

theorem jobRuns_monitor (x : JobRun) :
    (jobRuns lib).Triple cond (.service .jobRunMonitor)
      (JobRunAt (.service .jobRunMonitor) x.id)
      (JobRunMonitor.handleRunningJobRun x) fun _ _ => True := by
  have hupdate : ∀ status, (jobRuns lib).Triple cond (.service .jobRunMonitor)
      (JobRunAt (.service .jobRunMonitor) x.id)
      (JobRunMonitor.updateJobRunStatus x status) fun _ _ => True := fun status =>
    Triple.bind (jobRunAt_silent now_silent) (fun _ => jobRunAt_update _) fun _ _ _ _ => trivial
  refine Triple.bind (jobRunAt_silent (selectTaskRuns_silent _)) (fun taskRuns => ?_)
    fun _ _ _ _ => trivial
  split
  · exact hupdate _
  · exact hupdate _
  · exact hupdate _
  · exact hupdate _
  · exact Triple.ret fun _ _ _ => trivial
  · exact hupdate _

/-- Handling one run leaves every other run where it is. -/
theorem jobRunAt_frame (hb : cond.Le (base lib).established) {s : Service} {u : Tid}
    {id id' : Nat} (hne : id ≠ id') {p : Code Unit}
    (hp : p.Uses (Handles (.service s) (.jobRun id))) :
    p.Uses fun o => ∀ w r w', (jobRuns lib).inv w → (jobRuns lib).inv w' →
      (jobRuns lib).pre (.service s) o w → Performs cond (.service s) o w r w' →
      JobRunAt u id' w → JobRunAt u id' w' := by
  refine hp.mono fun o ho w r w' _ _ _ hperf hat => ?_
  refine ⟨lt_of_lt_of_le hat.1 (jobRuns_next_le hperf), fun x' hx' => ?_⟩
  rcases jobRun_origin hperf hx' with hx | ⟨i, tasks, n, now, -, -, rfl, -⟩ |
    ⟨x, hx, ⟨f, i, rfl, -, hf, -⟩ | ⟨now, rfl, -⟩⟩
  · exact hat.2 x' hx
  · exact absurd hat.1 (lt_irrefl _)
  · exact absurd ((updateJobRunsFilter_holds ho.2 hf).symm.trans (Table.key_of_find hx)) hne
  · cases allowed_of hb hperf

/-- A pass over job runs selected where its thread takes runs from. -/
theorem jobRuns_pass (hb : cond.Le (base lib).established) {s : Service} {q : SelectJobRuns}
    {handle : JobRun → Code Unit}
    (hq : ∀ db x, q.filter.holds db x = true → JobRunFrom (.service s) x.status)
    (hhandles : ∀ x, (handle x).Uses (Handles (.service s) (.jobRun x.id)))
    (hhandle : ∀ x, (jobRuns lib).Triple cond (.service s) (JobRunAt (.service s) x.id)
      (handle x) fun _ _ => True) :
    (jobRuns lib).Triple cond (.service s) (fun _ => True)
      (Poller.pass ⟨JobRun, selectJobRuns q, handle⟩) fun _ _ => True := by
  refine Poller.pass_triple (K := fun x : JobRun => JobRunAt (.service s) x.id)
    (R := fun x y : JobRun => x.id ≠ y.id) ?_ (fun x => jobRunAt_stable _ _)
    (fun x => (hhandle x).pre fun _ _ h => h.2)
    (fun x y hxy => jobRunAt_frame hb hxy (hhandles x))
  refine Triple.selectJobRuns (O := jobRuns lib) (stable_true _) (fun _ _ _ => trivial)
    (fun _ _ _ _ => by nofun) fun w _ x _ _ hfind hholds => ?_
  refine ⟨Table.lt_next_of_find hfind, fun y hy => ?_⟩
  cases hfind.symm.trans hy
  exact hq w.db x hholds

theorem selectJobRuns_status {status : JobRunStatus} {db : Database} {x : JobRun}
    (h : ({ status := some status } : SelectJobRunsFilter).holds db x = true) :
    x.status = status := by
  simpa [SelectJobRunsFilter.holds] using h

theorem jobRuns_valid (hb : cond.Le (base lib).established) : (jobRuns lib).Valid cond where
  init _ _ := ⟨trivial, fun _ => trivial⟩
  step _ _ _ _ _ _ _ _ := trivial
  env _ _ _ _ _ := ⟨trivial, fun _ _ => trivial⟩
  idle t := stable_true t
  start := by
    -- no other thread's code updates this table at all
    have hothers : ∀ {t : Tid}, t ≠ .service .jobRunReleaser → t ≠ .service .jobRunDispatcher →
        t ≠ .service .jobRunMonitor → ∀ p : Code Unit,
        (jobRuns lib).Triple cond t (fun _ => True) p fun _ _ => True := by
      intro t hreleaser hdispatcher hmonitor p
      refine Triple.of_pre fun o w r w' _ hperf f i heq => ?_
      subst heq
      cases allowed_of hb hperf with
      | endJobRun ht _ =>
          rcases ht with rfl | rfl
          · exact absurd rfl hreleaser
          · exact absurd rfl hdispatcher
      | queueJobRun => exact absurd rfl hreleaser
      | startJobRun => exact absurd rfl hdispatcher
      | settleJobRun _ _ _ => exact absurd rfl hmonitor
    refine start_triple (fun config fuel s => ?_) fun c r => hothers (by nofun) (by nofun) (by nofun) _
    refine Triple.pre ?_ fun _ _ _ => trivial
    cases s with
    | jobRunReleaser =>
        exact jobRuns_pass hb (fun _ _ h => .inl (selectJobRuns_status h))
          jobRunReleaser_handles jobRuns_releaser
    | jobRunDispatcher =>
        exact jobRuns_pass hb (fun _ _ h => selectJobRuns_status h)
          (jobRunDispatcher_handles config) (jobRuns_dispatcher config)
    | jobRunMonitor =>
        exact jobRuns_pass hb (fun _ _ h => selectJobRuns_status h)
          jobRunMonitor_handles jobRuns_monitor
    | _ => exact hothers (by nofun) (by nofun) (by nofun) _

/-! ## Finished runs

A deleted run is the one finished run a service may still write: the releaser,
which read it while it was scheduled. -/

/-- No write of the releaser lands on a run that has been deleted since it was
selected. -/
def sparesDeleted (lib : Library) : (flowlite lib).Condition where
  step t o w r _ :=
    match t, o, r with
    | .service .jobRunReleaser, .write (.updateJobRuns f _), .ok _ =>
        ∀ x ∈ w.db.jobRuns.rows, f.holds x = true → x.status ≠ .deleted
    | _, _, _ => True
  env _ _ _ := True

instance : (sparesDeleted lib).Checked where
  step t o w r w' := by
    dsimp only [sparesDeleted]
    split <;> infer_instance
  env _ _ _ := isTrue trivial

/-- The run with this id has this status, as long as it is there. -/
def JobRunIs (id : Nat) (status : JobRunStatus) (w : World) : Prop :=
  id < w.db.jobRuns.next ∧ ∀ x, w.db.jobRuns.find id = some x → x.status = status

/-- A finished run keeps its status through a step. -/
theorem jobRunIs_performs (hj : cond.Le (jobRuns lib).established) {t : Tid} {o : Op}
    {w w' : World} {r : Result o} {id : Nat} {status : JobRunStatus}
    (hfinished : status.isFinished = true)
    (hs : status = .deleted → cond.Le (sparesDeleted lib)) (his : JobRunIs id status w) (h : Performs cond t o w r w') : JobRunIs id status w' := by
  refine ⟨lt_of_lt_of_le his.1 (jobRuns_next_le h), fun x' hx' => ?_⟩
  rcases jobRun_origin h hx' with hx | ⟨i, tasks, n, now, -, -, rfl, -⟩ |
    ⟨x, hx, ⟨f, i, rfl, ⟨a, rfl⟩, hf, -⟩ | ⟨now, -, -, hscheduled, -⟩⟩
  · exact his.2 x' hx
  · exact absurd his.1 (lt_irrefl _)
  · have hfrom := (hj.1 _ _ _ _ _ h.2).2.1 f i rfl id x hx hf
    rw [his.2 x hx] at hfrom
    unfold JobRunFrom at hfrom
    split at hfrom
    · rcases hfrom with rfl | rfl
      · cases hfinished
      · exact absurd (his.2 x hx) ((hs rfl).1 _ _ _ _ _ h.2 x (Table.mem_of_find hx) hf)
    · subst hfrom
      cases hfinished
    · subst hfrom
      cases hfinished
    · exact hfrom.elim
  · rw [his.2 x hx] at hscheduled
    rw [hscheduled] at hfinished
    cases hfinished

theorem jobRunIs_happens {w w' : World} {kill : Tid → Bool} {id : Nat} {status : JobRunStatus}
    (h : Happens cond w w' kill) (his : JobRunIs id status w) : JobRunIs id status w' := by
  unfold JobRunIs
  rw [happens_db h]
  exact his

theorem jobRunIs_star (hs : cond.Le (sparesDeleted lib))
    (hj : cond.Le (jobRuns lib).established) {id : Nat} {status : JobRunStatus}
    (hfinished : status.isFinished = true) {c c' : (flowlite lib).Config}
    (h : Relation.ReflTransGen (Next cond) c c') (his : JobRunIs id status c.state) :
    JobRunIs id status c'.state := by
  induction h with
  | refl => exact his
  | tail _ hn ih =>
      refine hn.keeps (P := JobRunIs id status) (fun t o w r w' hp hw => ?_)
        (fun w w' kill he hw => jobRunIs_happens he hw) ih
      exact jobRunIs_performs hj hfinished (fun _ => hs) hw hp

/-! ## The way of a status -/

/-- What a step can make of the status of a run. -/
inductive JobRunMove : JobRunStatus → JobRunStatus → Prop
  | release {status : JobRunStatus} :
      status = .scheduled ∨ status = .deleted → JobRunMove status .queued
  | drop {before after : JobRunStatus} :
      before = .scheduled ∨ before = .deleted ∨ before = .queued →
      after = .skipped ∨ after = .invalid → JobRunMove before after
  | start : JobRunMove .queued .running
  | settle {status : JobRunStatus} : status.isFinished = true → status ≠ .skipped →
      status ≠ .deleted → JobRunMove .running status
  | delete : JobRunMove .scheduled .deleted

/-- A run that is there after a step was there before it, and its status is as it was or
has made a move. -/
theorem jobRun_move (hb : cond.Le (base lib).established) (hj : cond.Le (jobRuns lib).established)
    {t : Tid} {o : Op} {w w' : World} {r : Result o} (h : Performs cond t o w r w') {x' : JobRun}
    {id : Nat} (hx' : w'.db.jobRuns.find id = some x') (hid : id < w.db.jobRuns.next) :
    ∃ x, w.db.jobRuns.find id = some x ∧
      (x'.status = x.status ∨ JobRunMove x.status x'.status) := by
  rcases jobRun_origin h hx' with hx | ⟨i, tasks, n, now, -, -, hnext, -⟩ |
    ⟨x, hx, ⟨f, i, rfl, -, hf, rfl⟩ | ⟨now, -, -, hscheduled, rfl⟩⟩
  · exact ⟨x', hx, .inl rfl⟩
  · exact absurd hid (by omega)
  · refine ⟨x, hx, .inr ?_⟩
    have hfrom := (hj.1 _ _ _ _ _ h.2).2.1 f i rfl id x hx hf
    cases allowed_of hb h with
    | endJobRun ht hs =>
        rcases ht with rfl | rfl
        · exact .drop (hfrom.imp_right .inl) hs
        · exact .drop (.inr (.inr hfrom)) hs
    | queueJobRun => exact .release hfrom
    | startJobRun =>
        have hqueued : x.status = .queued := hfrom
        rw [hqueued]
        exact .start
    | settleJobRun hfinished hskipped hdeleted =>
        have hrunning : x.status = .running := hfrom
        rw [hrunning]
        exact .settle hfinished hskipped hdeleted
  · refine ⟨x, hx, .inr ?_⟩
    rw [hscheduled]
    exact .delete

/-- The run with this id has a status of this kind, as long as it is there. -/
def JobRunIn (kind : JobRunStatus → Bool) (id : Nat) (w : World) : Prop :=
  id < w.db.jobRuns.next ∧ ∀ x, w.db.jobRuns.find id = some x → kind x.status = true

/-- A kind of status no move leads out of is kept. -/
theorem jobRunIn_performs (hb : cond.Le (base lib).established)
    (hj : cond.Le (jobRuns lib).established) {kind : JobRunStatus → Bool}
    (hkind : ∀ before after, JobRunMove before after → kind before = true → kind after = true)
    {t : Tid} {o : Op} {w w' : World} {r : Result o} {id : Nat} (h : Performs cond t o w r w')
    (hin : JobRunIn kind id w) : JobRunIn kind id w' := by
  refine ⟨lt_of_lt_of_le hin.1 (jobRuns_next_le h), fun x' hx' => ?_⟩
  obtain ⟨x, hx, hsame | hmove⟩ := jobRun_move hb hj h hx' hin.1
  · rw [hsame]
    exact hin.2 x hx
  · exact hkind _ _ hmove (hin.2 x hx)

theorem jobRunIn_happens {w w' : World} {kill : Tid → Bool} {kind : JobRunStatus → Bool}
    {id : Nat} (h : Happens cond w w' kill) (hin : JobRunIn kind id w) : JobRunIn kind id w' := by
  unfold JobRunIn
  rwa [happens_db h]

/-- `jobRunAt_stable` for an outline laid over this one. -/
theorem jobRunAt_stays (hj : cond.Le (jobRuns lib).established) {O : Outline (flowlite lib)}
    (t : Tid) (id : Nat) : O.Stable cond t (JobRunAt t id) := by
  intro w w' hothers hat
  cases hothers with
  | run hu _ _ _ hperf =>
      exact jobRunAt_stable t id w w'
        (.run hu trivial trivial (hj.1 _ _ _ _ _ hperf.2).2.1 hperf) hat
  | env _ _ _ hhappens =>
      unfold JobRunAt
      rwa [happens_db hhappens]

end Flowlite

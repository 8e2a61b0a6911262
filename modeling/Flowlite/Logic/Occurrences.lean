import Flowlite.Logic.Dependencies
import Flowlite.Logic.Slots

/-!
# Occurrences of a schedule

The scheduler alone submits runs for a schedule, one pair of a job and an instant at a time,
and looks for a run of the pair before it does. A deleted run does not count: deleting it makes
room for another. `occurrences` is the outline that says what the look is good for. Nobody else
writes a run of the pair in between, and a deletion stays on record, also when the row is written
over.
-/

namespace Flowlite

open Store Host Threads Crud Machine Outline

variable {lib : Library} {cond : (flowlite lib).Condition} {O : Outline (flowlite lib)}

/-- The run was submitted for this occurrence of the schedule. -/
def Store.JobRun.IsFor (x : JobRun) (scheduleId jobId : String) (scheduledAt : Instant) : Prop :=
  x.scheduleId = some scheduleId ∧ x.jobId = jobId ∧ x.scheduledAt = scheduledAt

/-- Every run there is of the occurrence has been deleted. -/
def Free (scheduleId jobId : String) (scheduledAt : Instant) (w : World) : Prop :=
  ∀ x ∈ w.db.jobRuns.rows, x.IsFor scheduleId jobId scheduledAt → w.Deleted x.id

/-- Of two runs of one occurrence, the older has been deleted. -/
def OncePerOccurrence (w : World) : Prop :=
  ∀ scheduleId jobId scheduledAt, ∀ x ∈ w.db.jobRuns.rows, ∀ y ∈ w.db.jobRuns.rows,
    x.IsFor scheduleId jobId scheduledAt → y.IsFor scheduleId jobId scheduledAt →
      x.id < y.id → w.Deleted x.id

/-- A run reads deleted only if somebody deleted it. -/
def DeletionsOnRecord (w : World) : Prop :=
  ∀ x ∈ w.db.jobRuns.rows, x.status = .deleted → w.Deleted x.id

/-- A run is written for an occurrence that is free. -/
def occurrences (lib : Library) : Outline (flowlite lib) where
  inv w := DeletionsOnRecord w ∧ OncePerOccurrence w
  pre _ o w := ∀ i tasks n, o = .write (.insertJobRun i tasks n) →
    ∀ scheduleId, i.scheduleId = some scheduleId → Free scheduleId i.jobId i.scheduledAt w
  idle _ _ := True

/-! ## One step -/

section Steps

variable {t : Tid} {o : Op} {w w' : World} {r : Result o}

theorem deleted_performs (h : Performs cond t o w r w') {id : Nat} (hid : w.Deleted id) :
    w'.Deleted id := by
  obtain ⟨e, he, hburies⟩ := hid
  refine ⟨e, ?_, hburies⟩
  rw [log_performs h]
  exact List.mem_cons_of_mem _ he

/-- A run that is there after a step is a new one, or was there before it. -/
theorem jobRun_kept_or_new (h : Performs cond t o w r w') {x' : JobRun}
    (hx' : x' ∈ w'.db.jobRuns.rows) :
    (∃ x ∈ w.db.jobRuns.rows, x.id = x'.id ∧ JobRun.Same x x') ∨
      ∃ i tasks n now, o = .write (.insertJobRun i tasks n) ∧
        x' = (i.draft now).row w.db.jobRuns.next := by
  rcases jobRun_origin h (Table.find_of_mem hx') with hx | ⟨i, tasks, n, now, ho, -, hid, hnew⟩ |
    ⟨x, hx, ⟨f, i, -, -, -, hnew⟩ | ⟨now, -, -, -, hnew⟩⟩
  · exact .inl ⟨x', Table.mem_of_find hx, rfl, rfl⟩
  · exact .inr ⟨i, tasks, n, now, ho, hid ▸ hnew⟩
  · exact .inl ⟨x, Table.mem_of_find hx, Table.key_of_find hx, by rw [hnew]; rfl⟩
  · exact .inl ⟨x, Table.mem_of_find hx, Table.key_of_find hx, by rw [hnew]; rfl⟩

theorem isFor_same {x x' : JobRun} (h : JobRun.Same x x') {scheduleId jobId : String}
    {scheduledAt : Instant} :
    x'.IsFor scheduleId jobId scheduledAt ↔ x.IsFor scheduleId jobId scheduledAt := by
  have hsame : x' = _ := h
  rw [hsame]
  exact Iff.rfl

/-- What is free stays free, as long as no run is written for it. -/
theorem free_kept (h : Performs cond t o w r w') {scheduleId jobId : String}
    {scheduledAt : Instant}
    (ho : ∀ i tasks n, o = .write (.insertJobRun i tasks n) → i.scheduleId ≠ some scheduleId)
    (hfree : Free scheduleId jobId scheduledAt w) : Free scheduleId jobId scheduledAt w' := by
  intro x' hx' hfor
  rcases jobRun_kept_or_new h hx' with ⟨x, hx, hid, hsame⟩ | ⟨i, tasks, n, now, heq, rfl⟩
  · rw [← hid]
    exact deleted_performs h (hfree x hx ((isFor_same hsame).mp hfor))
  · exact absurd hfor.1 (ho i tasks n heq)

theorem free_log {scheduleId jobId : String} {scheduledAt : Instant} {e : Host.Event}
    (hfree : Free scheduleId jobId scheduledAt w) :
    Free scheduleId jobId scheduledAt { w with log := e :: w.log } := by
  intro x hx hfor
  obtain ⟨e', he, hburies⟩ := hfree x hx hfor
  exact ⟨e', List.mem_cons_of_mem _ he, hburies⟩

theorem free_happens {kill : Tid → Bool} (h : Happens cond w w' kill)
    {scheduleId jobId : String} {scheduledAt : Instant}
    (hfree : Free scheduleId jobId scheduledAt w) : Free scheduleId jobId scheduledAt w' := by
  unfold Free Host.World.Deleted
  rwa [happens_db h, log_happens h]

/-- Nobody but the scheduler writes a run for a schedule. -/
theorem submitted_by_hand (hb : cond.Le (base lib).established) (h : Performs cond t o w r w')
    (ht : t ≠ .service .scheduler) {scheduleId : String} (i : InsertJobRunInput)
    (tasks : List String) (n : Nat) (heq : o = .write (.insertJobRun i tasks n)) :
    i.scheduleId ≠ some scheduleId := by
  subst heq
  intro hschedule
  cases allowed_of hb h with
  | submitScheduled => exact ht rfl
  | submit _ hnone =>
      rw [hnone] at hschedule
      cases hschedule

/-- No update says that a run is deleted. -/
theorem updates_no_deleted (hb : cond.Le (base lib).established) {f : UpdateJobRunsFilter}
    {i : UpdateJobRunsInput} {r : Result (.write (.updateJobRuns f i))}
    (h : Performs cond t (.write (.updateJobRuns f i)) w r w') {x : JobRun}
    (hx : (i.patch.apply x).status = .deleted) : x.status = .deleted := by
  have hstatus : i.status ≠ some .deleted := by
    cases allowed_of hb h with
    | endJobRun _ hended => rcases hended with rfl | rfl <;> nofun
    | queueJobRun | startJobRun => nofun
    | settleJobRun _ _ hnot => exact fun h => hnot (Option.some.inj h)
  have hx : i.status.getD x.status = .deleted := hx
  cases hwrites : i.status with
  | none => simpa [hwrites] using hx
  | some status => exact absurd (by simpa [hwrites] using hx) hstatus

theorem deletionsOnRecord_performs (hb : cond.Le (base lib).established)
    (h : Performs cond t o w r w') (hw : DeletionsOnRecord w) : DeletionsOnRecord w' := by
  intro x' hx' hdeleted
  rcases jobRun_origin h (Table.find_of_mem hx') with hx | ⟨i, tasks, n, now, rfl, -, -, hnew⟩ |
    ⟨x, hx, ⟨f, i, rfl, -, -, hnew⟩ | ⟨now, rfl, hok, hscheduled, -⟩⟩
  · exact deleted_performs h (hw x' (Table.mem_of_find hx) hdeleted)
  · rw [hnew] at hdeleted
    have hstatus : i.status = .deleted := hdeleted
    cases allowed_of hb h with
    | submitScheduled hscheduled | submit hscheduled =>
        rw [hscheduled] at hstatus
        cases hstatus
  · rw [hnew] at hdeleted
    have hid : x.id = x'.id := Table.key_of_find hx
    rw [← hid]
    exact deleted_performs h (hw x (Table.mem_of_find hx) (updates_no_deleted hb h hdeleted))
  · exact deleted_of_performs h hok hx hscheduled

theorem oncePerOccurrence_performs (h : Performs cond t o w r w')
    (hpre : (occurrences lib).pre t o w) (hw : OncePerOccurrence w) : OncePerOccurrence w' := by
  intro scheduleId jobId scheduledAt x' hx' y' hy' hxfor hyfor hlt
  rcases jobRun_kept_or_new h hx' with ⟨x, hx, hxid, hxsame⟩ | ⟨i, tasks, n, now, -, rfl⟩ <;>
    rcases jobRun_kept_or_new h hy' with ⟨y, hy, hyid, hysame⟩ | ⟨i', tasks', n', now', heq, rfl⟩
  · rw [← hxid, ← hyid] at hlt
    rw [← hxid]
    exact deleted_performs h (hw scheduleId jobId scheduledAt x hx y hy
      ((isFor_same hxsame).mp hxfor) ((isFor_same hysame).mp hyfor) hlt)
  · -- a new run finds its occurrence free
    have hfree := hpre i' tasks' n' heq scheduleId hyfor.1
    rw [show i'.jobId = jobId from hyfor.2.1, show i'.scheduledAt = scheduledAt from hyfor.2.2]
      at hfree
    rw [← hxid]
    exact deleted_performs h (hfree x hx ((isFor_same hxsame).mp hxfor))
  · -- and is younger than those that were there
    have hold : y'.id < w.db.jobRuns.next := by
      rw [← hyid]
      exact Table.lt_next_of_find (Table.find_of_mem hy)
    exact absurd (lt_trans hlt hold) (lt_irrefl _)
  · exact absurd hlt (lt_irrefl _)

end Steps

/-! ## The scheduler -/

/-- No run is written for a schedule. -/
def WritesNoScheduled (o : Op) : Prop :=
  ∀ i tasks n, o = .write (.insertJobRun i tasks n) → i.scheduleId = none

theorem Silent.writesNoScheduled {o : Op} (h : Silent o) : WritesNoScheduled o := by
  rintro i tasks n rfl
  exact h.elim

theorem WritesNoScheduled.pre {o : Op} (h : WritesNoScheduled o) (t : Tid) (w : World) :
    (occurrences lib).pre t o w := by
  intro i tasks n heq scheduleId hschedule
  rw [h i tasks n heq] at hschedule
  cases hschedule

theorem free_stable (hb : cond.Le (base lib).established) (scheduleId jobId : String) (scheduledAt : Instant) :
    O.Stable cond (.service .scheduler) (Free scheduleId jobId scheduledAt) := by
  intro w w' hothers hfree
  cases hothers with
  | run hu _ _ _ hperf => exact free_kept hperf (submitted_by_hand hb hperf hu) hfree
  | env _ _ _ hhappens => exact free_happens hhappens hfree

section Scheduler

variable {scheduleId jobId : String} {scheduledAt : Instant}

theorem free_uses (hb : cond.Le (base lib).established) {α : Type} {p : Code α}
    (hp : p.Uses WritesNoScheduled) :
    (occurrences lib).Triple cond (.service .scheduler) (Free scheduleId jobId scheduledAt) p
      fun _ => Free scheduleId jobId scheduledAt :=
  Triple.of_uses (free_stable hb _ _ _) (hp.mono fun o ho w r w' _ hfree h =>
    ⟨ho.pre _ _, fun _ => free_kept h (fun i tasks n heq hschedule => by
      rw [ho i tasks n heq] at hschedule
      cases hschedule) hfree⟩)

theorem writesNoScheduled_uses {α : Type} {t : Tid} {p : Code α} (hp : p.Uses WritesNoScheduled) :
    (occurrences lib).Triple cond t (fun _ => True) p fun _ _ => True :=
  Triple.permanent (.const True) (hp.mono fun _ ho w _ _ => ho.pre _ w)

/-- The run is written first, for the occurrence that is free. -/
theorem occurrences_insert (hb : cond.Le (base lib).established)
    (d : JobRunDefinition) (hschedule : d.scheduleId = some scheduleId) (hjob : d.jobId = jobId)
    (hat : d.scheduledAt = scheduledAt) :
    (occurrences lib).Triple cond (.service .scheduler) (Free scheduleId jobId scheduledAt)
      (insertJobRunDefinition d) fun _ _ => True := by
  refine Triple.seq (R := fun _ _ => True) (Triple.perform (free_stable hb _ _ _) ?_
    fun _ _ _ _ _ _ _ => trivial)
    fun id => Triple.pre (writesNoScheduled_uses ?_) fun _ _ _ => trivial
  · intro w r w' _ hfree _ i tasks n heq other hother
    cases heq
    have hsame : scheduleId = other := Option.some.inj (hschedule.symm.trans hother)
    rw [← hsame]
    show Free scheduleId d.jobId d.scheduledAt w
    rw [hjob, hat]
    exact hfree
  · refine Prog.Uses.bind (Prog.Uses.forEach fun task _ => ?_) fun _ =>
      Prog.Uses.bind (Prog.Uses.forEach fun n _ => ?_) fun _ => Prog.uses_ret _
    · exact Prog.Uses.bind (uses_write fun _ _ _ => nofun) fun _ => Prog.uses_ret _
    · exact Prog.Uses.bind (uses_write fun _ _ _ => nofun) fun _ => Prog.uses_ret _

/-- The occurrence is free, if the scheduler finds no run of it. -/
theorem free_of_selectJobRuns {w : World} (hi : DeletionsOnRecord w)
    (h : w.db.selectJobRuns { filter :=
      { jobId := some jobId, statuses := some Scheduler.occupyingStatuses
        scheduleId := some scheduleId, scheduledAt := some scheduledAt }, limit := some 1 } = []) :
    Free scheduleId jobId scheduledAt w := by
  intro x hx hfor
  by_cases hdeleted : x.status = .deleted
  · exact hi x hx hdeleted
  · have hmem : x ∈ w.db.jobRuns.rows.filter (SelectJobRunsFilter.holds
        { jobId := some jobId, statuses := some Scheduler.occupyingStatuses
          scheduleId := some scheduleId, scheduledAt := some scheduledAt } w.db) := by
      refine List.mem_filter.mpr ⟨hx, ?_⟩
      obtain ⟨hschedule, hjob, hat⟩ := hfor
      have hoccupies : x.status ∈ Scheduler.occupyingStatuses := by
        unfold Scheduler.occupyingStatuses
        cases hstatus : x.status <;> first | exact absurd hstatus hdeleted | simp
      simp [SelectJobRunsFilter.holds, clause, hschedule, hjob, hat, hoccupies]
    obtain ⟨first, rest, heq⟩ := List.exists_cons_of_ne_nil (List.ne_nil_of_mem hmem)
    simp [Database.selectJobRuns, sorted, window, heq] at h

theorem occurrences_submitJob (hb : cond.Le (base lib).established) (config : Config)
    (overrides : BTreeMap String String) :
    (occurrences lib).Triple cond (.service .scheduler) (Free scheduleId jobId scheduledAt)
      (submitJob config jobId overrides scheduledAt (some scheduleId) none) fun _ _ => True := by
  have hreads : ∀ {α : Type} {p : Code α}, p.Uses Silent →
      (occurrences lib).Triple cond (.service .scheduler) (Free scheduleId jobId scheduledAt) p
        fun _ => Free scheduleId jobId scheduledAt :=
    fun hp => free_uses hb (hp.mono fun _ h => h.writesNoScheduled)
  refine Triple.bind (hreads (resolveParentTaskRunAttempt_silent _)) (fun parent => ?_)
    fun _ _ _ _ => trivial
  have hmem : (occurrences lib).Triple cond (.service .scheduler)
      (Free scheduleId jobId scheduledAt) (Crud.perform .selectMem)
      fun _ => Free scheduleId jobId scheduledAt := hreads (uses_op trivial)
  have hselect : (occurrences lib).Triple cond (.service .scheduler)
      (Free scheduleId jobId scheduledAt) (selectJob config jobId) fun r w =>
        Free scheduleId jobId scheduledAt w ∧ ∀ job, r = .ok (some job) → job.jobId = jobId := by
    refine Triple.bind hmem (fun _ => Triple.ret fun _ _ h => ⟨h, fun job hjob => ?_⟩)
      fun _ _ _ h => ⟨h, fun _ => nofun⟩
    simpa using List.find?_some (Except.ok.inj hjob)
  refine Triple.bind hselect (fun found => ?_) fun _ _ _ _ => trivial
  cases found with
  | none => exact Triple.throw fun _ _ _ => trivial
  | some job =>
      refine Triple.of_fact (F := job.jobId = jobId) (fun _ _ h => h.2 job rfl) fun hjob => ?_
      refine Triple.pre (W := Free scheduleId jobId scheduledAt) ?_ fun _ _ h => h.1
      change (occurrences lib).Triple cond _ _ ((Prog.ofExcept (resolveJobParameters jobId
        job.parameters overrides)).bind _) _
      refine Triple.bind (hreads (Prog.uses_ofExcept _)) (fun parameters => ?_)
        fun _ _ _ _ => trivial
      refine Triple.bind (hreads (selectTasks_silent _ _)) (fun tasks => ?_) fun _ _ _ _ => trivial
      exact occurrences_insert hb _ rfl hjob rfl

theorem occurrences_submitIfMissing (hb : cond.Le (base lib).established) (config : Config)
    (schedule : Schedule) (scheduleJob : ScheduleJob) (occurrence : Instant) :
    (occurrences lib).Triple cond (.service .scheduler) (fun _ => True)
      (Scheduler.submitIfMissing config schedule scheduleJob occurrence) fun _ _ => True := by
  have hselect : (occurrences lib).Triple cond (.service .scheduler) (fun _ => True)
      (selectJobRun { jobId := some scheduleJob.jobId, statuses := some Scheduler.occupyingStatuses
                      scheduleId := some schedule.scheduleId, scheduledAt := some occurrence })
      fun r w => r = .ok none → Free schedule.scheduleId scheduleJob.jobId occurrence w := by
    have hrows : ∀ q : SelectJobRuns, (∀ w : World, DeletionsOnRecord w →
        w.db.selectJobRuns q = [] → Free schedule.scheduleId scheduleJob.jobId occurrence w) →
        (occurrences lib).Triple cond (.service .scheduler) (fun _ => True) (selectJobRuns q)
          fun r w => r = .ok [] →
            Free schedule.scheduleId scheduleJob.jobId occurrence w := by
      intro q hq
      have htrue : (occurrences lib).Stable cond (.service .scheduler) fun _ => True := stable_true _
      have hselect := Triple.select (q := .jobRuns q)
        (Q := fun (rows : List JobRun) w => rows = [] →
          Free schedule.scheduleId scheduleJob.jobId occurrence w) htrue
        (fun _ _ _ => trivial) (fun w _ _ _ _ => nofun)
        fun w hi _ hnil => free_log (hq w hi.1 hnil)
      exact hselect.post fun r w _ h hnil => h.2 [] hnil rfl
    refine Triple.bind (hrows _ fun w hi => free_of_selectJobRuns hi)
      (fun rows => Triple.ret fun w _ h hnone => ?_) fun _ _ _ _ => nofun
    refine h ?_
    rw [List.head?_eq_none_iff.mp (Except.ok.inj hnone)]
  refine Triple.bind hselect (fun existing => ?_) fun _ _ _ _ => trivial
  cases existing with
  | some x => exact Triple.ret fun _ _ _ => trivial
  | none =>
      exact Triple.attempt_bind ((occurrences_submitJob hb config _).pre fun _ _ h => h rfl)
        fun _ => Triple.ret fun _ _ _ => trivial

theorem occurrences_pass (hb : cond.Le (base lib).established) (config : Config) :
    (occurrences lib).Triple cond (.service .scheduler) (fun _ => True)
      (Scheduler.poller lib config).pass fun _ _ => True := by
  have hmem : ∀ {α : Type} (f : Unit → α), (occurrences lib).Triple cond (.service .scheduler)
      (fun _ => True) ((Crud.perform .selectMem).bind fun a => .ret (f a)) fun _ _ => True :=
    fun f => writesNoScheduled_uses (uses_map (o := .selectMem) fun _ _ _ => nofun)
  refine Poller.pass_each (hmem _) fun schedule => ?_
  refine Triple.seq (writesNoScheduled_uses (now_silent.mono fun _ h => h.writesNoScheduled))
    fun now => Triple.pre ?_ fun _ _ _ => trivial
  refine Triple.seq (hmem _) fun scheduleJobs => Triple.pre ?_ fun _ _ _ => trivial
  exact Triple.each fun occurrence _ => Triple.each fun scheduleJob _ =>
    occurrences_submitIfMissing hb config schedule scheduleJob occurrence

end Scheduler

theorem occurrences_valid (hb : cond.Le (base lib).established) :
    (occurrences lib).Valid cond where
  init := by
    rintro w rfl
    exact ⟨⟨fun x hx => absurd hx List.not_mem_nil,
      fun _ _ _ x hx => absurd hx List.not_mem_nil⟩, fun _ => trivial⟩
  step _ _ _ _ _ hi hpre h :=
    ⟨deletionsOnRecord_performs hb h hi.1, oncePerOccurrence_performs h hpre hi.2⟩
  env w w' kill hi h := by
    refine ⟨?_, fun _ _ => trivial⟩
    show DeletionsOnRecord w' ∧ OncePerOccurrence w'
    unfold DeletionsOnRecord OncePerOccurrence Host.World.Deleted
    rw [happens_db h, log_happens h]
    exact hi
  idle t := stable_true t
  start := by
    have hothers : ∀ {t : Tid}, t ≠ .service .scheduler → ∀ p : Code Unit,
        (occurrences lib).Triple cond t (fun _ => True) p fun _ _ => True := by
      intro t ht p
      exact Triple.of_pre fun o w r w' _ hperf i tasks n heq scheduleId hschedule =>
        absurd hschedule (submitted_by_hand hb hperf ht i tasks n heq)
    refine start_triple (fun config fuel s => ?_) fun c r => hothers (by nofun) _
    refine Triple.pre ?_ fun _ _ _ => trivial
    cases s with
    | scheduler => exact occurrences_pass hb config
    | _ => exact hothers (by nofun) _

end Flowlite

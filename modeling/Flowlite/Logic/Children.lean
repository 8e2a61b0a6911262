import Flowlite.Logic.JobRuns

/-!
# The runs an attempt submitted

An attempt that ends without succeeding takes the runs it submitted with it:
`stop_child_job_runs` reads them and stops each, before the attempt's own status
is written. `childStops` is the outline of that, as far as it goes: a run that
goes in after the read is one the read has not seen, and the log tells whether
there was one.
-/

namespace Flowlite

open Store Host Threads Crud Machine Outline

variable {lib : Library} {cond : (flowlite lib).Condition}

/-! ## Children -/

/-- The statuses of an attempt that ended without succeeding. -/
def Store.TaskRunAttemptStatus.isUnsuccessful : TaskRunAttemptStatus → Bool
  | .failed | .aborted | .timedOut | .invalid => true
  | .queued | .running | .succeeded | .skipped => false

/-- Every unfinished run the attempt submitted has been asked to stop, those with
an id in `but` aside. -/
def ChildrenStoppedBut (but : List Nat) (id : Nat) (w : World) : Prop :=
  ∀ x ∈ w.db.jobRuns.rows, x.parentTaskRunAttemptId = some id → x.status.isFinished = false →
    IsStopped w x.id ∨ x.id ∈ but

/-- Every unfinished run the attempt submitted has been asked to stop. -/
def ChildrenStopped (id : Nat) (w : World) : Prop :=
  ∀ x ∈ w.db.jobRuns.rows, x.parentTaskRunAttemptId = some id → x.status.isFinished = false →
    IsStopped w x.id

instance (id : Nat) (w : World) : Decidable (ChildrenStopped id w) := by
  unfold ChildrenStopped
  infer_instance

theorem childrenStoppedBut_nil {id : Nat} {w : World} :
    ChildrenStoppedBut [] id w ↔ ChildrenStopped id w := by
  simp [ChildrenStoppedBut, ChildrenStopped]

/-- The event wrote a run the attempt submitted. -/
def Host.Event.submitsFor (e : Host.Event) (id : Nat) : Bool :=
  match e.op, e.result with
  | .write (.insertJobRun i _ _), .ok _ => i.parentTaskRunAttemptId = some id
  | _, _ => false

/-- The event is the thread's reading of job runs. -/
def Host.Event.readsJobRuns (e : Host.Event) (t : Tid) : Bool :=
  match e.op with
  | .select (.jobRuns _) => e.thread = t
  | _ => false

/-- The attempt has submitted a run since the thread last read any. -/
def SubmittedSince (t : Tid) (id : Nat) (w : World) : Prop :=
  (w.log.takeWhile fun e => !e.readsJobRuns t).any (fun e => e.submitsFor id) = true

instance (t : Tid) (id : Nat) (w : World) : Decidable (SubmittedSince t id w) := by
  unfold SubmittedSince
  infer_instance

theorem submittedSince_log {t : Tid} {id : Nat} {w w' : World} {e : Host.Event}
    (hlog : w'.log = e :: w.log) (he : e.readsJobRuns t = false) :
    SubmittedSince t id w' ↔ e.submitsFor id = true ∨ SubmittedSince t id w := by
  unfold SubmittedSince
  rw [hlog, List.takeWhile_cons_of_pos (by simp [he]), List.any_cons, Bool.or_eq_true]

/-! ## What makes children stay stopped -/

/-- Nobody submits from inside an attempt that has ended without succeeding, nor
between the reading of its runs and the status that ends it; and a queued attempt
that was spawned for has no run left to stop when the dispatcher ends it. -/
def seesChildren (lib : Library) : (flowlite lib).Condition where
  step t o w r _ :=
    match t, o, r with
    | _, .write (.insertJobRun i _ _), .ok _ => ∀ id ∈ i.parentTaskRunAttemptId,
        ∀ x ∈ w.db.taskRunAttempts.rows, x.id = id → x.status.isUnsuccessful = false
    | .service .taskRunAttemptDispatcher, .write (.updateTaskRunAttempts f i), .ok _ =>
        i.status = some .invalid → ∀ id ∈ f.id, ChildrenStopped id w
    | t, .write (.updateTaskRunAttempts f i), .ok _ =>
        (∃ status ∈ i.status, status.isUnsuccessful = true) →
          ∀ id ∈ f.id, ¬ SubmittedSince t id w
    | _, _, _ => True
  env _ _ _ := True

instance : (seesChildren lib).Checked where
  step t o w r w' := by
    rcases o with _ | q
    case write =>
      rcases q
      case insertJobRun i tasks n => rcases r <;> (dsimp only [seesChildren]; infer_instance)
      case updateTaskRunAttempts f i =>
        rcases t with s | n
        · rcases s <;> rcases r <;> (dsimp only [seesChildren]; infer_instance)
        · rcases r <;> (dsimp only [seesChildren]; infer_instance)
      all_goals exact isTrue trivial
    all_goals exact isTrue trivial
  env _ _ _ := isTrue trivial

/-- The thread has stopped every run of the attempt, those still in `rest` aside, or
one has gone in since it read them. -/
def ChildrenHandled (t : Tid) (id : Nat) (rest : List Nat) (w : World) : Prop :=
  SubmittedSince t id w ∨ ChildrenStoppedBut rest id w

/-- What is stopped when an attempt is ended stays stopped. -/
def childStops (lib : Library) : Outline (flowlite lib) where
  inv w := ∀ x ∈ w.db.taskRunAttempts.rows, x.status.isUnsuccessful = true →
    ChildrenStopped x.id w
  pre t o w := ∀ f i status, o = .write (.updateTaskRunAttempts f i) →
    i.status = some status → status.isUnsuccessful = true →
    t ≠ .service .taskRunAttemptDispatcher → ∀ id ∈ f.id, ChildrenHandled t id [] w
  idle _ _ := True

section Steps

variable {t u : Tid} {o : Op} {w w' : World} {r : Result o}

theorem isFinished_kept (hs : cond.Le (sparesDeleted lib)) (hj : cond.Le (jobRuns lib).established)
    (h : Performs cond t o w r w') {x x' : JobRun} (hx : w.db.jobRuns.find x.id = some x)
    (hx' : w'.db.jobRuns.find x.id = some x') (hunfinished : x'.status.isFinished = false) :
    x.status.isFinished = false := by
  by_contra hfinished
  have hfinished : x.status.isFinished = true := by simpa using hfinished
  have his : JobRunIs x.id x.status w :=
    ⟨Table.lt_next_of_find hx, fun y hy => by rw [hx] at hy; cases hy; rfl⟩
  rw [(jobRunIs_performs hj hfinished (fun _ => hs) his h).2 x' hx', hfinished] at hunfinished
  cases hunfinished

/-- A step leaves an attempt's runs stopped, unless it submits one. -/
theorem childrenStoppedBut_performs (hs : cond.Le (sparesDeleted lib))
    (hj : cond.Le (jobRuns lib).established) (h : Performs cond t o w r w') {but : List Nat}
    {id : Nat} (hnew : (Host.Event.mk t o r).submitsFor id = false)
    (hw : ChildrenStoppedBut but id w) : ChildrenStoppedBut but id w' := by
  intro x' hx' hparent hunfinished
  have hfind' : w'.db.jobRuns.find x'.id = some x' := Table.find_of_mem hx'
  -- the run was there before, and no more finished than it is now
  obtain ⟨x, hx, hsame⟩ : ∃ x, w.db.jobRuns.find x'.id = some x ∧ JobRun.Same x x' := by
    rcases jobRun_origin h hfind' with hx | ⟨i, tasks, n, now, rfl, ⟨a, rfl⟩, -, hrow⟩ |
      ⟨x, hx, ⟨f, i, -, -, -, hrow⟩ | ⟨now, -, -, -, hrow⟩⟩
    · exact ⟨x', hx, rfl⟩
    · rw [hrow] at hparent
      simp only [InsertJobRunInput.draft] at hparent
      simp [Host.Event.submitsFor, hparent] at hnew
    · exact ⟨x, hx, by rw [hrow]; rfl⟩
    · exact ⟨x, hx, by rw [hrow]; rfl⟩
  have hid : x.id = x'.id := by rw [hsame]
  have hbefore := hw x (Table.mem_of_find hx) (by rw [← hparent, hsame])
    (isFinished_kept hs hj h (hid ▸ hx) (hid ▸ hfind') hunfinished)
  rw [hid] at hbefore
  refine hbefore.imp_left fun hstop => (isStopped_fate h hstop).resolve_left fun hr => ?_
  rw [(hr.gone h).1] at hfind'
  cases hfind'

theorem childrenStopped_performs (hs : cond.Le (sparesDeleted lib))
    (hj : cond.Le (jobRuns lib).established) (h : Performs cond t o w r w') {id : Nat}
    (hnew : (Host.Event.mk t o r).submitsFor id = false) (hw : ChildrenStopped id w) :
    ChildrenStopped id w' :=
  childrenStoppedBut_nil.mp
    (childrenStoppedBut_performs hs hj h hnew (childrenStoppedBut_nil.mpr hw))

theorem submitsFor_eq {id : Nat} (h : (Host.Event.mk t o r).submitsFor id = true) :
    ∃ i tasks n, o = .write (.insertJobRun i tasks n) ∧ Succeeded r ∧
      i.parentTaskRunAttemptId = some id := by
  unfold Host.Event.submitsFor at h
  dsimp only at h
  split at h
  · exact ⟨_, _, _, rfl, ⟨_, rfl⟩, of_decide_eq_true h⟩
  · cases h

/-- Nobody submits from inside an attempt that has ended without succeeding. -/
theorem submitsFor_running (hc : cond.Le (seesChildren lib)) (h : Performs cond t o w r w')
    {x : TaskRunAttempt} (hx : x ∈ w.db.taskRunAttempts.rows)
    (hnew : (Host.Event.mk t o r).submitsFor x.id = true) : x.status.isUnsuccessful = false := by
  obtain ⟨i, tasks, n, rfl, ⟨a, rfl⟩, hparent⟩ := submitsFor_eq hnew
  have hcond := hc.1 _ _ _ _ _ h.2
  cases t with
  | service s => cases s <;> exact hcond x.id hparent x hx rfl
  | client n => exact hcond x.id hparent x hx rfl

/-- By the time its end is written, the runs of an attempt have been stopped. -/
theorem settled_stopped (hb : cond.Le (base lib).established) (hc : cond.Le (seesChildren lib))
    {f : UpdateTaskRunAttemptsFilter} {i : UpdateTaskRunAttemptsInput} {a : Unit}
    (hpre : (childStops lib).pre t (.write (.updateTaskRunAttempts f i)) w)
    (h : Performs cond t (.write (.updateTaskRunAttempts f i)) w (.ok a) w')
    {status : TaskRunAttemptStatus} (hset : i.status = some status)
    (hunsuccessful : status.isUnsuccessful = true) {id : Nat} (hid : f.id = some id) :
    ChildrenStopped id w := by
  have hcond := hc.1 _ _ _ _ _ h.2
  by_cases ht : t = .service .taskRunAttemptDispatcher
  · subst ht
    have hinvalid : i.status = some .invalid := by
      cases allowed_of hb h with
      | dropAttempt hs =>
          rcases hs with rfl | rfl
          · cases hset
            cases hunsuccessful
          · rfl
      | markStarted => cases hset
      | startAttempt =>
          cases hset
          cases hunsuccessful
    exact hcond hinvalid id hid
  · have hseen : ¬ SubmittedSince t id w := by
      refine (?_ : (∃ status ∈ i.status, status.isUnsuccessful = true) →
        ∀ id ∈ f.id, ¬ SubmittedSince t id w) ⟨status, hset, hunsuccessful⟩ id hid
      cases t with
      | client n => exact hcond
      | service s => cases s <;> first | exact hcond | exact absurd rfl ht
    exact childrenStoppedBut_nil.mp
      ((hpre f i status rfl hset hunsuccessful ht id hid).resolve_left hseen)

theorem childStops_step (hb : cond.Le (base lib).established) (hs : cond.Le (sparesDeleted lib))
    (hj : cond.Le (jobRuns lib).established) (hc : cond.Le (seesChildren lib))
    (hi : (childStops lib).inv w) (hpre : (childStops lib).pre t o w)
    (h : Performs cond t o w r w') : (childStops lib).inv w' := by
  intro x' hx' hunsuccessful
  rcases taskRunAttempt_origin h (Table.find_of_mem hx') with hx |
    ⟨i, now, rfl, -, -, -, -, -, hrow⟩ | ⟨x, hx, f, i, rfl, hok, hf, hrow⟩
  · have hmem := Table.mem_of_find hx
    refine childrenStopped_performs hs hj h ?_ (hi x' hmem hunsuccessful)
    by_contra hnew
    rw [submitsFor_running hc h hmem (by simpa using hnew)] at hunsuccessful
    cases hunsuccessful
  · have hqueued : i.status = .queued := by
      cases allowed_of hb h
      assumption
    rw [hrow] at hunsuccessful
    simp [InsertTaskRunAttemptInput.draft, hqueued,
      TaskRunAttemptStatus.isUnsuccessful] at hunsuccessful
  · obtain ⟨a, rfl⟩ := hok
    have hid : x'.id = x.id := by rw [hrow]; rfl
    refine childrenStopped_performs hs hj h rfl ?_
    cases hset : i.status with
    | none =>
        rw [hid]
        refine hi x (Table.mem_of_find hx) ?_
        simpa [hrow, UpdateTaskRunAttemptsInput.patch, hset] using hunsuccessful
    | some status =>
        obtain ⟨id, hfid⟩ := updateTaskRunAttempts_id (allowed_of hb h)
        have hsame : x.id = id := updateTaskRunAttemptsFilter_holds hfid hf
        rw [hid, hsame]
        refine settled_stopped hb hc hpre h hset ?_ hfid
        simpa [hrow, UpdateTaskRunAttemptsInput.patch, hset] using hunsuccessful

end Steps

/-! ## Stopping them -/

section Triples

variable {t : Tid}

theorem childrenHandled_performs (hs : cond.Le (sparesDeleted lib))
    (hj : cond.Le (jobRuns lib).established) {u : Tid} {o : Op} {w w' : World} {r : Result o}
    (h : Performs cond u o w r w') (hreads : (Host.Event.mk u o r).readsJobRuns t = false)
    {id : Nat} {rest : List Nat} (hw : ChildrenHandled t id rest w) :
    ChildrenHandled t id rest w' := by
  unfold ChildrenHandled at hw ⊢
  rw [submittedSince_log (log_performs h) hreads]
  cases hnew : (Host.Event.mk u o r).submitsFor id with
  | true => exact .inl (.inl rfl)
  | false =>
      refine hw.imp .inr fun hrest => ?_
      exact childrenStoppedBut_performs hs hj h hnew hrest

theorem readsJobRuns_other {u : Tid} {o : Op} {r : Result o} (hu : u ≠ t) :
    (Host.Event.mk u o r).readsJobRuns t = false := by
  unfold Host.Event.readsJobRuns
  dsimp only
  split
  · exact decide_eq_false hu
  · rfl

theorem childrenHandled_stable (hs : cond.Le (sparesDeleted lib))
    (hj : cond.Le (jobRuns lib).established) (t : Tid) (id : Nat) (rest : List Nat) :
    (childStops lib).Stable cond t (ChildrenHandled t id rest) := by
  intro w w' hothers hw
  cases hothers with
  | run hu _ _ _ hperf => exact childrenHandled_performs hs hj hperf (readsJobRuns_other hu) hw
  | env _ _ _ hhappens =>
      unfold ChildrenHandled SubmittedSince ChildrenStoppedBut IsStopped at hw ⊢
      rw [happens_db hhappens, log_happens hhappens]
      exact hw

/-- The attempt's row is the one `a` was read from. -/
def AttemptOf (a : TaskRunAttempt) (w : World) : Prop :=
  a.id < w.db.taskRunAttempts.next ∧
    ∀ x, w.db.taskRunAttempts.find a.id = some x → x.jobRunId = a.jobRunId

theorem attemptOf_performs {u : Tid} {o : Op} {w w' : World} {r : Result o}
    (h : Performs cond u o w r w') {a : TaskRunAttempt} (hw : AttemptOf a w) : AttemptOf a w' := by
  refine ⟨lt_of_lt_of_le hw.1 (taskRunAttempts_next_le h), fun x' hx' => ?_⟩
  rcases taskRunAttempt_origin h hx' with hx | ⟨i, now, -, -, hid, -⟩ |
    ⟨x, hx, f, i, -, -, -, hrow⟩
  · exact hw.2 x' hx
  · exact absurd hw.1 (by omega)
  · rw [hrow]
    exact hw.2 x hx

theorem attemptOf_stable (a : TaskRunAttempt) :
    (childStops lib).Stable cond t (AttemptOf a) := by
  intro w w' hothers hw
  cases hothers with
  | run _ _ _ _ hperf => exact attemptOf_performs hperf hw
  | env _ _ _ hhappens =>
      unfold AttemptOf
      rw [happens_db hhappens]
      exact hw

/-- What ends no attempt. -/
theorem childStops_pre {o : Op} (ho : ¬ WritesTaskRunAttempts o) (w : World) :
    (childStops lib).pre t o w := by
  rintro f i status rfl
  exact absurd trivial ho

/-- The runs of the attempt, as they are read. -/
theorem childStops_select (hb : cond.Le (base lib).established) (a : TaskRunAttempt) :
    (childStops lib).Triple cond t (AttemptOf a)
      (selectJobRuns { filter := { parentJobRunId := some a.jobRunId }, sort := some .id })
      fun r w => ∀ rows, r = .ok rows → ChildrenHandled t a.id
        ((rows.filter fun child => child.parentTaskRunAttemptId = some a.id &&
          !child.status.isFinished).map (·.id)) w := by
  refine Triple.perform (attemptOf_stable a) (fun w _ _ _ _ _ => childStops_pre id w) ?_
  rintro w r w' - hw hperf - rows rfl
  have hlinked := (linked_of hb hperf).1
  have hw' := silent_performs (o := .select _) trivial hperf
  rcases select_cases hperf with ⟨e, he⟩ | hrows
  · cases he
  cases hrows
  refine .inr fun x hx hparent hunfinished => .inr ?_
  rw [hw'] at hx
  obtain ⟨y, hy⟩ := Option.isSome_iff_exists.mp (hlinked.attempt_of_jobRun x hx a.id hparent)
  refine List.mem_map_of_mem (List.mem_filter.mpr ⟨?_, by simp [hparent, hunfinished]⟩)
  refine Database.mem_selectJobRuns_all hx ?_
  have hkey : y.id = a.id := Table.key_of_find hy
  simpa [SelectJobRunsFilter.holds, hparent] using
    ⟨y, Table.mem_of_find hy, hw.2 y hy, hkey.symm⟩

/-- One run is handled: it has been asked to stop before, or is now. -/
theorem childStops_child (hs : cond.Le (sparesDeleted lib))
    (hj : cond.Le (jobRuns lib).established) (id : Nat) (child : JobRun) (rest : List JobRun) :
    (childStops lib).Triple cond t (ChildrenHandled t id ((child :: rest).map (·.id)))
      (do
        let stop ← selectJobRunStop child.id
        if stop.isSome then return () else
          let _ ← insertJobRunStop child.id)
      fun r w => match r with
        | .ok _ => ChildrenHandled t id (rest.map (·.id)) w
        | .error _ => True := by
  have hdone : ∀ {w : World}, IsStopped w child.id →
      ChildrenHandled t id ((child :: rest).map (·.id)) w →
      ChildrenHandled t id (rest.map (·.id)) w := by
    intro w hstopped h
    refine h.imp_right fun hrest x hx hparent hunfinished => ?_
    rcases hrest x hx hparent hunfinished with hstop | hmem
    · exact .inl hstop
    · rcases List.mem_cons.mp hmem with heq | hmem
      · exact .inl (heq ▸ hstopped)
      · exact .inr hmem
  have hstable := childrenHandled_stable hs hj t id ((child :: rest).map (·.id))
  refine Triple.bind (Triple.selectJobRunStop hstable (fun w r h => ?_)
    fun w _ => childStops_pre (by exact fun h => h) w) (fun stop => ?_) fun _ _ _ _ => trivial
  · refine h.imp_left fun hsince => ?_
    exact (submittedSince_log rfl rfl).mpr (.inr hsince)
  · dsimp only
    split
    · rename_i hsome
      obtain ⟨s, rfl⟩ := Option.isSome_iff_exists.mp hsome
      exact Triple.ret fun w _ h => hdone (h.2 s rfl) h.1
    · refine Triple.bind (R := fun r w => match r with
          | .ok _ => ChildrenHandled t id (rest.map (·.id)) w
          | .error _ => True) ?_ (fun _ => Triple.ret fun _ _ h => h) fun _ _ _ _ => trivial
      refine (Triple.perform hstable (fun w _ _ _ _ _ => childStops_pre (by exact fun h => h) w) ?_).pre
        fun w _ h => h.1
      rintro w r w' - hw hperf -
      cases r with
      | error e => trivial
      | ok n =>
          exact hdone (insertJobRunStop_stops hperf) (childrenHandled_performs hs hj hperf rfl hw)

/-- Every run of the attempt is stopped, unless one has gone in since they were read. -/
theorem childStops_stop (hb : cond.Le (base lib).established)
    (hs : cond.Le (sparesDeleted lib)) (hj : cond.Le (jobRuns lib).established)
    (a : TaskRunAttempt) :
    (childStops lib).Triple cond t (AttemptOf a) (stopChildJobRuns a)
      fun r w => r = .ok () → ChildrenHandled t a.id [] w := by
  refine Triple.bind (childStops_select hb a) (fun rows => ?_) fun _ _ _ _ => by nofun
  refine ((Triple.forEach (I := fun rest => ChildrenHandled t a.id (rest.map (·.id)))
    (E := fun _ => True) (fun child rest => (childStops_child hs hj a.id child rest).post
      fun r _ _ h => by cases r <;> exact h) _).pre fun w _ h => h rows rfl).post ?_
  rintro r w - h rfl
  exact h

/-- The status that ends an attempt is written once its runs have been stopped. -/
theorem childStops_settle (hs : cond.Le (sparesDeleted lib))
    (hj : cond.Le (jobRuns lib).established) (id : Nat) (i : UpdateTaskRunAttemptsInput) :
    (childStops lib).Triple cond t (ChildrenHandled t id [])
      (updateTaskRunAttempts { id := some id } i) fun _ _ => True := by
  refine Triple.perform (childrenHandled_stable hs hj t id []) ?_ fun _ _ _ _ _ _ _ => trivial
  rintro w r w' - hw - f j status heq - - - id' hid'
  cases heq
  cases hid'
  exact hw

/-- The clock is read between the stops and the status. -/
theorem childrenHandled_now (hs : cond.Le (sparesDeleted lib))
    (hj : cond.Le (jobRuns lib).established) (id : Nat) :
    (childStops lib).Triple cond t (ChildrenHandled t id []) now
      fun _ => ChildrenHandled t id [] :=
  Triple.perform (childrenHandled_stable hs hj t id [])
    (fun w _ _ _ _ _ => childStops_pre (by exact fun h => h) w)
    fun w r w' _ hw hperf _ => childrenHandled_performs hs hj hperf rfl hw

theorem attemptOf_uses {α : Type} {a : TaskRunAttempt} {p : Code α}
    (hp : p.Uses fun o => ¬ WritesTaskRunAttempts o) :
    (childStops lib).Triple cond t (AttemptOf a) p fun _ => AttemptOf a :=
  Triple.of_uses (attemptOf_stable a) (hp.mono fun _ ho w _ _ _ hw hperf =>
    ⟨childStops_pre ho w, fun _ => attemptOf_performs hperf hw⟩)

theorem silent_not_writesTaskRunAttempts {o : Op} (h : Silent o) : ¬ WritesTaskRunAttempts o := by
  cases o <;> first | exact id | exact h.elim

theorem childStops_finish (hb : cond.Le (base lib).established)
    (hs : cond.Le (sparesDeleted lib)) (hj : cond.Le (jobRuns lib).established)
    (a : TaskRunAttempt) (status : TaskRunAttemptStatus) (output : Option String) :
    (childStops lib).Triple cond t (AttemptOf a)
      (TaskRunAttemptMonitor.finishTaskRunAttempt a status output) fun _ _ => True := by
  unfold TaskRunAttemptMonitor.finishTaskRunAttempt TaskRunAttemptMonitor.stopUnlessSucceeded
  by_cases hstatus : status = .succeeded
  · rw [if_pos hstatus]
    refine Triple.seq (attemptOf_uses trivial) fun _ =>
      Triple.seq (attemptOf_uses (now_silent.mono fun _ => silent_not_writesTaskRunAttempts))
        fun now => ?_
    refine Triple.perform (attemptOf_stable a) ?_ fun _ _ _ _ _ _ _ => trivial
    rintro w r w' - - - f i s heq hset hunsuccessful
    cases heq
    cases hset
    rw [hstatus] at hunsuccessful
    cases hunsuccessful
  · rw [if_neg hstatus]
    refine Triple.seq (childStops_stop hb hs hj a) fun _ => ?_
    refine Triple.seq ((childrenHandled_now hs hj a.id).pre fun w _ h => h rfl) fun now => ?_
    exact childStops_settle hs hj a.id _

theorem childStops_monitor (hb : cond.Le (base lib).established)
    (hs : cond.Le (sparesDeleted lib)) (hj : cond.Le (jobRuns lib).established)
    (config : Config) (a : TaskRunAttempt) :
    (childStops lib).Triple cond TaskRunAttemptMonitor.thread (AttemptOf a)
      (TaskRunAttemptMonitor.handleRunningTaskRunAttempt config a) fun _ _ => True :=
  attends_triple hb (attemptOf_stable a)
    (fun _ ho w _ _ _ hw hperf => ⟨childStops_pre ho.2 w, fun _ => attemptOf_performs hperf hw⟩)
    (fun _ _ _ => trivial) (fun status output _ _ => childStops_finish hb hs hj a status output)
    config

theorem childStops_recover (hb : cond.Le (base lib).established)
    (hs : cond.Le (sparesDeleted lib)) (hj : cond.Le (jobRuns lib).established)
    (boot : Option Instant) (a : TaskRunAttempt) :
    (childStops lib).Triple cond t (AttemptOf a) (Recovery.recoverTaskRunAttempt boot a)
      fun _ _ => True := by
  refine Triple.seq (attemptOf_uses ?_) fun _ =>
    Triple.seq (childStops_stop hb hs hj a) fun _ =>
    Triple.seq ((childrenHandled_now hs hj a.id).pre fun w _ h => h rfl) fun now =>
    childStops_settle hs hj a.id _
  unfold Recovery.killOrphanProcessGroup
  split
  · split
    · trivial
    · exact (Prog.uses_perform _).mpr id
  · trivial

/-- The attempts a thread selects, each under the job run it will be handled with. -/
theorem childStops_selectAttempts (f : SelectTaskRunAttemptsFilter)
    (s : Option SelectTaskRunAttemptsSort) :
    (childStops lib).Triple cond t (fun _ => True) (selectTaskRunAttempts f s) fun r w => True ∧
      ∀ rows, r = .ok rows → rows.Pairwise (fun x y => x.id ≠ y.id) ∧
        ∀ x ∈ rows, AttemptOf x w := by
  refine Triple.selectTaskRunAttempts (O := childStops lib) (stable_true _) (fun _ _ _ => trivial)
    (fun w _ => childStops_pre (by exact id) w) fun w _ x _ _ hfind _ => ?_
  refine ⟨Table.lt_next_of_find (t := w.db.taskRunAttempts) hfind, fun y hy => ?_⟩
  cases hfind.symm.trans hy
  rfl

theorem childStops_recovery (hb : cond.Le (base lib).established)
    (hs : cond.Le (sparesDeleted lib)) (hj : cond.Le (jobRuns lib).established) :
    (childStops lib).Triple cond t (fun _ => True) Recovery.recoverThenStart fun _ _ => True := by
  have hsilent : ∀ {o : Op}, ¬ WritesTaskRunAttempts o →
      (childStops lib).Triple cond t (fun _ => True) (Crud.perform o) fun _ _ => True := fun ho =>
    Triple.perform (stable_true _) (fun w _ _ _ _ _ => childStops_pre ho w)
      fun _ _ _ _ _ _ _ => trivial
  refine Triple.seq (hsilent id) fun boot => Triple.seq (R := fun _ _ => True) ?_ fun _ =>
    hsilent id
  refine Triple.seq (childStops_selectAttempts _ _) fun rows => ?_
  refine (Triple.rows (P := fun _ => True) (K := AttemptOf) (R := fun _ _ => True)
    attemptOf_stable (fun a => (childStops_recover hb hs hj boot a).pre fun _ _ h => h.2)
    (fun a y _ => .of_forall _ fun _ _ _ _ _ _ _ hperf => attemptOf_performs hperf)
    (List.pairwise_of_forall fun _ _ => trivial)).pre fun w _ h => ⟨trivial, (h.2 rows rfl).2⟩

theorem childStops_valid (hb : cond.Le (base lib).established)
    (hs : cond.Le (sparesDeleted lib)) (hj : cond.Le (jobRuns lib).established)
    (hc : cond.Le (seesChildren lib)) : (childStops lib).Valid cond where
  init := by
    rintro w rfl
    exact ⟨fun x hx => absurd hx List.not_mem_nil, fun _ => trivial⟩
  step _ _ _ _ _ hi hpre hperf := childStops_step hb hs hj hc hi hpre hperf
  env := by
    intro w w' kill hi hhappens
    refine ⟨?_, fun _ _ => trivial⟩
    unfold childStops ChildrenStopped IsStopped at hi ⊢
    simpa only [happens_db hhappens] using hi
  idle t := stable_true t
  start := by
    -- nobody else ends an attempt
    have hothers : ∀ {t : Tid}, t ≠ .service .recovery → t ≠ .service .taskRunAttemptMonitor →
        ∀ p : Code Unit, (childStops lib).Triple cond t (fun _ => True) p fun _ _ => True := by
      intro t hrecovery hmonitor p
      refine Triple.of_pre fun o w r w' _ hperf f i status heq hset hunsuccessful ht => ?_
      subst heq
      cases allowed_of hb hperf with
      | dropAttempt => exact absurd rfl ht
      | markStarted => exact absurd rfl ht
      | startAttempt => exact absurd rfl ht
      | settleAttempt => exact absurd rfl hmonitor
      | recoverAttempt => exact absurd rfl hrecovery
      | wait => cases hset
    refine start_triple (fun config fuel s => ?_) fun c r => hothers (by nofun) (by nofun) _
    refine Triple.pre ?_ fun _ _ _ => trivial
    cases s with
    | recovery => exact childStops_recovery hb hs hj
    | taskRunAttemptMonitor =>
        exact Poller.pass_triple (K := AttemptOf) (R := fun x y : TaskRunAttempt => x.id ≠ y.id)
          (childStops_selectAttempts _ _) attemptOf_stable
          (fun a => (childStops_monitor hb hs hj config a).pre fun _ _ h => h.2)
          fun _ _ _ => .of_forall _ fun _ _ _ _ _ _ _ hperf => attemptOf_performs hperf
    | _ => exact hothers (by nofun) (by nofun) _

end Triples

end Flowlite

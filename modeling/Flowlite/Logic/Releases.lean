import Flowlite.Logic.JobRuns

/-!
# Released runs

`JobRunDispatcher::set_to_running` is the one door into Waiting: it releases the task
runs of a run it has found not to be stopped, and nothing of a run starts before.
`releases` is the outline that says so, of the task runs and of the attempts.
-/

namespace Flowlite

open Store Host Threads Crud Machine Outline

variable {lib : Library} {cond : (flowlite lib).Condition} {O : Outline (flowlite lib)}

/-! ## The history of a run -/

/-- The run whose task runs an event of the log releases. -/
def Host.Event.releases (e : Host.Event) : Option Nat :=
  match e.op, e.result with
  | .write (.updateTaskRuns f i), .ok _ => if i.status = some .waiting then f.jobRunId else none
  | _, _ => none

/-- The task runs of the run have been released. -/
def Host.World.Released (w : World) (id : Nat) : Prop := ∃ e ∈ w.log, e.releases = some id

/-- The thread has asked whether the run is stopped, and been told that it is not. -/
def Host.World.Unstopped (w : World) (t : Tid) (id : Nat) : Prop :=
  ⟨t, .select (stopQuery id), .ok []⟩ ∈ w.log

/-- The statuses a task run has only after its release. -/
def Store.TaskRunStatus.hasStarted : TaskRunStatus → Bool
  | .waiting | .running | .succeeded | .failed | .aborted | .timedOut => true
  | .planned | .skipped | .invalid => false

theorem released_log {w : World} {e : Host.Event} {id : Nat} (h : w.Released id) :
    ({ w with log := e :: w.log } : World).Released id := by
  obtain ⟨e', he, hid⟩ := h
  exact ⟨e', List.mem_cons_of_mem _ he, hid⟩

section Steps

variable {t : Tid} {o : Op} {w w' : World} {r : Result o}

theorem released_performs (h : Performs cond t o w r w') {id : Nat} (hid : w.Released id) :
    w'.Released id := by
  obtain ⟨e, he, hid⟩ := hid
  refine ⟨e, ?_, hid⟩
  rw [log_performs h]
  exact List.mem_cons_of_mem _ he

theorem released_happens {kill : Tid → Bool} (h : Happens cond w w' kill) {id : Nat}
    (hid : w.Released id) : w'.Released id := by
  unfold Host.World.Released
  rwa [log_happens h]

theorem unstopped_performs (h : Performs cond t o w r w') {u : Tid} {id : Nat}
    (hid : w.Unstopped u id) : w'.Unstopped u id := by
  unfold Host.World.Unstopped
  rw [log_performs h]
  exact List.mem_cons_of_mem _ hid

theorem unstopped_happens {kill : Tid → Bool} (h : Happens cond w w' kill) {u : Tid} {id : Nat}
    (hid : w.Unstopped u id) : w'.Unstopped u id := by
  unfold Host.World.Unstopped
  rwa [log_happens h]

end Steps

theorem unstopped_stable (t u : Tid) (id : Nat) :
    O.Stable cond t fun w => w.Unstopped u id := by
  intro w w' hothers h
  cases hothers with
  | run _ _ _ _ hperf => exact unstopped_performs hperf h
  | env _ _ _ hhappens => exact unstopped_happens hhappens h

/-- The task run's row is still this one, whatever its status. -/
def TaskRunKnown (x : TaskRun) (w : World) : Prop :=
  x.id < w.db.taskRuns.next ∧ ∀ y, w.db.taskRuns.find x.id = some y → TaskRun.Same x y

theorem taskRunKnown_of_find {x : TaskRun} {w : World}
    (h : w.db.taskRuns.find x.id = some x) : TaskRunKnown x w :=
  ⟨Table.lt_next_of_find h, fun y hy => by rw [h] at hy; cases hy; rfl⟩

theorem taskRunKnown_performs {t : Tid} {o : Op} {w w' : World} {r : Result o} {x : TaskRun}
    (h : Performs cond t o w r w') (hx : TaskRunKnown x w) : TaskRunKnown x w' := by
  refine ⟨lt_of_lt_of_le hx.1 (taskRuns_next_le h), fun y' hy' => ?_⟩
  rcases taskRun_origin h hy' with hy | ⟨i, now, -, -, hid, -⟩ |
    ⟨y, hy, ⟨f, i, -, -, -, rfl⟩ | ⟨now, j, -, -, -, -, rfl⟩⟩
  · exact hx.2 y' hy
  · exact absurd hx.1 (by omega)
  · have hsame : y = _ := hx.2 y hy
    rw [hsame]
    rfl
  · have hsame : y = _ := hx.2 y hy
    rw [hsame]
    rfl

theorem taskRunKnown_happens {w w' : World} {kill : Tid → Bool} {x : TaskRun}
    (h : Happens cond w w' kill) (hx : TaskRunKnown x w) : TaskRunKnown x w' := by
  unfold TaskRunKnown
  rwa [happens_db h]

theorem taskRunKnown_permanent (x : TaskRun) : Permanent cond (TaskRunKnown x) where
  performs h hx := taskRunKnown_performs h hx
  happens h hx := taskRunKnown_happens h hx

/-! ## The outline -/

/-- What has started has been released, and an attempt belongs to the run its task run
belongs to. -/
structure ReleasedFirst (w : World) : Prop where
  unstopped : ∀ id, w.Released id → w.Unstopped (.service .jobRunDispatcher) id
  started : ∀ x ∈ w.db.taskRuns.rows, x.status.hasStarted = true →
    w.Released x.jobRunId
  attempted : ∀ a ∈ w.db.taskRunAttempts.rows, w.Released a.jobRunId ∧
    ∀ x ∈ w.db.taskRuns.rows, x.id = a.taskRunId →
      a.jobRunId = x.jobRunId ∧ a.jobId = x.jobId ∧ a.taskId = x.taskId

/-- A run is released unstopped, and nothing of a run starts before it is. -/
def releases (lib : Library) : Outline (flowlite lib) where
  inv := ReleasedFirst
  pre _ o w :=
    match o with
    | .write (.updateTaskRuns f i) =>
        if i.status = some .waiting then
          ∀ id, f.jobRunId = some id → w.Unstopped (.service .jobRunDispatcher) id
        else ∀ status, i.status = some status → status.hasStarted = true →
          ∀ x ∈ w.db.taskRuns.rows, f.holds x = true → w.Released x.jobRunId
    | .write (.insertTaskRunAttempt i) => w.Released i.jobRunId ∧
        ∃ x, TaskRunKnown x w ∧ i.taskRunId = x.id ∧ i.jobRunId = x.jobRunId ∧
          i.jobId = x.jobId ∧ i.taskId = x.taskId
    | _ => True
  idle _ _ := True

/-- Only the release of a run sets task runs to waiting. -/
theorem releases_filter {t : Tid} {f : UpdateTaskRunsFilter} {i : UpdateTaskRunsInput}
    (h : Allowed t (.write (.updateTaskRuns f i))) (hi : i.status = some .waiting) :
    ∃ id, f = { jobRunId := some id, status := some .planned } ∧ i = { status := some .waiting } := by
  cases h with
  | releaseTaskRuns => exact ⟨_, rfl, rfl⟩
  | endTaskRuns _ hs | dropTaskRun hs => rcases hs with rfl | rfl <;> cases hi
  | settleTaskRun hs _ =>
      cases hi
      cases hs
  | startTaskRun => cases hi

theorem releases_event {t : Tid} {o : Op} {r : Result o} {id : Nat}
    (h : (Host.Event.mk t o r).releases = some id) : ∃ f i a,
      o = .write (.updateTaskRuns f i) ∧ i.status = some .waiting ∧ f.jobRunId = some id ∧
        r ≍ (Except.ok a : Result (.write (.updateTaskRuns f i))) := by
  unfold Host.Event.releases at h
  dsimp only at h
  split at h
  · rename_i f i a
    split at h
    · rename_i hi
      exact ⟨f, i, a, rfl, hi, h, HEq.rfl⟩
    · cases h
  · cases h

theorem releasedFirst_performs (hb : cond.Le (base lib).established) {t : Tid} {o : Op}
    {w w' : World} {r : Result o} (hi : ReleasedFirst w) (hpre : (releases lib).pre t o w)
    (h : Performs cond t o w r w') : ReleasedFirst w' where
  unstopped id hid := by
    obtain ⟨e, he, hid⟩ := hid
    rw [log_performs h] at he
    rcases List.mem_cons.mp he with rfl | hold
    · obtain ⟨f, i, a, rfl, hi, hf, -⟩ := releases_event hid
      simp only [releases, hi, if_true] at hpre
      exact unstopped_performs h (hpre id hf)
    · exact unstopped_performs h (hi.unstopped id ⟨e, hold, hid⟩)
  started x' hx' hstarted := by
    have hmem := hx'
    rcases taskRun_origin h (Table.find_of_mem hx') with hx | ⟨i, now, ho, -, -, -, -, hnew⟩ |
      ⟨x, hx, ⟨f, i, ho, hok, hf, hnew⟩ | ⟨now, j, -, -, -, -, hnew⟩⟩
    · exact released_performs h (hi.started x' (Table.mem_of_find hx) hstarted)
    · -- a task run is planned when it is submitted
      have hallowed := allowed_of hb h
      rw [ho] at hallowed
      cases hallowed with
      | submitTask _ hplanned =>
          rw [hnew] at hstarted
          simp only [InsertTaskRunInput.draft, hplanned] at hstarted
          cases hstarted
    · have hjob : x'.jobRunId = x.jobRunId := by rw [hnew]; rfl
      rw [hjob]
      cases hset : i.status with
      | none =>
          have hstatus : x'.status = x.status := by
            rw [hnew]
            simp [UpdateTaskRunsInput.patch, hset]
          rw [hstatus] at hstarted
          exact released_performs h (hi.started x (Table.mem_of_find hx) hstarted)
      | some status =>
          have hstatus : x'.status = status := by
            rw [hnew]
            simp [UpdateTaskRunsInput.patch, hset]
          subst ho
          by_cases hwaiting : status = .waiting
          · subst hwaiting
            obtain ⟨id, rfl, rfl⟩ := releases_filter (allowed_of hb h) hset
            have hid : x.jobRunId = id := by
              have := Bool.and_eq_true_iff.mp hf
              simpa [UpdateTaskRunsFilter.holds] using (Bool.and_eq_true_iff.mp this.1).2
            obtain ⟨a, rfl⟩ := hok
            refine ⟨⟨t, _, .ok a⟩, ?_, ?_⟩
            · rw [log_performs h]
              exact List.mem_cons_self ..
            · rw [hid]
              rfl
          · have hne : i.status ≠ some .waiting := by
              rw [hset]
              exact fun heq => hwaiting (Option.some.inj heq)
            simp only [releases, hne, if_false] at hpre
            rw [hstatus] at hstarted
            exact released_performs h (hpre status hset hstarted x (Table.mem_of_find hx) hf)
    · rw [hnew] at hstarted
      cases hstarted
  attempted a' ha' := by
    have hlinked := (linked_of hb h).1
    -- the attempt belongs to the run of its task run as it was
    have hkept : ∀ a ∈ w.db.taskRunAttempts.rows, w'.Released a.jobRunId ∧
        ∀ x' ∈ w'.db.taskRuns.rows, x'.id = a.taskRunId →
          a.jobRunId = x'.jobRunId ∧ a.jobId = x'.jobId ∧ a.taskId = x'.taskId := by
      intro a ha
      obtain ⟨hreleased, hrun⟩ := hi.attempted a ha
      refine ⟨released_performs h hreleased, fun x' hx' hid => ?_⟩
      rcases taskRun_before h hx' with ⟨x, hx, hsame⟩ | ⟨-, -, hnext, -⟩
      · have hsame' : x' = _ := hsame
        rw [hsame']
        rw [hsame'] at hid
        exact hrun x hx hid
      · obtain ⟨y, hy⟩ := Option.isSome_iff_exists.mp (hlinked.taskRun_of_attempt a ha)
        have := Table.lt_next_of_find hy
        omega
    rcases taskRunAttempt_origin h (Table.find_of_mem ha') with ha |
      ⟨i, now, ho, -, -, -, -, -, hnew⟩ | ⟨a, ha, f, i, -, -, -, hnew⟩
    · exact hkept a' (Table.mem_of_find ha)
    · subst ho
      obtain ⟨hreleased, x, hknown, htask, hrun, hjob, hname⟩ := hpre
      rw [hnew]
      refine ⟨released_performs h hreleased, fun x' hx' hid => ?_⟩
      have hid : x'.id = x.id := hid.trans htask
      have hfind := Table.find_of_mem hx'
      have hsame : x' = _ := (taskRunKnown_performs h hknown).2 x' (by rw [← hid]; exact hfind)
      rw [hsame]
      exact ⟨hrun, hjob, hname⟩
    · rw [hnew]
      exact hkept a (Table.mem_of_find ha)

/-! ## The services -/

/-- What is known of a task run that has started. -/
def StartedRow (x : TaskRun) (w : World) : Prop := TaskRunKnown x w ∧ w.Released x.jobRunId

theorem startedRow_performs {t : Tid} {o : Op} {w w' : World} {r : Result o} {x : TaskRun}
    (h : Performs cond t o w r w') (hx : StartedRow x w) : StartedRow x w' :=
  ⟨taskRunKnown_performs h hx.1, released_performs h hx.2⟩

theorem startedRow_stable (t : Tid) (x : TaskRun) : O.Stable cond t (StartedRow x) := by
  intro w w' hothers hx
  cases hothers with
  | run _ _ _ _ hperf => exact startedRow_performs hperf hx
  | env _ _ _ hhappens =>
      exact ⟨taskRunKnown_happens hhappens hx.1, released_happens hhappens hx.2⟩

theorem Silent.releases_pre {o : Op} (h : Silent o) (t : Tid) (w : World) :
    (releases lib).pre t o w := by
  cases o <;> trivial

/-- The statuses that end a task run nobody started. -/
theorem not_hasStarted {status : TaskRunStatus} (h : status = .skipped ∨ status = .invalid) :
    status.hasStarted = false ∧ status ≠ .waiting := by
  rcases h with rfl | rfl <;> exact ⟨rfl, nofun⟩

/-- Whatever a service does with a task run that has started, its release came before. -/
theorem releases_row {t : Tid} {x : TaskRun} {p : Code Unit}
    (hp : p.Uses fun o : Op => Handles t (.taskRun x.id) o ∧
      ∀ i, o = .write (.insertTaskRunAttempt i) → ∃ n, i = TaskRunMonitor.attemptInput x n) :
    (releases lib).Triple cond t (StartedRow x) p fun _ => StartedRow x := by
  refine Triple.of_uses (startedRow_stable t x) (hp.mono fun o ho w r w' _ hx hperf =>
    ⟨?_, fun _ => startedRow_performs hperf hx⟩)
  obtain ⟨⟨hallowed, hon⟩, hinsert⟩ := ho
  cases o with
  | write q =>
      cases q with
      | updateTaskRuns f i =>
          have hwaiting : i.status ≠ some .waiting := by
            intro hi
            obtain ⟨id, rfl, rfl⟩ := releases_filter hallowed hi
            cases hon
          simp only [releases, hwaiting, if_false]
          intro status _ _ y hy hf
          have hid : y.id = x.id := by
            have hf := (Bool.and_eq_true_iff.mp (Bool.and_eq_true_iff.mp hf).1).1
            simpa [show f.id = some x.id from hon] using hf
          have hfind := Table.find_of_mem hy
          have hsame : y = _ := hx.1.2 y (by rw [← hid]; exact hfind)
          rw [hsame]
          exact hx.2
      | insertTaskRunAttempt i =>
          obtain ⟨n, rfl⟩ := hinsert i rfl
          exact ⟨hx.2, x, hx.1, rfl, rfl, rfl, rfl⟩
      | _ => trivial
  | _ => trivial

/-- A pass over task runs of a status they have only after their release. -/
theorem releases_pass {s : Service} {status : TaskRunStatus} {handle : TaskRun → Code Unit}
    (hstatus : status.hasStarted = true)
    (hhandle : ∀ x, (handle x).Uses fun o : Op => Handles (.service s) (.taskRun x.id) o ∧
      ∀ i, o = .write (.insertTaskRunAttempt i) → ∃ n, i = TaskRunMonitor.attemptInput x n) :
    (releases lib).Triple cond (.service s) (fun _ => True)
      (Poller.pass ⟨TaskRun, selectTaskRuns { status := some status }, handle⟩)
      fun _ _ => True := by
  refine Poller.pass_triple (P := fun _ => True) (K := StartedRow)
    (R := fun x y : TaskRun => x.id ≠ y.id) ?_ (fun x => startedRow_stable _ x) (fun x => ?_)
    fun x y _ => Prog.Uses.of_forall _ fun o w r w' _ _ _ hperf hy => startedRow_performs hperf hy
  · refine Triple.selectTaskRuns (stable_true _) (fun _ _ _ => trivial) (fun _ _ => trivial) ?_
    intro w r x hi _ hfind hholds
    have hx : x.status = status := by simpa [SelectTaskRunsFilter.holds] using hholds
    refine ⟨taskRunKnown_of_find hfind, released_log ?_⟩
    exact hi.started x (Table.mem_of_find hfind) (by rw [hx]; exact hstatus)
  · exact (releases_row (hhandle x)).conseq (fun _ _ h => h.2) fun _ _ _ _ => trivial

/-- Asking whether a run is stopped leaves a record of the answer. -/
theorem isJobRunStopped_triple {t : Tid} {P : World → Prop} (id : Nat) (hP : O.Stable cond t P)
    (hlog : ∀ w o r, Silent o → P w → P { w with log := ⟨t, o, r⟩ :: w.log })
    (hpre : ∀ o w, Silent o → P w → O.pre t o w) :
    O.Triple cond t P (isJobRunStopped id) fun r w => P w ∧ (r = .ok false → w.Unstopped t id) := by
  have hselect : O.Triple cond t P (selectJobRunStop id) fun r w =>
      P w ∧ (r = .ok none → w.Unstopped t id) := by
    refine Triple.bind (Triple.select (q := stopQuery id)
        (Q := fun rows w => rows = [] → w.Unstopped t id) hP
        (fun w r h => hlog w _ r trivial h) (fun w h => hpre _ w trivial h) ?_)
      (fun rows => Triple.ret fun w _ h => ⟨h.1, fun hnone => h.2 rows rfl ?_⟩)
      fun e w _ h => ⟨h.1, by nofun⟩
    · intro w _ _ hrows
      have hrows : (stopQuery id).run w.db = [] := hrows
      unfold Host.World.Unstopped
      rw [hrows]
      exact List.mem_cons_self ..
    · exact List.head?_eq_none_iff.mp (Except.ok.inj hnone)
  refine Triple.bind hselect (fun stop => Triple.ret fun w _ h => ⟨h.1, fun hfalse => ?_⟩)
    fun e w _ h => ⟨h.1, by nofun⟩
  cases stop with
  | none => exact h.2 rfl
  | some stop => cases hfalse

/-- The operations that release no task runs. -/
def ReleasesNothing (o : Op) : Prop :=
  ∀ f i, o = .write (.updateTaskRuns f i) → i.status ≠ some .waiting

theorem Silent.releasesNothing {o : Op} (h : Silent o) : ReleasesNothing o := by
  rintro f i rfl
  cases h

/-- The dispatcher releases no run but one it was told is not stopped. -/
theorem releases_dispatcher (hb : cond.Le (base lib).established) (config : Config) (x : JobRun) :
    (releases lib).Triple cond (.service .jobRunDispatcher) (fun _ => True)
      (JobRunDispatcher.handleQueuedJobRun config x) fun _ _ => True := by
  have hothers : ∀ {α : Type} {p : Code α} {P : World → Prop}, p.Uses ReleasesNothing →
      (releases lib).Triple cond (.service .jobRunDispatcher) P p fun _ _ => True := by
    intro α p P hp
    refine (Triple.of_uses (stable_true _) (hp.mono fun o ho w r w' _ _ hperf =>
      ⟨?_, fun _ => trivial⟩)).pre fun _ _ _ => trivial
    cases o with
    | write q =>
        cases q with
        | updateTaskRuns f i =>
            simp only [releases, ho f i rfl, if_false]
            intro status hset hstarted
            cases allowed_of hb hperf with
            | endTaskRuns _ hs =>
                cases hset
                rw [(not_hasStarted hs).1] at hstarted
                cases hstarted
            | releaseTaskRuns => exact absurd rfl (ho _ _ rfl)
        | insertTaskRunAttempt i => cases allowed_of hb hperf
        | _ => trivial
    | _ => trivial
  have hends : ∀ ts js, ts ≠ .waiting →
      (settleUnstarted ts js x.id).Uses ReleasesNothing := by
    intro ts js hts
    refine (now_silent.mono fun o ho => ho.releasesNothing).bind fun now =>
      (uses_write ?_).bind fun _ => uses_write fun f i heq => by cases heq
    intro f i heq
    cases heq
    exact fun h => hts (Option.some.inj h)
  have hsilent : ∀ {α : Type} {p : Code α}, p.Uses Silent →
      (releases lib).Triple cond (.service .jobRunDispatcher)
        (fun w => w.Unstopped (.service .jobRunDispatcher) x.id) p
        fun _ w => w.Unstopped (.service .jobRunDispatcher) x.id := fun hp =>
    Triple.of_uses (unstopped_stable _ _ _) (hp.mono fun o ho w r w' _ hw hperf =>
      ⟨ho.releases_pre _ w, fun _ => unstopped_performs hperf hw⟩)
  -- once it is going to be set to running, the run has been found not to be stopped
  have hderive : (releases lib).Triple cond (.service .jobRunDispatcher) (fun _ => True)
      (JobRunDispatcher.deriveNextStatus config x) fun r w =>
        r = .ok .running → w.Unstopped (.service .jobRunDispatcher) x.id := by
    refine Triple.bind (isJobRunStopped_triple x.id (stable_true _) (fun _ _ _ _ _ => trivial)
      fun o w ho _ => ho.releases_pre _ w) (fun isStopped => ?_) fun e w _ _ => by nofun
    cases isStopped with
    | true => exact Triple.ret fun _ _ _ => by nofun
    | false =>
        refine Triple.bind ((hsilent (isJobAtMaxParallelRuns_silent config x.jobId)).pre
          fun w _ h => h.2 rfl) (fun _ => Triple.ret fun w _ h _ => h) fun e w _ _ => by nofun
  have hdir : (releases lib).Triple cond (.service .jobRunDispatcher)
      (fun w => w.Unstopped (.service .jobRunDispatcher) x.id) (createJobRunDir config x.id)
      fun _ w => w.Unstopped (.service .jobRunDispatcher) x.id :=
    Triple.of_uses (unstopped_stable _ _ _) ((createJobRunDir_uses
      (P := fun o : Op => ∀ w, (releases lib).pre (.service .jobRunDispatcher) o w)
      (fun o ho w => ho.releases_pre _ w) (fun _ _ => trivial) config x.id).mono
      fun o ho w r w' _ hw hperf => ⟨ho w, fun _ => unstopped_performs hperf hw⟩)
  have hrelease : (releases lib).Triple cond (.service .jobRunDispatcher)
      (fun w => w.Unstopped (.service .jobRunDispatcher) x.id)
      (updateTaskRuns { jobRunId := some x.id, status := some .planned }
        { status := some .waiting }) fun _ _ => True := by
    refine Triple.perform (unstopped_stable _ _ _) (fun w _ _ _ hw _ => ?_)
      fun _ _ _ _ _ _ _ => trivial
    simp only [releases, if_true]
    intro id hid
    cases hid
    exact hw
  have hsettle : ((now : Code Instant).bind fun now => updateJobRuns { id := some x.id }
      { status := some .running, startedAt := some (some now) }).Uses ReleasesNothing :=
    (now_silent.mono fun o ho => ho.releasesNothing).bind fun now =>
      (Prog.uses_perform _).mpr fun f i heq => by cases heq
  have hrunning : (releases lib).Triple cond (.service .jobRunDispatcher)
      (fun w => w.Unstopped (.service .jobRunDispatcher) x.id)
      (JobRunDispatcher.setToRunning config x) fun _ _ => True :=
    Triple.seq hdir fun _ => Triple.seq hrelease fun _ => hothers hsettle
  refine Triple.seq hderive fun status => ?_
  split
  · exact hothers (hends _ _ nofun)
  · exact Triple.ret fun _ _ _ => trivial
  · exact hrunning.pre fun w _ h => h rfl
  · exact hothers (hends _ _ nofun)

theorem releases_valid (hb : cond.Le (base lib).established) : (releases lib).Valid cond where
  init w hw := by
    have hw : w = .fresh := hw
    subst hw
    refine ⟨⟨fun id ⟨e, he, _⟩ => absurd he List.not_mem_nil, fun x hx => absurd hx List.not_mem_nil,
      fun a ha => absurd ha List.not_mem_nil⟩, fun _ => trivial⟩
  step _ _ _ _ _ hi hpre h := releasedFirst_performs hb hi hpre h
  env w w' kill hi h := by
    refine ⟨⟨fun id hid => ?_, fun x hx hstarted => ?_, fun a ha => ?_⟩, fun _ _ => trivial⟩
    · unfold Host.World.Released at hid
      rw [log_happens h] at hid
      exact unstopped_happens h (hi.unstopped id hid)
    · rw [happens_db h] at hx
      exact released_happens h (hi.started x hx hstarted)
    · rw [happens_db h] at ha ⊢
      exact ⟨released_happens h (hi.attempted a ha).1, (hi.attempted a ha).2⟩
  idle t := stable_true t
  start := by
    -- nobody else starts a task run
    have hothers : ∀ {t : Tid} {P : World → Prop}, t ≠ .service .jobRunDispatcher →
        t ≠ .service .taskRunDispatcher → t ≠ .service .taskRunMonitor →
        ∀ p : Code Unit, (releases lib).Triple cond t P p fun _ _ => True := by
      intro t P hjobs hdispatcher hmonitor p
      refine (Triple.of_pre fun o w r w' _ hperf => ?_).pre fun _ _ _ => trivial
      have hallowed := allowed_of hb hperf
      cases o with
      | write q =>
          cases q with
          | updateTaskRuns f i =>
              cases hallowed with
              | endTaskRuns _ hs =>
                  have hwaiting := (not_hasStarted hs).2
                  simp only [releases, Option.some.injEq, hwaiting, if_false]
                  rintro status rfl hstarted
                  rw [(not_hasStarted hs).1] at hstarted
                  cases hstarted
              | releaseTaskRuns => exact absurd rfl hjobs
              | dropTaskRun | startTaskRun => exact absurd rfl hdispatcher
              | settleTaskRun => exact absurd rfl hmonitor
          | insertTaskRunAttempt i =>
              cases hallowed
              exact absurd rfl hmonitor
          | _ => trivial
      | _ => trivial
    refine start_triple (fun config fuel s => ?_)
      fun c r => hothers (by nofun) (by nofun) (by nofun) _
    refine Triple.pre ?_ fun _ _ _ => trivial
    cases s with
    | jobRunDispatcher =>
        exact Poller.pass_each (Triple.of_uses (stable_true _) ((selectJobRuns_silent _).mono
          fun o ho w r w' _ _ _ => ⟨ho.releases_pre _ w, fun _ => trivial⟩))
          (releases_dispatcher hb config)
    | taskRunDispatcher =>
        refine releases_pass rfl fun x => (taskRunDispatcher_handles x).mono fun o ho =>
          ⟨ho, fun i heq => ?_⟩
        subst heq
        cases ho.1
    | taskRunMonitor =>
        refine releases_pass rfl fun x => taskRunMonitor_uses (fun o ho => ⟨ho.handles _ _,
          fun i heq => ?_⟩) x (fun n => ⟨⟨.addAttempt rfl, rfl⟩, fun i heq => ⟨n, ?_⟩⟩)
          fun now status h₁ h₂ => ⟨⟨.settleTaskRun h₁ h₂, rfl⟩, by nofun⟩
        · injection heq with heq
          injection heq with heq
          exact heq.symm
        · subst heq
          cases ho
    | _ => exact hothers (by nofun) (by nofun) (by nofun) _

end Flowlite

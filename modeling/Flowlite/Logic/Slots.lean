import Flowlite.Logic.Gate

/-!
# The runs of a job that are under way

`JobRunDispatcher` counts the running runs of a job before it starts one more. Between
that count and the run's own status stand the release of its task runs and a write of
its own: in between, the run takes a slot that nobody else can count. `slots` is the
outline that counts it.
-/

namespace Flowlite

open Store Host Threads Crud Machine Outline

variable {lib : Library} {cond : (flowlite lib).Condition} {O : Outline (flowlite lib)}

/-! ## The runs that are counted -/

/-- The running runs of a job, which are the ones the dispatcher counts. -/
def Host.World.runningRuns (w : World) (jobId : String) : Nat :=
  w.db.jobRuns.count fun x => x.jobId = jobId && x.status = .running

/-- The runs of a job that are running or about to be. -/
def Host.World.busyRuns (w : World) (jobId : String) : Nat :=
  w.db.jobRuns.count fun x =>
    x.jobId = jobId && (x.status = .running || w.releasing = some x.id && !x.status.isFinished)

/-- The job is declared with a limit of at most `m`. -/
def Host.Config.Limits (config : Config) (jobId : String) (m : Nat) : Prop :=
  ∃ job, config.jobs.find? (fun j => j.jobId = jobId) = some job ∧ 0 < job.maxParallelRuns ∧
    job.maxParallelRuns ≤ m

instance (config : Config) (jobId : String) (m : Nat) : Decidable (config.Limits jobId m) :=
  decidable_of_iff ((config.jobs.find? fun j => j.jobId = jobId).any
    (fun job => 0 < job.maxParallelRuns && job.maxParallelRuns ≤ m) = true) (by
      rw [Option.any_eq_true]
      simp [Host.Config.Limits])

/-- `serve` always runs with the job declared so, and a start that has released the task
runs of a run always comes to write its status. -/
def startsWhole (lib : Library) (jobId : String) (m : Nat) : (flowlite lib).Condition where
  step t o _ r _ :=
    match t, o, r with
    | .service .jobRunDispatcher, .write (.updateJobRuns _ i), .error _ =>
        i.status ≠ some .running
    | _, _, _ => True
  env e w _ :=
    match e with
    | .boot config => config.Limits jobId m
    | .crash => w.releasing = none
    | _ => True

instance (jobId : String) (m : Nat) : (startsWhole lib jobId m).Checked where
  step t o w r w' := by
    rcases t with s | n
    case service =>
      rcases s
      case jobRunDispatcher =>
        rcases o with _ | q
        case write =>
          rcases q
          case updateJobRuns f i => rcases r <;> (dsimp only [startsWhole]; infer_instance)
          all_goals exact isTrue trivial
        all_goals exact isTrue trivial
      all_goals exact isTrue trivial
    case client => exact isTrue trivial
  env e w w' := by
    rcases e <;> (dsimp only [startsWhole]; infer_instance)

theorem startsWhole_le (lib : Library) (jobId : String) (m : Nat) :
    (startsWhole lib jobId m).Le (startsReleased lib) := by
  refine ⟨fun _ _ _ _ _ h => h, fun e w w' h => ?_⟩
  cases e with
  | crash => exact h
  | _ => trivial

/-- The job run's row is still this one, whatever its status. -/
def KnownJobRun (x : JobRun) (w : World) : Prop :=
  x.id < w.db.jobRuns.next ∧ ∀ y, w.db.jobRuns.find x.id = some y → JobRun.Same x y

section Steps

variable {t : Tid} {o : Op} {w w' : World} {r : Result o}

theorem knownJobRun_performs {x : JobRun} (h : Performs cond t o w r w') (hx : KnownJobRun x w) :
    KnownJobRun x w' := by
  refine ⟨lt_of_lt_of_le hx.1 (jobRuns_next_le h), fun y' hy' => ?_⟩
  rcases jobRun_origin h hy' with hy | ⟨i, tasks, n, now, -, -, hid, -⟩ |
    ⟨y, hy, ⟨f, i, -, -, -, rfl⟩ | ⟨now, -, -, -, rfl⟩⟩
  · exact hx.2 y' hy
  · exact absurd hx.1 (by omega)
  · have hsame : y = _ := hx.2 y hy
    rw [hsame]
    rfl
  · have hsame : y = _ := hx.2 y hy
    rw [hsame]
    rfl

theorem knownJobRun_stable (t : Tid) (x : JobRun) : O.Stable cond t (KnownJobRun x) := by
  intro w w' hothers hx
  cases hothers with
  | run _ _ _ _ hperf => exact knownJobRun_performs hperf hx
  | env _ _ _ hhappens =>
      unfold KnownJobRun
      rwa [happens_db hhappens]

/-- A job run after a step is an old one or the one it inserted. -/
theorem jobRun_before (h : Performs cond t o w r w') {x' : JobRun}
    (hx' : x' ∈ w'.db.jobRuns.rows) :
    (∃ x ∈ w.db.jobRuns.rows, JobRun.Same x x') ∨ x'.id = w.db.jobRuns.next := by
  rcases jobRun_origin h (Table.find_of_mem hx') with hx | ⟨i, tasks, n, now, -, -, hid, -⟩ |
    ⟨x, hx, ⟨f, i, -, -, -, hnew⟩ | ⟨now, -, -, -, hnew⟩⟩
  · exact .inl ⟨x', Table.mem_of_find hx, rfl⟩
  · exact .inr hid
  · exact .inl ⟨x, Table.mem_of_find hx, by rw [hnew]; rfl⟩
  · exact .inl ⟨x, Table.mem_of_find hx, by rw [hnew]; rfl⟩

end Steps

/-! ## The outline -/

/-- Every run of the job that is under way has a slot. -/
structure SlotsHeld (jobId : String) (m : Nat) (w : World) : Prop where
  declared : ∀ config, w.serve = .starting config ∨ w.serve = .up config → config.Limits jobId m
  busy : w.busyRuns jobId ≤ m

/-- The dispatcher releases a run into a free slot. -/
def slots (lib : Library) (jobId : String) (m : Nat) : Outline (flowlite lib) where
  inv := SlotsHeld jobId m
  pre t o w :=
    match t, o with
    | .service .jobRunDispatcher, .write (.updateTaskRuns f i) =>
        i.status = some .waiting → ∀ id, f.jobRunId = some id →
          ∀ x, w.db.jobRuns.find id = some x → x.jobId = jobId → w.runningRuns jobId < m
    | _, _ => True
  idle _ _ := True

section Steps

variable {jobId : String} {m : Nat} {t : Tid} {o : Op} {w w' : World} {r : Result o}

/-- Where a running run comes from. -/
theorem running_origin (hb : cond.Le (base lib).established) (h : Performs cond t o w r w')
    {x' : JobRun} (hx' : x' ∈ w'.db.jobRuns.rows) (hrunning : x'.status = .running) :
    x' ∈ w.db.jobRuns.rows ∨
      ∃ x now, x ∈ w.db.jobRuns.rows ∧ x.id = x'.id ∧ x.jobId = x'.jobId ∧ Succeeded r ∧
        t = .service .jobRunDispatcher ∧ o = .write (.updateJobRuns { id := some x.id }
          { status := some .running, startedAt := some (some now) }) := by
  rcases jobRun_origin h (Table.find_of_mem hx') with hx | ⟨i, tasks, n, now, rfl, -, -, hnew⟩ |
    ⟨x, hx, ⟨f, i, rfl, hok, hf, hnew⟩ | ⟨now, -, -, -, hnew⟩⟩
  · exact .inl (Table.mem_of_find hx)
  · have hstatus : i.status = .running := by rw [← hrunning, hnew]; rfl
    cases allowed_of hb h with
    | submitScheduled hscheduled | submit hscheduled =>
        rw [hscheduled] at hstatus
        cases hstatus
  · have hstatus : (i.patch.apply x).status = .running := by rw [← hnew]; exact hrunning
    have hkey : x.id = x'.id := Table.key_of_find hx
    have hjob : x.jobId = x'.jobId := by rw [hnew]; rfl
    cases allowed_of hb h with
    | startJobRun =>
        have hid := updateJobRunsFilter_holds rfl hf
        subst hid
        exact .inr ⟨x, _, Table.mem_of_find hx, hkey, hjob, hok, rfl, rfl⟩
    | endJobRun _ hs => rcases hs with rfl | rfl <;> cases hstatus
    | queueJobRun => cases hstatus
    | settleJobRun hfinished =>
        cases hstatus
        cases hfinished
  · rw [hnew] at hrunning
    cases hrunning

/-- Nobody but the dispatcher adds to the running runs. -/
theorem runningRuns_others (hb : cond.Le (base lib).established) (h : Performs cond t o w r w')
    (ht : t ≠ .service .jobRunDispatcher) : w'.runningRuns jobId ≤ w.runningRuns jobId := by
  refine Table.count_le fun x' hx' hcounts => ?_
  obtain ⟨hjob, hrunning⟩ := Bool.and_eq_true_iff.mp hcounts
  rcases running_origin hb h hx' (of_decide_eq_true hrunning) with
    hx | ⟨x, now, -, -, -, -, hdispatcher, -⟩
  · exact ⟨x', hx, rfl, hcounts⟩
  · exact absurd hdispatcher ht

/-- No step takes more slots than there are. -/
theorem busyRuns_performs (hb : cond.Le (base lib).established)
    (hj : cond.Le (jobRuns lib).established) (hg : cond.Le (gate lib).established)
    (hi : SlotsHeld jobId m w) (hpre : (slots lib jobId m).pre t o w)
    (h : Performs cond t o w r w') : w'.busyRuns jobId ≤ m := by
  obtain ⟨hgate, hgated, -⟩ := hg.1 _ _ _ _ _ h.2
  rcases releasing_cases hb h with ⟨id, rfl, rfl, hreleasing, -⟩ | ⟨-, hkept⟩
  · -- the run that is released takes the slot that was found free
    have hfree := hpre rfl id rfl
    have hrows : w'.db.jobRuns = w.db.jobRuns := jobRuns_kept h (by nofun)
    have hcounted : ∀ x ∈ w'.db.jobRuns.rows, (x.jobId = jobId && (x.status = .running ||
        w'.releasing = some x.id && !x.status.isFinished)) = true → x ∈ w.db.jobRuns.rows ∧
          x.jobId = jobId ∧ (x.status = .running ∨ x.id = id) := by
      intro x hx hcounts
      rw [hrows] at hx
      rw [hreleasing] at hcounts
      obtain ⟨hjob, hstatus⟩ := Bool.and_eq_true_iff.mp hcounts
      refine ⟨hx, of_decide_eq_true hjob, ?_⟩
      rcases Bool.or_eq_true_iff.mp hstatus with hrunning | hreleased
      · exact .inl (of_decide_eq_true hrunning)
      · have := of_decide_eq_true (Bool.and_eq_true_iff.mp hreleased).1
        exact .inr (Option.some.inj this).symm
    by_cases hown : ∃ x, w.db.jobRuns.find id = some x ∧ x.jobId = jobId
    · obtain ⟨x, hx, hjob⟩ := hown
      have hbusy : w'.busyRuns jobId ≤ w.runningRuns jobId + 1 := by
        refine Table.count_le_succ (n := id) fun y hy hcounts => ?_
        obtain ⟨hy, hyjob, hrunning | hid⟩ := hcounted y hy hcounts
        · exact .inr ⟨y, hy, rfl, by simp [hyjob, hrunning]⟩
        · exact .inl hid
      have := hfree x hx hjob
      omega
    · refine le_trans (Table.count_le fun y hy hcounts => ?_) hi.busy
      obtain ⟨hy, hyjob, hrunning | hid⟩ := hcounted y hy hcounts
      · exact ⟨y, hy, rfl, by simp [hyjob, hrunning]⟩
      · have hfind := Table.find_of_mem hy
        exact absurd ⟨y, hid ▸ hfind, hyjob⟩ hown
  · -- whoever has a slot now had one before
    refine le_trans (Table.count_le fun x' hx' hcounts => ?_) hi.busy
    obtain ⟨hjob, hstatus⟩ := Bool.and_eq_true_iff.mp hcounts
    have hjob := of_decide_eq_true hjob
    rcases Bool.or_eq_true_iff.mp hstatus with hrunning | hreleased
    · have hrunning := of_decide_eq_true hrunning
      rcases running_origin hb h hx' hrunning with hx | ⟨x, now, hx, hid, hxjob, -, rfl, rfl⟩
      · exact ⟨x', hx, rfl, by simp [hjob, hrunning]⟩
      · have hreleasing : w.releasing = some x.id := hgated
        have hqueued := (hj.1 _ _ _ _ _ h.2).2.1 _ _ rfl x.id x (Table.find_of_mem hx)
          (by simp [UpdateJobRunsFilter.holds])
        have hqueued : x.status = .queued := hqueued
        refine ⟨x, hx, hid, ?_⟩
        simp [hxjob, hjob, hreleasing, hqueued, JobRunStatus.isFinished]
    · have hreleased := of_decide_eq_true (Bool.and_eq_true_iff.mp hreleased).1
      have hbefore : w.releasing = some x'.id := by
        rcases hkept with ⟨hkept, -⟩ | ⟨-, -, -, hnone⟩
        · rw [← hkept, hreleased]
        · rw [hnone] at hreleased
          cases hreleased
      have hat := hgate.queued x'.id hbefore
      rcases jobRun_before h hx' with ⟨x, hx, hsame⟩ | hnext
      · have hid : x.id = x'.id := by rw [hsame]
        have hxjob : x.jobId = jobId := by rw [← hjob, hsame]
        have hfind := Table.find_of_mem hx
        have hqueued : x.status = .queued := hat.2 x (by rw [← hid]; exact hfind)
        refine ⟨x, hx, hid, ?_⟩
        simp [hxjob, hbefore, hid, hqueued, JobRunStatus.isFinished]
      · exact absurd hat.1 (by omega)

theorem slotsHeld_performs (hb : cond.Le (base lib).established)
    (hj : cond.Le (jobRuns lib).established) (hg : cond.Le (gate lib).established)
    (hi : SlotsHeld jobId m w) (hpre : (slots lib jobId m).pre t o w)
    (h : Performs cond t o w r w') : SlotsHeld jobId m w' where
  declared config hserve := by
    rcases serve_cases h with heq | ⟨-, config', hbefore, hafter⟩
    · rw [heq] at hserve
      exact hi.declared config hserve
    · rw [hafter] at hserve
      rcases hserve with hserve | hserve <;> cases hserve
      exact hi.declared _ (.inl hbefore)
  busy := busyRuns_performs hb hj hg hi hpre h

end Steps

/-! ## The dispatcher -/

section Dispatcher

variable {jobId : String} {m : Nat} {config : Config}

/-- The dispatcher has the run's row in hand, in a process whose configuration limits
the job. -/
def Limiting (config : Config) (jobId : String) (m : Nat) (x : JobRun) (w : World) : Prop :=
  (w.serve = .up config ∧ config.Limits jobId m) ∧ KnownJobRun x w

theorem limiting_stable (hb : cond.Le (base lib).established) (x : JobRun) :
    O.Stable cond (.service .jobRunDispatcher) (Limiting config jobId m x) :=
  ((ServedBy.stable hb config (.service .jobRunDispatcher)).and (stable_const _ _)).and
    (knownJobRun_stable _ x)

/-- What releases nothing takes no slot. -/
theorem limiting_uses (hb : cond.Le (base lib).established) {α : Type} {p : Code α} (x : JobRun)
    (hp : p.Uses fun o : Op => o ≠ .startServices ∧
      ∀ f i, o = .write (.updateTaskRuns f i) → i.status ≠ some .waiting) :
    (slots lib jobId m).Triple cond (.service .jobRunDispatcher) (Limiting config jobId m x) p
      fun _ => Limiting config jobId m x := by
  refine Triple.of_uses (limiting_stable hb x) (hp.mono fun o ho w r w' _ hw hperf =>
    ⟨?_, fun _ => ⟨⟨?_, hw.1.2⟩, knownJobRun_performs hperf hw.2⟩⟩)
  · unfold slots
    dsimp only
    split
    · exact fun hwaiting => absurd hwaiting (ho.2 _ _ rfl)
    · trivial
  · exact ServedBy.kept (t := .service .jobRunDispatcher) hperf ho.1 hw.1.1

theorem Silent.takes_none {o : Op} (h : Silent o) : o ≠ .startServices ∧
    ∀ f i, o = .write (.updateTaskRuns f i) → i.status ≠ some .waiting := by
  cases o <;> first | exact h.elim | exact ⟨nofun, fun f i => nofun⟩

/-- The running runs of a job are the ones `is_job_at_max_parallel_runs` selects. -/
theorem runningRuns_selected (w : World) (jobId : String) : w.runningRuns jobId =
    (w.db.selectJobRuns
      { filter := { jobId := some jobId, status := some .running } }).length := by
  have hholds : ({ jobId := some jobId, status := some .running } : SelectJobRunsFilter).holds w.db =
      fun y => y.jobId = jobId && y.status = .running := by
    funext y
    simp [SelectJobRunsFilter.holds]
  simp [Host.World.runningRuns, Table.count, Database.selectJobRuns, window, sorted, hholds]

/-- The count of the running runs, as the dispatcher reads it. -/
theorem isJobAtMax_triple (hb : cond.Le (base lib).established) (x : JobRun) :
    (slots lib jobId m).Triple cond (.service .jobRunDispatcher) (Limiting config jobId m x)
      (isJobAtMaxParallelRuns config x.jobId) fun r w => Limiting config jobId m x w ∧
        (r = .ok false → x.jobId = jobId → w.runningRuns jobId < m) := by
  have hstable : (slots lib jobId m).Stable cond (.service .jobRunDispatcher)
      (Limiting config jobId m x) := limiting_stable hb x
  refine Triple.bind (R := fun r w => Limiting config jobId m x w ∧
    ∀ found, r = .ok found → found = config.jobs.find? fun j => j.jobId = x.jobId) ?_
    (fun found => ?_) fun e w _ h => ⟨h.1, nofun⟩
  · refine Triple.bind (limiting_uses hb x (uses_op ⟨nofun, fun f i => nofun⟩))
      (fun _ => Triple.ret fun w _ h => ⟨h, ?_⟩) fun e w _ h => ⟨h, nofun⟩
    intro found hfound
    exact (Except.ok.inj hfound).symm
  · refine Triple.of_fact (fun w _ h => h.2 found rfl) fun hfound => Triple.pre ?_ fun _ _ h => h.1
    -- a job that is limited is there, and its limit is no zero
    have hlimited : ∀ w, Limiting config jobId m x w → x.jobId = jobId →
        ∃ job, found = some job ∧ 0 < job.maxParallelRuns ∧ job.maxParallelRuns ≤ m := by
      rintro w ⟨⟨-, job, hjob, hpos, hle⟩, -⟩ rfl
      exact ⟨job, hfound.trans hjob, hpos, hle⟩
    cases found with
    | none =>
        refine Triple.ret fun w _ h => ⟨h, fun _ hown => ?_⟩
        obtain ⟨job, hjob, -⟩ := hlimited w h hown
        cases hjob
    | some job =>
        have hcount : (slots lib jobId m).Triple cond (.service .jobRunDispatcher)
            (Limiting config jobId m x)
            (selectJobRuns { filter := { jobId := some x.jobId, status := some .running } })
            fun r w => Limiting config jobId m x w ∧ ∀ rows, r = .ok rows →
              x.jobId = jobId → w.runningRuns jobId = rows.length := by
          refine Triple.select
            (q := .jobRuns { filter := { jobId := some x.jobId, status := some .running } })
            (Q := fun (rows : List JobRun) w => x.jobId = jobId →
              w.runningRuns jobId = rows.length) hstable (fun w r h => h) (fun _ _ => trivial) ?_
          rintro w - - rfl
          exact runningRuns_selected w x.jobId
        by_cases hzero : job.maxParallelRuns = 0
        · simp only [hzero, if_true]
          refine Triple.ret fun w _ h => ⟨h, fun _ hown => ?_⟩
          obtain ⟨job', hjob, hpos, -⟩ := hlimited w h hown
          cases hjob
          omega
        · simp only [hzero, if_false]
          refine Triple.bind hcount (fun rows => Triple.ret fun w _ h => ⟨h.1, fun hfree hown => ?_⟩)
            fun e w _ h => ⟨h.1, nofun⟩
          obtain ⟨job', hjob, -, hle⟩ := hlimited w h.1 hown
          cases hjob
          have hfree := of_decide_eq_false (Except.ok.inj hfree)
          have := h.2 rows rfl hown
          omega

/-- A run the dispatcher has found a slot for. -/
def HasSlot (config : Config) (jobId : String) (m : Nat) (x : JobRun) (w : World) : Prop :=
  Limiting config jobId m x w ∧ (x.jobId = jobId → w.runningRuns jobId < m)

theorem hasSlot_stable (hb : cond.Le (base lib).established) (x : JobRun) :
    O.Stable cond (.service .jobRunDispatcher) (HasSlot config jobId m x) := by
  intro w w' hothers ⟨hlimiting, hfree⟩
  refine ⟨limiting_stable hb x w w' hothers hlimiting, fun hown => ?_⟩
  cases hothers with
  | run hu _ _ _ hperf => exact lt_of_le_of_lt (runningRuns_others hb hperf hu) (hfree hown)
  | env _ _ _ hhappens =>
      unfold Host.World.runningRuns
      rw [happens_db hhappens]
      exact hfree hown

/-- The task runs of a run are released while its slot is free. -/
theorem setToRunning_triple (hb : cond.Le (base lib).established) (x : JobRun) :
    (slots lib jobId m).Triple cond (.service .jobRunDispatcher) (HasSlot config jobId m x)
      (JobRunDispatcher.setToRunning config x) fun _ => Limiting config jobId m x := by
  have hdir : (slots lib jobId m).Triple cond (.service .jobRunDispatcher)
      (HasSlot config jobId m x) (createJobRunDir config x.id)
      fun _ => HasSlot config jobId m x := by
    refine Triple.of_uses (hasSlot_stable hb x) ((createJobRunDir_uses
      (P := fun o : Op => o ≠ .startServices ∧ ∀ q, o ≠ .write q)
      (fun o ho => ⟨ho.takes_none.1, silent_not_write ho⟩) (fun _ => ⟨nofun, fun q => nofun⟩)
      _ _).mono fun o ho w r w' _ hw hperf => ⟨?_, fun _ => ⟨⟨⟨?_, hw.1.1.2⟩, ?_⟩, ?_⟩⟩)
    · unfold slots
      dsimp only
      split
      · exact absurd rfl (ho.2 _)
      · trivial
    · exact ServedBy.kept (t := .service .jobRunDispatcher) hperf ho.1 hw.1.1.1
    · exact knownJobRun_performs hperf hw.1.2
    · unfold Host.World.runningRuns
      rw [db_of_not_write hperf ho.2]
      exact hw.2
  have hstart : (slots lib jobId m).Triple cond (.service .jobRunDispatcher)
      (Limiting config jobId m x) (now >>= fun now => updateJobRuns { id := some x.id }
        { status := some .running, startedAt := some (some now) })
      fun _ => Limiting config jobId m x := by
    refine limiting_uses hb x ((now_silent.mono fun o ho => ho.takes_none).bind fun _ =>
      uses_write ⟨by nofun, fun f i heq => ?_⟩)
    cases heq
  refine Triple.bind hdir (fun _ => ?_) fun _ _ _ h => h.1
  refine Triple.bind (R := fun _ => Limiting config jobId m x)
    (Triple.perform (hasSlot_stable hb x) (fun w _ _ _ h _ => ?_) fun w r w' _ h hperf _ => ?_)
    (fun _ => hstart) fun _ _ _ h => h
  · intro _ id hid y hy hown
    cases hid
    refine h.2 ?_
    rw [← hown, h.1.2.2 y hy]
  · exact ⟨⟨ServedBy.kept (t := .service .jobRunDispatcher) hperf nofun h.1.1.1, h.1.1.2⟩,
      knownJobRun_performs hperf h.1.2⟩

/-- Ending a run nobody started takes no slot. -/
theorem settleUnstarted_slots (hb : cond.Le (base lib).established) {ts : TaskRunStatus}
    {js : JobRunStatus} (hts : ts ≠ .waiting) (x : JobRun) :
    (slots lib jobId m).Triple cond (.service .jobRunDispatcher) (Limiting config jobId m x)
      (settleUnstarted ts js x.id) fun _ => Limiting config jobId m x := by
  refine limiting_uses hb x ?_
  refine (now_silent.mono fun o ho => ho.takes_none).bind fun _ => Prog.Uses.bind
    (uses_write ⟨by nofun, fun f i heq => ?_⟩)
    fun _ => uses_write ⟨by nofun, fun f i heq => by cases heq⟩
  cases heq
  exact fun h => hts (Option.some.inj h)

theorem slots_dispatcher (hb : cond.Le (base lib).established) (x : JobRun) :
    (slots lib jobId m).Triple cond (.service .jobRunDispatcher) (Limiting config jobId m x)
      (JobRunDispatcher.handleQueuedJobRun config x) fun _ => Limiting config jobId m x := by
  have hderive : (slots lib jobId m).Triple cond (.service .jobRunDispatcher)
      (Limiting config jobId m x) (JobRunDispatcher.deriveNextStatus config x) fun r w =>
        Limiting config jobId m x w ∧
          (r = .ok .running → x.jobId = jobId → w.runningRuns jobId < m) := by
    refine Triple.bind (limiting_uses hb x ((isJobRunStopped_silent x.id).mono
      fun o ho => ho.takes_none)) (fun isStopped => ?_) fun e w _ h => ⟨h, nofun⟩
    cases isStopped with
    | true => exact Triple.ret fun w _ h => ⟨h, nofun⟩
    | false =>
        refine Triple.bind (isJobAtMax_triple hb x) (fun isAtMax => ?_)
          fun e w _ h => ⟨h.1, nofun⟩
        cases isAtMax with
        | true => exact Triple.ret fun w _ h => ⟨h.1, nofun⟩
        | false => exact Triple.ret fun w _ h => ⟨h.1, fun _ => h.2 rfl⟩
  refine Triple.bind hderive (fun status => ?_) fun _ _ _ h => h.1
  split
  · exact (settleUnstarted_slots hb (show TaskRunStatus.skipped ≠ .waiting by nofun) x).pre fun _ _ h => h.1
  · exact Triple.ret fun _ _ h => h.1
  · exact (setToRunning_triple hb x).pre fun w _ h => ⟨h.1, h.2 rfl⟩
  · exact (settleUnstarted_slots hb (show TaskRunStatus.invalid ≠ .waiting by nofun) x).pre fun _ _ h => h.1

end Dispatcher

theorem slots_valid {jobId : String} {m : Nat} (hc : cond.Le (startsWhole lib jobId m))
    (hb : cond.Le (base lib).established) (hj : cond.Le (jobRuns lib).established)
    (hg : cond.Le (gate lib).established) : (slots lib jobId m).Valid cond where
  init w hw := by
    have hw : w = .fresh := hw
    subst hw
    refine ⟨⟨fun config h => ?_, Nat.zero_le _⟩, fun _ => trivial⟩
    rcases h with h | h <;> cases h
  step _ _ _ _ _ hi hpre h := slotsHeld_performs hb hj hg hi hpre h
  env w w' kill hi h := by
    refine ⟨⟨fun config hserve => ?_, ?_⟩, fun _ _ => trivial⟩
    · obtain ⟨e, he, hce⟩ := h
      rcases external_boots he hserve with rfl | heq
      · exact hc.2 _ _ _ hce
      · rw [heq] at hserve
        exact hi.declared config hserve
    · unfold Host.World.busyRuns
      rw [happens_db h, releasing_happens h]
      exact hi.busy
  idle t := stable_true t
  start := by
    -- nobody else writes what a count is about
    have hothers : ∀ {t : Tid} {P : World → Prop}, t ≠ .service .jobRunDispatcher →
        ∀ p : Code Unit, (slots lib jobId m).Triple cond t P p fun _ _ => True := by
      intro t P ht p
      refine (Triple.of_pre fun o w r w' _ hperf => ?_).pre fun _ _ _ => trivial
      unfold slots
      dsimp only
      split
      · exact absurd rfl ht
      · trivial
    refine start_triple_served (fun config fuel s => ?_) fun c r => hothers (by nofun) _
    by_cases hs : s = .jobRunDispatcher
    · subst hs
      have hup : (slots lib jobId m).Stable cond (.service .jobRunDispatcher)
          fun w => w.serve = .up config ∧ config.Limits jobId m :=
        (ServedBy.stable hb config (.service .jobRunDispatcher)).and (stable_const _ _)
      have hpass : (slots lib jobId m).Triple cond (.service .jobRunDispatcher)
          (fun w => w.serve = .up config ∧ config.Limits jobId m)
          (JobRunDispatcher.poller config).pass
          fun _ w => w.serve = .up config ∧ config.Limits jobId m := by
        refine Poller.pass_triple (K := KnownJobRun) (R := fun x y : JobRun => x.id ≠ y.id) ?_
          (knownJobRun_stable _) (fun x => (slots_dispatcher hb x).post fun _ _ _ h => h.1)
          fun x y _ => ?_
        · refine Triple.selectJobRuns hup (fun _ _ h => h) (fun _ _ => trivial)
            fun w r x _ _ hfind _ => ⟨Table.lt_next_of_find hfind, fun y hy => ?_⟩
          cases hfind.symm.trans hy
          rfl
        · exact (jobRunDispatcher_handles config x).mono fun o _ w r w' _ _ _ hperf hy =>
            knownJobRun_performs hperf hy
      exact hpass.conseq (fun w hi h => ⟨h.2, hi.declared config (.inr h.2)⟩) fun _ _ _ _ => trivial
    · exact hothers (fun h => hs (Tid.service.inj h)) _

end Flowlite

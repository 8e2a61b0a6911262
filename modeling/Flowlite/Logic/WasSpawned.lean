import Flowlite.Logic.Attempts
import Flowlite.Logic.Spawns

/-!
# What runs was spawned

An attempt is set to running behind the spawn of its command, and it succeeds from there:
so the log has the spawn of every attempt that runs or has succeeded.
-/

namespace Flowlite

open Store Host Threads Crud Machine Outline

variable {lib : Library} {cond : (flowlite lib).Condition}

/-- The log has a command that was spawned for the attempt. -/
def WasSpawned (id : Nat) (w : World) : Prop := ∃ e ∈ w.log, e.spawned = some id

theorem wasSpawned_permanent (id : Nat) : Permanent cond (WasSpawned id) where
  performs h := fun ⟨e, he, hspawned⟩ => ⟨e, by
    rw [log_performs h]
    exact List.mem_cons_of_mem _ he, hspawned⟩
  happens h hw := by
    unfold WasSpawned
    rwa [log_happens h]

/-- An attempt that runs or has succeeded was spawned, and it is set to running only then. -/
def begins (lib : Library) : Outline (flowlite lib) where
  inv w := ∀ a ∈ w.db.taskRunAttempts.rows,
    a.status = .running ∨ a.status = .succeeded → WasSpawned a.id w
  pre _ o w :=
    match o with
    | .write (.updateTaskRunAttempts f i) =>
        i.status = some .running → ∃ id, f = { id := some id } ∧ WasSpawned id w
    | _ => True
  idle _ _ := True

/-- Nothing that sets an attempt to running. -/
def SetsNoneRunning : Op → Prop
  | .write (.updateTaskRunAttempts _ i) => i.status ≠ some .running
  | _ => True

theorem setsNoneRunning_pre {o : Op} (ho : SetsNoneRunning o) (t : Tid) (w : World) :
    (begins lib).pre t o w := by
  cases o with
  | write q =>
      cases q
      case updateTaskRunAttempts f i => exact fun hrunning => absurd hrunning ho
      all_goals trivial
  | _ => trivial

theorem Silent.setsNoneRunning {o : Op} (h : Silent o) : SetsNoneRunning o := by
  cases o <;> trivial

theorem begins_uses {α : Type} {t : Tid} {p : Code α} (hp : p.Uses SetsNoneRunning) :
    (begins lib).Triple cond t (fun _ => True) p fun _ _ => True :=
  Triple.permanent (.const True) (hp.mono fun _ ho w _ _ => setsNoneRunning_pre ho _ w)

/-- The attempt is set to running behind its spawn. -/
theorem begins_setToRunning (config : Config) (a : TaskRunAttempt) :
    (begins lib).Triple cond (.service .taskRunAttemptDispatcher) (fun _ => True)
      (TaskRunAttemptDispatcher.setToRunning lib config a) fun _ _ => True := by
  have hnone : none ≠ some TaskRunAttemptStatus.running := by simp
  refine Triple.seq (begins_uses (TaskRunAttemptDispatcher.prepare_uses
    (fun _ h => h.1.setsNoneRunning) (fun _ _ => trivial) lib config a)) fun (taskRun, command) => ?_
  refine Triple.seq (Triple.pre (begins_uses (now_silent.mono fun _ h => h.setsNoneRunning))
    fun _ _ _ => trivial) fun startedAt => ?_
  refine Triple.seq (Triple.pre (begins_uses (uses_write hnone)) fun _ _ _ => trivial) fun _ => ?_
  refine Triple.seq (R := fun r w => ∀ child, r = .ok (.ok child) → WasSpawned a.id w)
    (Triple.attempt ?_) fun spawned => ?_
  · refine Triple.perform (P := fun _ => True) (stable_true _) (fun _ _ _ _ _ _ => trivial) ?_
      |>.pre fun _ _ _ => trivial
    rintro w r w' - - hperf - child heq
    cases r with
    | error e => cases heq
    | ok pair => exact ⟨_, by rw [log_performs hperf]; exact List.mem_cons_self .., rfl⟩
  cases spawned with
  | error e =>
      refine Triple.pre (begins_uses ?_) fun _ _ _ => trivial
      exact Prog.Uses.bind (uses_write hnone) fun _ => Prog.uses_throw _
  | ok child =>
      refine Triple.seq ((Triple.permanent (wasSpawned_permanent a.id)
        ((Prog.uses_perform _).mpr fun _ _ _ => trivial)).pre fun w _ h => h child rfl) fun _ => ?_
      refine Triple.perform ((wasSpawned_permanent a.id).stable _) (fun w r w' _ hw _ => ?_)
        fun _ _ _ _ _ _ _ => trivial
      exact fun _ => ⟨a.id, rfl, hw⟩

theorem begins_pass (config : Config) :
    (begins lib).Triple cond (.service .taskRunAttemptDispatcher) (fun _ => True)
      (TaskRunAttemptDispatcher.poller lib config).pass fun _ _ => True := by
  refine Poller.pass_each (begins_uses ((selectTaskRunAttempts_silent _ _).mono
    fun _ h => h.setsNoneRunning)) fun a => ?_
  have hsettle : ∀ status, status ≠ .running → (begins lib).Triple cond
      (.service .taskRunAttemptDispatcher) (fun _ => True)
        (TaskRunAttemptDispatcher.settle a status) fun _ _ => True := fun status hne =>
    begins_uses ((now_silent.mono fun _ h => h.setsNoneRunning).bind fun _ =>
      uses_write fun h => hne (Option.some.inj h))
  refine Triple.seq (begins_uses ((TaskRunAttemptDispatcher.deriveNextStatus_silent
    config a).mono fun _ h => h.setsNoneRunning)) fun status => Triple.pre ?_ fun _ _ _ => trivial
  split
  · exact hsettle _ (by simp)
  · exact hsettle _ (by simp)
  · exact Triple.ret fun _ _ _ => trivial
  · exact begins_setToRunning config a
  · exact hsettle _ (by simp)

theorem begins_valid (hb : cond.Le (base lib).established)
    (ha : cond.Le (attempts lib).established) : (begins lib).Valid cond where
  init := by
    rintro w rfl
    exact ⟨fun a ha => absurd ha List.not_mem_nil, fun _ => trivial⟩
  step t o w r w' hi hpre h := by
    intro a' ha' hstatus
    refine (wasSpawned_permanent a'.id).performs h ?_
    rcases taskRunAttempt_origin h (Table.find_of_mem ha') with hx |
      ⟨i, now, rfl, -, -, -, -, -, hnew⟩ | ⟨x, hx, f, i, rfl, -, hf, hnew⟩
    · exact hi a' (Table.mem_of_find hx) hstatus
    · have hqueued : a'.status = .queued := by
        rw [hnew]
        cases allowed_of hb h with
        | addAttempt hqueued => exact hqueued
      rw [hqueued] at hstatus
      rcases hstatus with heq | heq <;> cases heq
    · have hid : x.id = a'.id := Table.key_of_find hx
      rw [← hid]
      have hbefore : x.status = .running ∨ x.status = .succeeded → WasSpawned x.id w :=
        hi x (Table.mem_of_find hx)
      cases hset : i.status with
      | none =>
          rw [hnew] at hstatus
          simp only [UpdateTaskRunAttemptsInput.patch, hset] at hstatus
          exact hbefore hstatus
      | some status =>
          have heq : a'.status = status := by
            rw [hnew]
            simp [UpdateTaskRunAttemptsInput.patch, hset]
          have hfrom := (ha.1 _ _ _ _ _ h.2).2.1 f i rfl (by rw [hset]; rfl) _ x hx hf
          rw [heq] at hstatus
          rcases hstatus with rfl | rfl
          · obtain ⟨id, rfl, hspawned⟩ := hpre hset
            rwa [updateTaskRunAttemptsFilter_holds rfl hf]
          · -- only the monitor lets an attempt succeed
            cases allowed_of hb h with
            | dropAttempt hs => rcases hs with rfl | rfl <;> cases hset
            | settleAttempt => exact hbefore (.inl hfrom)
            | _ => cases hset
  env w w' kill hi h := by
    refine ⟨fun a ha hstatus => ?_, fun _ _ => trivial⟩
    rw [happens_db h] at ha
    exact (wasSpawned_permanent a.id).happens h (hi a ha hstatus)
  idle t := stable_true t
  start := by
    have hothers : ∀ {t : Tid}, t ≠ .service .taskRunAttemptDispatcher → ∀ p : Code Unit,
        (begins lib).Triple cond t (fun _ => True) p fun _ _ => True := by
      intro t ht p
      refine Triple.of_pre fun o w r w' _ hperf => setsNoneRunning_pre ?_ t w
      have hallowed := allowed_of hb hperf
      cases o with
      | write q =>
          cases q
          case updateTaskRunAttempts f i =>
            intro hrunning
            cases hallowed with
            | settleAttempt hfinished =>
                cases hrunning
                cases hfinished
            | recoverAttempt | wait => cases hrunning
            | dropAttempt | markStarted | startAttempt => exact ht rfl
          all_goals trivial
      | _ => trivial
    refine start_triple (fun config fuel s => ?_) fun c r => hothers (by simp) _
    refine Triple.pre ?_ fun _ _ _ => trivial
    cases s with
    | taskRunAttemptDispatcher => exact begins_pass config
    | _ => exact hothers (by simp) _

end Flowlite

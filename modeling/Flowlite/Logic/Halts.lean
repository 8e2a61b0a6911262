import Flowlite.Logic.Releases

/-!
# The runs nobody starts

`JobRunReleaser` and `JobRunDispatcher` write the task runs of a run wholesale, without a
look at any of them. `halts` is the outline that says whose task runs these are: a run's
that is still where its service takes runs from, and that is stopped if they are ended.
-/

namespace Flowlite

open Store Host Threads Crud Machine Outline

variable {lib : Library} {cond : (flowlite lib).Condition} {O : Outline (flowlite lib)}

/-! ## Runs that are stopped for good -/

/-- The run is stopped, or gone. -/
def Halted (id : Nat) (w : World) : Prop :=
  id < w.db.jobRuns.next ∧ (IsStopped w id ∨ w.db.jobRuns.find id = none)

theorem halted_performs {t : Tid} {o : Op} {w w' : World} {r : Result o} {id : Nat}
    (h : Performs cond t o w r w') (hhalted : Halted id w) : Halted id w' := by
  obtain ⟨hid, hhalted⟩ := hhalted
  refine ⟨lt_of_lt_of_le hid (jobRuns_next_le h), ?_⟩
  rcases hhalted with hstopped | hgone
  · rcases isStopped_fate h hstopped with hremoved | hstopped
    · exact .inr (hremoved.gone h).1
    · exact .inl hstopped
  · right
    cases hx : w'.db.jobRuns.find id with
    | none => rfl
    | some x' =>
        rcases jobRun_origin h hx with hold | ⟨i, tasks, n, now, -, -, hnext, -⟩ | ⟨x, hold, -⟩
        · rw [hgone] at hold
          cases hold
        · exact absurd hid (by omega)
        · rw [hgone] at hold
          cases hold

theorem halted_happens {w w' : World} {kill : Tid → Bool} {id : Nat} (h : Happens cond w w' kill)
    (hhalted : Halted id w) : Halted id w' := by
  unfold Halted IsStopped
  rwa [happens_db h]

theorem halted_stable (t : Tid) (id : Nat) : O.Stable cond t (Halted id) := by
  intro w w' hothers h
  cases hothers with
  | run _ _ _ _ hperf => exact halted_performs hperf h
  | env _ _ _ hhappens => exact halted_happens hhappens h

/-! ## The outline -/

/-- The task runs of a run are released or ended while it is where its service takes runs
from; and they, and then the run itself, are ended as skipped, because it is stopped. -/
def halts (lib : Library) : Outline (flowlite lib) where
  inv _ := True
  pre t o w :=
    match o with
    | .write (.updateTaskRuns f i) => ∀ id, f.jobRunId = some id → JobRunAt t id w ∧
        (i.status = some .waiting ∨ i.status = some .skipped ∧ Halted id w)
    | .write (.updateJobRuns f i) => Releases t → i.status ≠ some .invalid ∧
        (i.status = some .skipped → ∀ id, f.id = some id → Halted id w)
    | _ => True
  idle _ _ := True

theorem silent_not_write {o : Op} (h : Silent o) (q : Write) : o ≠ .write q := by
  rintro rfl
  exact h

theorem halts_pre {t : Tid} {o : Op} {w : World} (ho : ∀ q, o ≠ .write q) :
    (halts lib).pre t o w := by
  unfold halts
  dsimp only
  split
  · exact absurd rfl (ho _)
  · exact absurd rfl (ho _)
  · trivial

/-- Asking for a run's stop: where one is found, the run is halted. -/
theorem isJobRunStopped_halts {t : Tid} {P : World → Prop} (id : Nat) (hP : O.Stable cond t P)
    (hid : ∀ w, P w → id < w.db.jobRuns.next)
    (hlog : ∀ w o r, Silent o → P w → P { w with log := ⟨t, o, r⟩ :: w.log })
    (hpre : ∀ o w, Silent o → P w → O.pre t o w) :
    O.Triple cond t P (isJobRunStopped id) fun r w => P w ∧ (r = .ok true → Halted id w) := by
  refine Triple.bind (Triple.selectJobRunStop hP (fun w r h => hlog w _ r trivial h)
    fun w h => hpre _ w trivial h) (fun stop => Triple.ret fun w _ h => ⟨h.1, fun htrue => ?_⟩)
    fun e w _ h => ⟨h.1, nofun⟩
  cases stop with
  | none => cases htrue
  | some stop => exact ⟨hid w h.1, .inl (h.2 stop rfl)⟩

section Services

variable {s : Service}

/-- What a service does short of a write leaves the run in hand where it is. -/
theorem jobRunAt_reads (hj : cond.Le (jobRuns lib).established) {α : Type} {t : Tid} {id : Nat}
    {p : Code α} (hp : p.Uses fun o : Op => ∀ q, o ≠ .write q) :
    (halts lib).Triple cond t (JobRunAt t id) p fun _ => JobRunAt t id := by
  refine Triple.of_uses (jobRunAt_stays hj t id) (hp.mono fun o ho w r w' _ hat hperf =>
    ⟨halts_pre ho, fun _ => ?_⟩)
  unfold JobRunAt
  rw [db_of_not_write hperf ho]
  exact hat

/-- Skipping a run that is halted. -/
theorem halts_skips (hj : cond.Le (jobRuns lib).established) (t : Tid) (id : Nat) :
    (halts lib).Triple cond t (fun w => JobRunAt t id w ∧ Halted id w) (skipJobRun id)
      fun _ _ => True := by
  have hstable : (halts lib).Stable cond t fun w => JobRunAt t id w ∧ Halted id w :=
    (jobRunAt_stays hj t id).and (halted_stable t id)
  refine Triple.seq (Triple.silent now_silent hstable (fun _ _ _ _ h => h)
    fun o w ho _ => halts_pre (silent_not_write ho)) fun now => ?_
  refine Triple.seq (R := fun _ => Halted id) (Triple.perform hstable
    (fun w _ _ _ h _ id' hid => ?_) fun w r w' _ h hperf _ => halted_performs hperf h.2)
    fun _ => Triple.perform (halted_stable t id) (fun w _ _ _ h _ _ => ⟨nofun, fun _ id' hid => ?_⟩)
      fun _ _ _ _ _ _ _ => trivial
  · cases hid
    exact ⟨h.1, .inr ⟨rfl, h.2⟩⟩
  · cases hid
    exact h

/-- What the releaser makes of a scheduled run, and why. -/
theorem halts_releaser (hj : cond.Le (jobRuns lib).established) (x : JobRun) :
    (halts lib).Triple cond (.service .jobRunReleaser) (JobRunAt (.service .jobRunReleaser) x.id)
      (JobRunReleaser.handleScheduledJobRun x) fun _ _ => True := by
  have hat : (halts lib).Stable cond (.service .jobRunReleaser)
      (JobRunAt (.service .jobRunReleaser) x.id) := jobRunAt_stays hj _ x.id
  have hderive : (halts lib).Triple cond (.service .jobRunReleaser)
      (JobRunAt (.service .jobRunReleaser) x.id) (JobRunReleaser.deriveNextStatus x) fun r w =>
        JobRunAt (.service .jobRunReleaser) x.id w ∧ ∀ status, r = .ok status →
          status = .queued ∨ status = .scheduled ∨ status = .skipped ∧ Halted x.id w := by
    refine Triple.bind (isJobRunStopped_halts x.id hat (fun w h => h.1) (fun _ _ _ _ h => h)
      fun o w ho _ => halts_pre (silent_not_write ho)) (fun isStopped => ?_)
      fun e w _ h => ⟨h.1, nofun⟩
    refine Triple.bind (Triple.silent now_silent
      (hat.and (Stable.imp_const fun _ => halted_stable _ x.id)) (fun _ _ _ _ h => h)
      fun o w ho _ => halts_pre (silent_not_write ho))
      (fun now => Triple.ret fun w _ h => ⟨h.1, ?_⟩) fun e w _ h => ⟨h.1, nofun⟩
    intro status hs
    cases hs
    cases isStopped with
    | true => exact .inr (.inr ⟨rfl, h.2 rfl⟩)
    | false =>
        split
        · cases ‹false = true›
        · exact .inl rfl
        · exact .inr (.inl rfl)
  refine Triple.seq hderive fun status => ?_
  refine Triple.of_fact (F := status = .queued ∨ status = .scheduled ∨ status = .skipped)
    (fun w _ h => (h.2 status rfl).imp_right (Or.imp_right And.left)) fun hstatus => ?_
  rcases hstatus with rfl | rfl | rfl
  · refine Triple.pre ?_ fun _ _ h => h.1
    exact Triple.perform hat (fun _ _ _ _ _ _ _ => ⟨nofun, nofun⟩) fun _ _ _ _ _ _ _ => trivial
  · exact Triple.ret fun _ _ _ => trivial
  · refine (halts_skips hj _ x.id).pre fun w _ h => ⟨h.1, ?_⟩
    rcases h.2 _ rfl with heq | heq | ⟨-, hhalted⟩
    · cases heq
    · cases heq
    · exact hhalted

/-- What the dispatcher makes of a queued run, and why. -/
theorem halts_dispatcher (hj : cond.Le (jobRuns lib).established) (config : Config) (x : JobRun) :
    (halts lib).Triple cond (.service .jobRunDispatcher)
      (JobRunAt (.service .jobRunDispatcher) x.id)
      (JobRunDispatcher.handleQueuedJobRun config x) fun _ _ => True := by
  have hat : (halts lib).Stable cond (.service .jobRunDispatcher)
      (JobRunAt (.service .jobRunDispatcher) x.id) := jobRunAt_stays hj _ x.id
  have hderive : (halts lib).Triple cond (.service .jobRunDispatcher)
      (JobRunAt (.service .jobRunDispatcher) x.id)
      (JobRunDispatcher.deriveNextStatus config x) fun r w =>
        JobRunAt (.service .jobRunDispatcher) x.id w ∧ ∀ status, r = .ok status →
          status = .queued ∨ status = .running ∨ status = .skipped ∧ Halted x.id w := by
    refine Triple.bind (isJobRunStopped_halts x.id hat (fun w h => h.1) (fun _ _ _ _ h => h)
      fun o w ho _ => halts_pre (silent_not_write ho)) (fun isStopped => ?_)
      fun e w _ h => ⟨h.1, nofun⟩
    cases isStopped with
    | true =>
        refine Triple.ret fun w _ h => ⟨h.1, fun status hs => ?_⟩
        cases hs
        exact .inr (.inr ⟨rfl, h.2 rfl⟩)
    | false =>
        refine Triple.bind ((jobRunAt_reads hj ((isJobAtMaxParallelRuns_silent config x.jobId).mono
          fun _ => silent_not_write)).pre fun _ _ h => h.1) (fun isAtMax => ?_)
          fun e w _ h => ⟨h, nofun⟩
        refine Triple.ret fun w _ h => ⟨h, fun status hs => ?_⟩
        cases hs
        cases isAtMax
        · exact .inr (.inl rfl)
        · exact .inl rfl
  refine Triple.seq hderive fun status => ?_
  refine Triple.of_fact (F := status = .queued ∨ status = .running ∨ status = .skipped)
    (fun w _ h => (h.2 status rfl).imp_right (Or.imp_right And.left)) fun hstatus => ?_
  rcases hstatus with rfl | rfl | rfl
  · exact Triple.ret fun _ _ _ => trivial
  · refine Triple.pre ?_ fun _ _ h => h.1
    refine Triple.seq (jobRunAt_reads hj (createJobRunDir_uses (fun _ => silent_not_write)
      (fun _ _ => nofun) _ _)) fun dir => ?_
    refine Triple.seq (R := fun _ _ => True) (Triple.perform hat (fun w _ _ _ h _ id hid => ?_)
      fun _ _ _ _ _ _ _ => trivial) fun _ => ?_
    · cases hid
      exact ⟨h, .inl rfl⟩
    · refine Triple.seq (Triple.silent now_silent (stable_true _) (fun _ _ _ _ _ => trivial)
        fun o w ho _ => halts_pre (silent_not_write ho)) fun now => ?_
      exact Triple.perform (stable_true _) (fun _ _ _ _ _ _ _ => ⟨nofun, nofun⟩)
        fun _ _ _ _ _ _ _ => trivial
  · refine (halts_skips hj _ x.id).pre fun w _ h => ⟨h.1, ?_⟩
    rcases h.2 _ rfl with heq | heq | ⟨-, hhalted⟩
    · cases heq
    · cases heq
    · exact hhalted

/-- A pass over runs selected where their service takes runs from. -/
theorem halts_pass (hb : cond.Le (base lib).established)
    (hj : cond.Le (jobRuns lib).established) {q : SelectJobRuns} {handle : JobRun → Code Unit}
    (hq : ∀ db x, q.filter.holds db x = true → JobRunFrom (.service s) x.status)
    (hhandles : ∀ x, (handle x).Uses (Handles (.service s) (.jobRun x.id)))
    (hhandle : ∀ x, (halts lib).Triple cond (.service s) (JobRunAt (.service s) x.id)
      (handle x) fun _ _ => True) :
    (halts lib).Triple cond (.service s) (fun _ => True)
      (Poller.pass ⟨JobRun, selectJobRuns q, handle⟩) fun _ _ => True := by
  refine Poller.pass_triple (K := fun x : JobRun => JobRunAt (.service s) x.id)
    (R := fun x y : JobRun => x.id ≠ y.id) ?_ (fun x => jobRunAt_stays hj _ x.id)
    (fun x => (hhandle x).pre fun _ _ h => h.2) fun x y hxy => ?_
  · refine Triple.selectJobRuns (stable_true _) (fun _ _ _ => trivial) (fun _ _ => trivial)
      fun w _ x _ _ hfind hholds => ⟨Table.lt_next_of_find hfind, fun y hy => ?_⟩
    cases hfind.symm.trans hy
    exact hq w.db x hholds
  · exact (jobRunAt_frame hb hxy (hhandles x)).mono fun o ho w r w' _ _ _ hperf hy =>
      ho w r w' trivial trivial (hj.1 _ _ _ _ _ hperf.2).2.1 hperf hy

end Services

theorem halts_valid (hb : cond.Le (base lib).established)
    (hj : cond.Le (jobRuns lib).established) : (halts lib).Valid cond where
  init _ _ := ⟨trivial, fun _ => trivial⟩
  step _ _ _ _ _ _ _ _ := trivial
  env _ _ _ _ _ := ⟨trivial, fun _ _ => trivial⟩
  idle t := stable_true t
  start := by
    -- nobody else writes task runs by their job run
    have hothers : ∀ {t : Tid}, ¬ Releases t → ∀ p : Code Unit,
        (halts lib).Triple cond t (fun _ => True) p fun _ _ => True := by
      intro t ht p
      refine Triple.of_pre fun o w r w' _ hperf => ?_
      have hallowed := allowed_of hb hperf
      unfold halts
      dsimp only
      split
      · intro id hid
        cases hallowed with
        | endTaskRuns hreleases => exact absurd hreleases ht
        | releaseTaskRuns => exact absurd (.inr rfl) ht
        | dropTaskRun | startTaskRun | settleTaskRun => cases hid
      · exact fun hreleases => absurd hreleases ht
      · trivial
    refine start_triple (fun config fuel s => ?_) fun c r => ?_
    · refine Triple.pre ?_ fun _ _ _ => trivial
      cases s with
      | jobRunReleaser =>
          exact halts_pass hb hj (fun _ _ h => .inl (selectJobRuns_status h))
            jobRunReleaser_handles (halts_releaser hj)
      | jobRunDispatcher =>
          exact halts_pass hb hj (fun _ _ h => selectJobRuns_status h)
            (jobRunDispatcher_handles config) (halts_dispatcher hj config)
      | _ => exact hothers (by rintro (h | h) <;> cases h) _
    · exact (hothers (by rintro (h | h) <;> cases h) _).pre fun _ _ _ => trivial

end Flowlite

import Flowlite.Logic.Rules

/-!
# Where the status of an attempt goes

`TaskRunAttemptDispatcher` takes an attempt out of Queued; `TaskRunAttemptMonitor`
takes it out of Running, and so does the recovery, while the monitor is not up.
All of them write by id on the word of a row selected before, and `attempts` is the
outline that says the row is still there.
-/

namespace Flowlite

open Store Host Threads Crud Machine Outline

variable {lib : Library} {cond : (flowlite lib).Condition} {O : Outline (flowlite lib)}

/-- The status a thread's writes of a status find an attempt in. -/
def AttemptFrom : Tid → TaskRunAttemptStatus → Prop
  | .service .taskRunAttemptDispatcher, status => status = .queued
  | .service .taskRunAttemptMonitor, status => status = .running
  | .service .recovery, status => status = .running
  | _, _ => False

/-- Every write of a status lands where its thread alone takes attempts from. -/
def attempts (lib : Library) : Outline (flowlite lib) where
  inv _ := True
  pre t o w := ∀ f i, o = .write (.updateTaskRunAttempts f i) → i.status.isSome = true →
    ∀ id x, w.db.taskRunAttempts.find id = some x → f.holds x = true → AttemptFrom t x.status
  idle _ _ := True

/-- The attempt with this id is where `t` takes attempts from, as long as it is there. -/
def AttemptAt (t : Tid) (id : Nat) (w : World) : Prop :=
  Running t w ∧ id < w.db.taskRunAttempts.next ∧
    ∀ x, w.db.taskRunAttempts.find id = some x → AttemptFrom t x.status

/-- While both run, no two threads take attempts from the same status. -/
theorem attemptFrom_unique {t u : Tid} {w : World} {status : TaskRunAttemptStatus}
    (ht : AttemptFrom t status) (hu : AttemptFrom u status) (htw : Running t w)
    (huw : Running u w) : t = u := by
  have hnot : ∀ {w : World}, Running (.service .recovery) w →
      ¬ Running (.service .taskRunAttemptMonitor) w := by
    rintro w ⟨config, hstarting⟩ ⟨config', hup⟩
    rw [hstarting] at hup
    cases hup
  unfold AttemptFrom at ht hu
  split at ht <;> split at hu <;> first
    | rfl
    | exact ht.elim
    | exact hu.elim
    | exact absurd htw (hnot huw)
    | exact absurd huw (hnot htw)
    | (subst ht; cases hu)

section Steps

variable {t : Tid} {o : Op} {w w' : World} {r : Result o}

/-- A step leaves an attempt where it is, unless it writes its status. -/
theorem attemptStatus_performs (h : Performs cond t o w r w') {id : Nat}
    (hid : id < w.db.taskRunAttempts.next) {x' : TaskRunAttempt}
    (hx' : w'.db.taskRunAttempts.find id = some x') :
    ∃ x, w.db.taskRunAttempts.find id = some x ∧ (x'.status = x.status ∨
      ∃ f i, o = .write (.updateTaskRunAttempts f i) ∧ Succeeded r ∧ f.holds x = true ∧
        i.status = some x'.status) := by
  rcases taskRunAttempt_origin h hx' with hx | ⟨i, now, -, -, rfl, -⟩ |
    ⟨x, hx, f, i, rfl, hok, hf, rfl⟩
  · exact ⟨x', hx, .inl rfl⟩
  · exact absurd hid (lt_irrefl _)
  · refine ⟨x, hx, ?_⟩
    cases hset : i.status with
    | none => exact .inl (by simp [UpdateTaskRunAttemptsInput.patch, hset])
    | some status =>
        exact .inr ⟨f, i, rfl, hok, hf, by simp [UpdateTaskRunAttemptsInput.patch, hset]⟩

theorem attemptAt_other (hb : cond.Le (base lib).established) {u : Tid} (hu : u ≠ t)
    (hpre : (attempts lib).pre u o w) (h : Performs cond u o w r w') {id : Nat}
    (hat : AttemptAt t id w) : AttemptAt t id w' := by
  obtain ⟨hrunning, hid, hfrom⟩ := hat
  refine ⟨running_other hu (allowed_of hb h) h hrunning,
    lt_of_lt_of_le hid (taskRunAttempts_next_le h), fun x' hx' => ?_⟩
  obtain ⟨x, hx, heq | ⟨f, i, rfl, -, hf, hset⟩⟩ := attemptStatus_performs h hid hx'
  · rw [heq]
    exact hfrom x hx
  · have hto := hpre f i rfl (by rw [hset]; rfl) id x hx hf
    exact absurd (attemptFrom_unique hto (hfrom x hx) (running_of hb h) hrunning) hu

end Steps

/-- What the outline asks of each operation is met in the runs `O` is about. -/
def MeetsAttempts (O : Outline (flowlite lib)) (cond : (flowlite lib).Condition) : Prop :=
  ∀ t o w r w', O.pre t o w → Performs cond t o w r w' → (attempts lib).pre t o w

theorem meetsAttempts (ha : cond.Le (attempts lib).established) : MeetsAttempts O cond :=
  fun _ _ _ _ _ _ hperf => (ha.1 _ _ _ _ _ hperf.2).2.1

theorem attempts_meets : MeetsAttempts (attempts lib) cond :=
  fun _ _ _ _ _ hpre _ => hpre

theorem attemptAt_stable (hb : cond.Le (base lib).established) (ha : MeetsAttempts O cond)
    (t : Tid) (id : Nat) : O.Stable cond t (AttemptAt t id) := by
  intro w w' hothers hat
  cases hothers with
  | run hu _ _ hpre hperf => exact attemptAt_other hb hu (ha _ _ _ _ _ hpre hperf) hperf hat
  | env hkill _ _ hhappens =>
      refine ⟨running_happens hkill hhappens hat.1, ?_⟩
      rw [happens_db hhappens]
      exact hat.2

/-- What writes no status leaves its thread's attempts where they are. -/
def KeepsStatus : Op → Prop
  | .write (.updateTaskRunAttempts _ i) => i.status = none
  | .write (.insertTaskRunAttempt _) | .write (.deleteJobRunsWithChildren _) | .startServices =>
      False
  | _ => True

theorem keepsStatus_pre {t : Tid} {o : Op} (ho : KeepsStatus o) (w : World) :
    (attempts lib).pre t o w := by
  rintro f i rfl hset
  rw [show i.status = none from ho] at hset
  cases hset

theorem KeepsStatus.of_attends {a : TaskRunAttempt} {o : Op} (h : Attends a o) :
    KeepsStatus o := by
  obtain ⟨⟨hallowed, -⟩, hkeeps⟩ := h
  cases o with
  | write q =>
      cases q <;> first
        | trivial
        | exact absurd trivial hkeeps
  | startServices => cases hallowed
  | _ => trivial

theorem Silent.keepsStatus {o : Op} (h : Silent o) : KeepsStatus o := by
  cases o <;> trivial

theorem attemptAt_keeps {t : Tid} {o : Op} (ho : KeepsStatus o) {w w' : World} {r : Result o}
    {id : Nat} (hw : AttemptAt t id w) (h : Performs cond t o w r w') :
    (attempts lib).pre t o w ∧ AttemptAt t id w' := by
  refine ⟨keepsStatus_pre ho w, running_kept h hw.1 (by rintro rfl; exact ho),
    lt_of_lt_of_le hw.2.1 (taskRunAttempts_next_le h), fun x' hx' => ?_⟩
  obtain ⟨x, hx, heq | ⟨f, i, rfl, -, -, hset⟩⟩ := attemptStatus_performs h hw.2.1 hx'
  · rw [heq]
    exact hw.2.2 x hx
  · rw [show i.status = none from ho] at hset
    cases hset

theorem attemptAt_uses (hb : cond.Le (base lib).established) {α : Type} {t : Tid} {id : Nat}
    {p : Code α} (hp : p.Uses KeepsStatus) :
    (attempts lib).Triple cond t (AttemptAt t id) p fun _ => AttemptAt t id :=
  Triple.of_uses (attemptAt_stable hb attempts_meets t id) (hp.mono fun _ ho _ _ _ _ hw hperf =>
    have h := attemptAt_keeps ho hw hperf
    ⟨h.1, fun _ => h.2⟩)

theorem attemptAt_update (hb : cond.Le (base lib).established) {t : Tid} {id : Nat}
    (i : UpdateTaskRunAttemptsInput) :
    (attempts lib).Triple cond t (AttemptAt t id) (updateTaskRunAttempts { id := some id } i)
      fun _ _ => True := by
  refine Triple.perform (attemptAt_stable hb attempts_meets t id) ?_ fun _ _ _ _ _ _ _ => trivial
  rintro w r w' - ⟨-, -, hfrom⟩ - f j heq - id' x hx hf
  cases heq
  have hxid : x.id = id := updateTaskRunAttemptsFilter_holds rfl hf
  have hkey : x.id = id' := Table.key_of_find hx
  exact hfrom x (by rw [← hxid, hkey]; exact hx)

/-! ## The row that was selected -/

/-- Whatever becomes of the attempt, its row is still this one. -/
def Known (a : TaskRunAttempt) (w : World) : Prop :=
  a.id < w.db.taskRunAttempts.next ∧
    ∀ x, w.db.taskRunAttempts.find a.id = some x → TaskRunAttempt.Same a x

theorem known_of_find {a : TaskRunAttempt} {w : World}
    (h : w.db.taskRunAttempts.find a.id = some a) : Known a w :=
  ⟨Table.lt_next_of_find h, fun x hx => by rw [h] at hx; cases hx; rfl⟩

theorem known_performs {t : Tid} {o : Op} {w w' : World} {r : Result o} {a : TaskRunAttempt}
    (h : Performs cond t o w r w') (ha : Known a w) : Known a w' := by
  refine ⟨lt_of_lt_of_le ha.1 (taskRunAttempts_next_le h), fun x' hx' => ?_⟩
  rcases taskRunAttempt_origin h hx' with hx | ⟨i, now, -, -, hid, -⟩ | ⟨x, hx, f, i, -, -, -, rfl⟩
  · exact ha.2 x' hx
  · exact absurd ha.1 (by omega)
  · have hsame : x = _ := ha.2 x hx
    rw [hsame]
    rfl

theorem known_permanent (a : TaskRunAttempt) : Permanent cond (Known a) where
  performs h ha := known_performs h ha
  happens h ha := by
    unfold Known
    rwa [happens_db h]

theorem known_stable (t : Tid) (a : TaskRunAttempt) : O.Stable cond t (Known a) :=
  (known_permanent a).stable t

/-! ## The three that end or start attempts -/

theorem attempts_dispatcher (hb : cond.Le (base lib).established) (config : Config)
    (a : TaskRunAttempt) :
    (attempts lib).Triple cond (.service .taskRunAttemptDispatcher)
      (AttemptAt (.service .taskRunAttemptDispatcher) a.id)
      (TaskRunAttemptDispatcher.handleQueuedTaskRunAttempt lib config a) fun _ _ => True :=
  TaskRunAttemptDispatcher.handle_walk
    (Triple.walk (U := KeepsStatus) (attemptAt_stable hb attempts_meets _ a.id)
      (fun _ ho _ _ _ _ hw hperf =>
        have h := attemptAt_keeps ho hw hperf
        ⟨h.1, fun _ => h.2⟩) fun _ _ _ => trivial)
    (fun _ h => h.keepsStatus) (fun _ _ => trivial) lib config a (fun _ => rfl)
    (fun _ _ => trivial) (fun _ _ => trivial) (fun _ _ _ => attemptAt_update hb _)
    fun _ => attemptAt_update hb _

theorem attempts_finish (hb : cond.Le (base lib).established) {t : Tid} (a : TaskRunAttempt)
    (status : TaskRunAttemptStatus) (output : Option String) :
    (attempts lib).Triple cond t (AttemptAt t a.id)
      (TaskRunAttemptMonitor.finishTaskRunAttempt a status output) fun _ _ => True := by
  refine Triple.seq (attemptAt_uses hb ?_) fun _ =>
    Triple.seq (attemptAt_uses hb (now_silent.mono fun _ h => h.keepsStatus)) fun now =>
    attemptAt_update hb _
  unfold TaskRunAttemptMonitor.stopUnlessSucceeded
  split
  · trivial
  · exact stopChildJobRuns_uses (fun _ h => h.keepsStatus) (fun _ => trivial) a

theorem attempts_monitor (hb : cond.Le (base lib).established) (config : Config)
    (a : TaskRunAttempt) :
    (attempts lib).Triple cond TaskRunAttemptMonitor.thread
      (AttemptAt TaskRunAttemptMonitor.thread a.id)
      (TaskRunAttemptMonitor.handleRunningTaskRunAttempt config a) fun _ _ => True :=
  attends_triple hb (attemptAt_stable hb attempts_meets _ a.id)
    (fun _ ho _ _ _ _ hw hperf =>
      have h := attemptAt_keeps (.of_attends ho) hw hperf
      ⟨h.1, fun _ => h.2⟩)
    (fun _ _ _ => trivial) (fun status output _ _ => attempts_finish hb a status output) config

theorem attempts_recover (hb : cond.Le (base lib).established) (boot : Option Instant)
    (a : TaskRunAttempt) {t : Tid} :
    (attempts lib).Triple cond t (AttemptAt t a.id) (Recovery.recoverTaskRunAttempt boot a)
      fun _ _ => True := by
  refine Triple.seq (attemptAt_uses hb ?_) fun _ => Triple.seq (attemptAt_uses hb
      (stopChildJobRuns_uses (fun _ h => h.keepsStatus) (fun _ => trivial) a)) fun _ =>
    Triple.seq (attemptAt_uses hb (now_silent.mono fun _ h => h.keepsStatus)) fun now =>
    attemptAt_update hb _
  unfold Recovery.killOrphanProcessGroup
  split
  · split
    · trivial
    · exact (Prog.uses_perform _).mpr trivial
  · trivial

/-! ## The outline holds -/

/-- Handling one attempt leaves every other attempt where it is. -/
theorem attemptAt_frame {t : Tid} {id id' : Nat} (hne : id ≠ id') {o : Op}
    (ho : On (.taskRunAttempt id) o) (hstart : o ≠ .startServices) {w w' : World} {r : Result o}
    (h : Performs cond t o w r w') (hat : AttemptAt t id' w) : AttemptAt t id' w' := by
  refine ⟨running_kept h hat.1 hstart, lt_of_lt_of_le hat.2.1 (taskRunAttempts_next_le h),
    fun x' hx' => ?_⟩
  obtain ⟨x, hx, heq | ⟨f, i, rfl, -, hf, -⟩⟩ := attemptStatus_performs h hat.2.1 hx'
  · rw [heq]
    exact hat.2.2 x hx
  · exact absurd ((updateTaskRunAttemptsFilter_holds ho hf).symm.trans (Table.key_of_find hx)) hne

/-- The attempts a thread selects are where it takes attempts from. -/
theorem attemptAt_select (hb : cond.Le (base lib).established) {t : Tid} {P : World → Prop}
    {status : TaskRunAttemptStatus} (hfrom : AttemptFrom t status)
    (s : Option SelectTaskRunAttemptsSort) (hP : O.Stable cond t P)
    (hlog : ∀ w o r, Silent o → P w → P { w with log := ⟨t, o, r⟩ :: w.log })
    (hpre : ∀ o w, Silent o → P w → O.pre t o w) :
    O.Triple cond t (fun w => P w ∧ Running t w)
      (selectTaskRunAttempts { status := some status } s) fun r w => (P w ∧ Running t w) ∧
        ∀ rows, r = .ok rows → rows.Pairwise (fun x y => x.id ≠ y.id) ∧
          ∀ x ∈ rows, AttemptAt t x.id w ∧ Known x w := by
  refine Triple.selectTaskRunAttempts (hP.and (Running.stable hb t))
    (fun w r h => ⟨hlog w (.select _) r trivial h.1, running_log.mpr h.2⟩)
    (fun w h => hpre _ w trivial h.1) fun w r x _ hw hfind hholds => ?_
  refine ⟨⟨running_log.mpr hw.2, Table.lt_next_of_find (t := w.db.taskRunAttempts) hfind,
    fun y hy => ?_⟩, known_of_find (w := w) hfind⟩
  cases hfind.symm.trans hy
  have hstatus : x.status = status := by
    simpa [SelectTaskRunAttemptsFilter.holds] using hholds
  rwa [hstatus]

/-- One pass over the attempts a thread takes: it keeps `P`, and handles each attempt
where it takes attempts from. -/
theorem attemptAt_pass (hb : cond.Le (base lib).established) (ha : MeetsAttempts O cond)
    {t : Tid} {P : World → Prop} {status : TaskRunAttemptStatus}
    {handle : TaskRunAttempt → Code Unit} (hfrom : AttemptFrom t status)
    (hP : O.Stable cond t P)
    (hlog : ∀ w o r, Silent o → P w → P { w with log := ⟨t, o, r⟩ :: w.log })
    (hpre : ∀ o w, Silent o → P w → O.pre t o w)
    (hhandle : ∀ x, O.Triple cond t (fun w => P w ∧ AttemptAt t x.id w ∧ Known x w) (handle x)
      fun _ => P)
    (hon : ∀ x, (handle x).Uses fun o : Op => On (.taskRunAttempt x.id) o ∧ o ≠ .startServices) :
    O.Triple cond t (fun w => P w ∧ Running t w)
      (Poller.pass ⟨TaskRunAttempt, selectTaskRunAttempts { status := some status } (some .id),
        handle⟩) fun _ => P :=
  Poller.pass_triple (K := fun (x : TaskRunAttempt) w => AttemptAt t x.id w ∧ Known x w)
    (R := fun x y : TaskRunAttempt => x.id ≠ y.id)
    ((attemptAt_select hb hfrom _ hP hlog hpre).post fun _ _ _ h => ⟨h.1.1, h.2⟩)
    (fun x => (attemptAt_stable hb ha _ x.id).and (known_stable t x)) hhandle
    fun x _ hxy => (hon x).mono fun _ ho _ _ _ _ _ _ hperf hat =>
      ⟨attemptAt_frame hxy ho.1 ho.2 hperf hat.1, known_performs hperf hat.2⟩

theorem attempts_recovery (hb : cond.Le (base lib).established) :
    (attempts lib).Triple cond (.service .recovery) (Running (.service .recovery))
      Recovery.recoverThenStart fun _ _ => True := by
  have hstable : (attempts lib).Stable cond (.service .recovery)
      (Running (.service .recovery)) := Running.stable hb _
  refine Triple.seq (R := fun _ => Running (.service .recovery)) ?_ fun boot => ?_
  · exact Triple.perform hstable (fun w _ _ _ _ _ => keepsStatus_pre (by trivial) w)
      fun w r w' _ hw hperf _ => running_kept hperf hw nofun
  refine Triple.seq (R := fun _ _ => True) ?_ fun _ => Triple.perform (stable_true _)
    (fun w r w' _ _ _ f i heq => by cases heq) fun _ _ _ _ _ _ _ => trivial
  refine Triple.seq ((attemptAt_select (P := fun _ => True) hb (by exact rfl) (some .id)
    (stable_true _) (fun _ _ _ _ h => h) fun _ w ho _ => keepsStatus_pre ho.keepsStatus w).pre
    fun _ _ h => ⟨trivial, h⟩) fun rows => ?_
  refine Triple.of_fact (fun w _ h => (h.2 rows rfl).1) fun hrows => ?_
  refine (Triple.rows (P := fun _ => True)
    (K := fun x : TaskRunAttempt => AttemptAt (.service .recovery) x.id)
    (R := fun x y => x.id ≠ y.id) (fun x => attemptAt_stable hb attempts_meets _ x.id)
    (fun x => (attempts_recover hb boot x).pre fun _ _ h => h.2) (fun x y hxy => ?_) hrows).pre
    fun w _ h => ⟨trivial, fun x hx => ((h.2 rows rfl).2 x hx).1⟩
  exact (recoverTaskRunAttempt_handles boot x).mono fun o ho w r w' _ _ _ hperf hat =>
    attemptAt_frame hxy ho.1.2 ho.2 hperf hat

theorem attempts_valid (hb : cond.Le (base lib).established) : (attempts lib).Valid cond where
  init _ _ := ⟨trivial, fun _ => trivial⟩
  step _ _ _ _ _ _ _ _ := trivial
  env _ _ _ _ _ := ⟨trivial, fun _ _ => trivial⟩
  idle t := stable_true t
  start := by
    -- nobody else writes the status of an attempt
    have hothers : ∀ {t : Tid} {P : World → Prop}, t ≠ .service .recovery →
        t ≠ .service .taskRunAttemptDispatcher → t ≠ .service .taskRunAttemptMonitor →
        ∀ p : Code Unit, (attempts lib).Triple cond t P p fun _ _ => True := by
      intro t P hrecovery hdispatcher hmonitor p
      refine Triple.of_pre fun o w r w' _ hperf f i heq hset => ?_
      subst heq
      cases allowed_of hb hperf with
      | dropAttempt => exact absurd rfl hdispatcher
      | markStarted => exact absurd rfl hdispatcher
      | startAttempt => exact absurd rfl hdispatcher
      | settleAttempt => exact absurd rfl hmonitor
      | recoverAttempt => exact absurd rfl hrecovery
      | wait => cases hset
    have hpass : ∀ {s : Service} {status : TaskRunAttemptStatus}
        {handle : TaskRunAttempt → Code Unit}, AttemptFrom (.service s) status →
        (∀ x, (attempts lib).Triple cond (.service s) (AttemptAt (.service s) x.id) (handle x)
          fun _ _ => True) →
        (∀ x, (handle x).Uses fun o : Op => On (.taskRunAttempt x.id) o ∧ o ≠ .startServices) →
        (attempts lib).Triple cond (.service s) (fun w => True ∧ Running (.service s) w)
          (Poller.pass ⟨TaskRunAttempt,
            selectTaskRunAttempts { status := some status } (some .id), handle⟩)
          fun _ _ => True :=
      fun hfrom hhandle hon => attemptAt_pass hb attempts_meets hfrom (stable_true _)
        (fun _ _ _ _ h => h) (fun _ w ho _ => keepsStatus_pre ho.keepsStatus w)
        (fun x => (hhandle x).pre fun _ _ h => h.2.1) hon
    refine start_triple (fun config fuel s => ?_)
      fun c r => hothers (by nofun) (by nofun) (by nofun) _
    cases s with
    | recovery => exact (attempts_recovery hb).pre fun _ _ h => h.2
    | taskRunAttemptDispatcher =>
        refine hpass (by exact rfl) (attempts_dispatcher hb config) fun x =>
          (TaskRunAttemptDispatcher.handles lib config x).mono fun o ho => ⟨ho.2, ?_⟩
        rintro rfl
        cases ho.1
    | taskRunAttemptMonitor =>
        exact hpass (by exact rfl) (attempts_monitor hb config)
          (TaskRunAttemptMonitor.handle_on config)
    | _ => exact hothers (by nofun) (by nofun) (by nofun) _

end Flowlite

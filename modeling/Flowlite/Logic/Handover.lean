import Flowlite.Logic.Retries
import Flowlite.Logic.SameJob
import Flowlite.Logic.SpawnEnvironment

/-!
# What a task run is handed

A task run starts when each of its dependencies has succeeded, and a task run succeeds by
an attempt that did. That attempt stays as it is for as long as the run is there, so what
its dependents read of it when they are spawned is what it is told by ever after.
`handover` is the outline that says so, down to the variables of each spawn in the log.
-/

namespace Flowlite

open Store Host Threads Crud Machine Outline

variable {lib : Library} {cond : (flowlite lib).Condition} {O : Outline (flowlite lib)}

/-- What holds of every run of the system, as far as it is about task runs and attempts. -/
structure Grounded (cond : (flowlite lib).Condition) : Prop where
  base : cond.Le (base lib).established
  attempts : cond.Le (attempts lib).established
  releases : cond.Le (releases lib).established
  retries : cond.Le (retries lib).established
  sameJob : cond.Le (sameJob lib).established

/-! ## The attempt a result comes from -/

/-- `b` is an attempt of the task, in the run of `x`, that succeeded. -/
structure Delivers (db : Database) (x : TaskRun) (taskId : String) (b : TaskRunAttempt) : Prop where
  row : b ∈ db.taskRunAttempts.rows
  status : b.status = .succeeded
  of : ∃ y ∈ db.taskRuns.rows, y.id = b.taskRunId ∧ y.jobRunId = x.jobRunId ∧
    y.jobId = x.jobId ∧ y.taskId = taskId

/-- It is the same for every task run of the run. -/
theorem Delivers.elsewhere {db : Database} {x z : TaskRun} {taskId : String} {b : TaskRunAttempt}
    (h : Delivers db x taskId b) (hrun : x.jobRunId = z.jobRunId) (hjob : x.jobId = z.jobId) :
    Delivers db z taskId b := by
  obtain ⟨y, hy, hid, hyrun, hyjob, htask⟩ := h.of
  exact ⟨h.row, h.status, y, hy, hid, hyrun.trans hrun, hyjob.trans hjob, htask⟩

/-- It is named after the task, and after the run. -/
theorem Delivers.named {w : World} (hi : ReleasedFirst w) {x : TaskRun} {taskId : String}
    {b : TaskRunAttempt} (h : Delivers w.db x taskId b) :
    b.jobRunId = x.jobRunId ∧ b.taskId = taskId := by
  obtain ⟨y, hy, hid, hrun, -, htask⟩ := h.of
  obtain ⟨hbrun, -, hbtask⟩ := (hi.attempted b h.row).2 y hy hid
  exact ⟨hbrun.trans hrun, hbtask.trans htask⟩

/-- As long as the task run is there, its dependency has an attempt that succeeded, whose
number and result are as `P` says. -/
def Obtains (P : Nat → String → Prop) (x : TaskRun) (taskId : String) (w : World) : Prop :=
  TaskRunKnown x w ∧ ∀ y, w.db.taskRuns.find x.id = some y →
    ∃ b, Delivers w.db x taskId b ∧ P b.attempt b.output

/-- Each of its dependencies has one. -/
def Provided (x : TaskRun) (w : World) : Prop :=
  TaskRunKnown x w ∧ ∀ taskId ∈ x.dependsOn, Obtains (fun _ _ => True) x taskId w

/-- Each of the results there are is told by the number of its attempt. -/
def Handed (x : TaskRun) (dir : String) (inputs : BTreeMap String String) (w : World) : Prop :=
  ∀ taskId ∈ x.dependsOn, Obtains (fun attempt output => inputs.get taskId =
    if output = "" then none else some (taskOutputPath dir taskId attempt)) x taskId w

/-- How the command of an attempt came by its environment. -/
structure Equipped (lib : Library) (a : TaskRunAttempt) (x : TaskRun) (canonical : String)
    (env : BTreeMap String String) (w : World) : Prop where
  attempt : Known a w
  taskRun : TaskRunKnown x w ∧ x.id = a.taskRunId
  resolved : Resolved canonical w
  built : ∃ jobRun inputs previous dataDir secrets, jobRun.id = a.jobRunId ∧
    buildTaskRunAttemptEnv lib x jobRun a dataDir (runDirIn canonical a.jobRunId) inputs previous
      secrets = .ok env ∧
    ResultsOf x inputs ∧ Handed x (runDirIn canonical a.jobRunId) inputs w

/-! ## One step -/

section Steps

variable {t : Tid} {o : Op} {w w' : World} {r : Result o}

/-- What a write puts down beside a status, it puts down nowhere else. -/
theorem output_allowed {f : UpdateTaskRunAttemptsFilter} {i : UpdateTaskRunAttemptsInput}
    (h : Allowed t (.write (.updateTaskRunAttempts f i))) (hi : i.status = none) :
    i.output = none := by
  cases h <;> first | rfl | cases hi

/-- An attempt that has succeeded stays as it is. -/
theorem succeeded_stays (hg : Grounded cond) (h : Performs cond t o w r w')
    {b b' : TaskRunAttempt} (hrow : w.db.taskRunAttempts.find b.id = some b)
    (hrow' : w'.db.taskRunAttempts.find b.id = some b') (hstatus : b.status = .succeeded) :
    b'.status = .succeeded ∧ b'.attempt = b.attempt ∧ b'.output = b.output := by
  rcases taskRunAttempt_origin h hrow' with hx | ⟨i, now, -, -, hid, -⟩ |
    ⟨x, hx, f, i, rfl, -, hf, hnew⟩
  · cases hrow.symm.trans hx
    exact ⟨hstatus, rfl, rfl⟩
  · have hlt := Table.lt_next_of_find hrow
    omega
  · cases hrow.symm.trans hx
    cases hset : i.status with
    | none =>
        have houtput := output_allowed (allowed_of hg.base h) hset
        rw [hnew]
        refine ⟨?_, rfl, ?_⟩
        · simpa [UpdateTaskRunAttemptsInput.patch, hset] using hstatus
        · simp [UpdateTaskRunAttemptsInput.patch, houtput]
    | some status =>
        -- nobody takes an attempt from there
        have hfrom := (hg.attempts.1 _ _ _ _ _ h.2).2.1 f i rfl (by rw [hset]; rfl) b.id b hrow hf
        rw [hstatus] at hfrom
        unfold AttemptFrom at hfrom
        split at hfrom <;> cases hfrom

/-- It delivers as long as its run is there. -/
theorem delivers_kept (hg : Grounded cond) (h : Performs cond t o w r w') {x : TaskRun} {taskId : String} {b : TaskRunAttempt}
    (hd : Delivers w.db x taskId b) (hstays : ¬ Removes w o r x.jobRunId) :
    ∃ b', Delivers w'.db x taskId b' ∧ b'.attempt = b.attempt ∧ b'.output = b.output := by
  have hbrun := (hd.named (hg.releases.1 _ _ _ _ _ h.2).1).1
  obtain ⟨hrow, hstatus, y, hy, hid, hrun, hjob, htask⟩ := hd
  have hfind : w.db.taskRunAttempts.find b.id = some b := Table.find_of_mem hrow
  rcases taskRunAttempt_fate h hfind with hremoves | ⟨b', hb', hbsame⟩
  · exact absurd (hbrun ▸ hremoves) hstays
  rcases taskRun_fate h (Table.find_of_mem hy) with hremoves | ⟨y', hy', hysame⟩
  · exact absurd (hrun ▸ hremoves) hstays
  have hbsame : b' = _ := hbsame
  have hysame : y' = _ := hysame
  obtain ⟨hstatus', hattempt, houtput⟩ := succeeded_stays hg h hfind hb' hstatus
  refine ⟨b', ⟨Table.mem_of_find hb', hstatus', y', Table.mem_of_find hy', ?_⟩, hattempt, houtput⟩
  rw [hysame, hbsame]
  exact ⟨hid, hrun, hjob, htask⟩

/-- A task run that is there was there, and its run is not removed. -/
theorem taskRunKnown_before (h : Performs cond t o w r w') {x y' : TaskRun}
    (hx : TaskRunKnown x w) (hy' : w'.db.taskRuns.find x.id = some y') :
    (∃ y, w.db.taskRuns.find x.id = some y) ∧ ¬ Removes w o r x.jobRunId := by
  have hsame : y' = _ := (taskRunKnown_performs h hx).2 y' hy'
  refine ⟨?_, fun hremoves => (hremoves.gone h).2.1 y' (Table.mem_of_find hy') (by rw [hsame])⟩
  rcases taskRun_before h (Table.mem_of_find hy') with ⟨y, hrow, hsame'⟩ | ⟨-, -, hnew, -⟩
  · have hsame' : y' = _ := hsame'
    have hid : y.id = x.id := by rw [← Table.key_of_find hy', hsame']; rfl
    exact ⟨y, hid ▸ Table.find_of_mem hrow⟩
  · have hid : y'.id = x.id := Table.key_of_find hy'
    have hlt := hx.1
    omega

theorem obtains_permanent (hg : Grounded cond) (P : Nat → String → Prop) (x : TaskRun) (taskId : String) :
    Permanent cond (Obtains P x taskId) where
  performs h hx := by
    refine ⟨taskRunKnown_performs h hx.1, fun y' hy' => ?_⟩
    obtain ⟨⟨y, hy⟩, hstays⟩ := taskRunKnown_before h hx.1 hy'
    obtain ⟨b, hdelivers, hP⟩ := hx.2 y hy
    obtain ⟨b', hdelivers', hattempt, houtput⟩ := delivers_kept hg h hdelivers hstays
    exact ⟨b', hdelivers', by rw [hattempt, houtput]; exact hP⟩
  happens h hx := by
    unfold Obtains TaskRunKnown at hx ⊢
    rwa [happens_db h]

theorem provided_permanent (hg : Grounded cond) (x : TaskRun) : Permanent cond (Provided x) :=
  (taskRunKnown_permanent x).and (.all fun _ => .imp_const (obtains_permanent hg _ x _))

theorem handed_permanent (hg : Grounded cond) (x : TaskRun) (dir : String) (inputs : BTreeMap String String) :
    Permanent cond (Handed x dir inputs) :=
  .all fun _ => .imp_const (obtains_permanent hg _ x _)

theorem equipped_permanent (hg : Grounded cond) (a : TaskRunAttempt) (x : TaskRun) (canonical : String) (env : BTreeMap String String) :
    Permanent cond (Equipped lib a x canonical env) where
  performs h := fun ⟨hattempt, htaskRun, hresolved, jobRun, inputs, previous, dataDir, secrets,
      hid, hbuilt, hresults, hhanded⟩ =>
    ⟨known_performs h hattempt, ⟨taskRunKnown_performs h htaskRun.1, htaskRun.2⟩,
      (resolved_permanent canonical).performs h hresolved, jobRun, inputs, previous, dataDir, secrets,
      hid, hbuilt, hresults, (handed_permanent hg x _ inputs).performs h hhanded⟩
  happens h := fun ⟨hattempt, htaskRun, hresolved, jobRun, inputs, previous, dataDir, secrets,
      hid, hbuilt, hresults, hhanded⟩ =>
    ⟨(known_permanent a).happens h hattempt, ⟨taskRunKnown_happens h htaskRun.1, htaskRun.2⟩,
      (resolved_permanent canonical).happens h hresolved, jobRun, inputs, previous, dataDir, secrets,
      hid, hbuilt, hresults, (handed_permanent hg x _ inputs).happens h hhanded⟩

end Steps

/-! ## The outline -/

/-- What has been handed over so far. -/
structure HandsOver (lib : Library) (w : World) : Prop where
  succeeded : ∀ x ∈ w.db.taskRuns.rows, x.status = .succeeded →
    ∃ b, Delivers w.db x x.taskId b
  running : ∀ x ∈ w.db.taskRuns.rows, x.status = .running → Provided x w
  attempted : ∀ a ∈ w.db.taskRunAttempts.rows, ∀ x ∈ w.db.taskRuns.rows,
    x.id = a.taskRunId → Provided x w
  spawned : ∀ e ∈ w.log, ∀ id command at', e.op = .spawn id command at' →
    ∃ a x canonical, a.id = id ∧ Equipped lib a x canonical command.env w

/-- A task run starts with its dependencies and succeeds with an attempt, and a command is
spawned with what the attempts of its dependencies left. -/
def handover (lib : Library) : Outline (flowlite lib) where
  inv w := HandsOver lib w ∧ ReleasedFirst w ∧ (retries lib).inv w ∧ (sameJob lib).inv w
  pre _ o w :=
    match o with
    | .write (.updateTaskRuns f i) => ∀ x ∈ w.db.taskRuns.rows, f.holds x = true →
        (i.status = some .running → Provided x w) ∧
          (i.status = some .succeeded → ∃ b, Delivers w.db x x.taskId b)
    | .write (.insertTaskRunAttempt i) => ∃ x, x.id = i.taskRunId ∧ Provided x w
    | .spawn id command _ => ∃ a x canonical, a.id = id ∧ Equipped lib a x canonical command.env w
    | _ => True
  idle _ _ := True

theorem Silent.handover_pre {o : Op} (h : Silent o) (t : Tid) (w : World) :
    (handover lib).pre t o w := by
  cases o <;> trivial

/-- Code of which nothing has to be known. -/
theorem handover_uses {α : Type} {t : Tid} {P : World → Prop} {p : Code α}
    (hp : p.Uses fun o => ∀ w, (handover lib).pre t o w) :
    (handover lib).Triple cond t P p fun _ _ => True :=
  (Triple.permanent (.const True) (hp.mono fun _ ho w _ _ => ho w)).pre fun _ _ _ => trivial

section Steps

variable {t : Tid} {o : Op} {w w' : World} {r : Result o}

/-- What is known of a task run is known of its row. -/
theorem Obtains.row {P : Nat → String → Prop} {x y : TaskRun} {taskId : String}
    (h : Obtains P x taskId w) (hy : w.db.taskRuns.find x.id = some y) :
    Obtains P y taskId w := by
  have hsame : y = _ := h.1.2 y hy
  have hid : y.id = x.id := Table.key_of_find hy
  refine ⟨taskRunKnown_of_find (hid ▸ hy), fun z hz => ?_⟩
  obtain ⟨b, hdelivers, hP⟩ := h.2 y hy
  exact ⟨b, hdelivers.elsewhere (by rw [hsame]) (by rw [hsame]), hP⟩

theorem Provided.row {x y : TaskRun} (h : Provided x w) (hy : w.db.taskRuns.find x.id = some y) :
    Provided y w := by
  have hsame : y = _ := h.1.2 y hy
  have hid : y.id = x.id := Table.key_of_find hy
  refine ⟨taskRunKnown_of_find (hid ▸ hy), fun taskId hmem => (h.2 taskId ?_).row hy⟩
  rw [hsame] at hmem
  exact hmem

/-- What is provided before a step is provided after it, to the row as it then is. -/
theorem provided_performs (hg : Grounded cond) (h : Performs cond t o w r w') {x x' : TaskRun}
    (hx : Provided x w) (hx' : x' ∈ w'.db.taskRuns.rows) (hid : x'.id = x.id) : Provided x' w' :=
  ((provided_permanent hg x).performs h hx).row (hid ▸ Table.find_of_mem hx')

theorem delivers_performs (hg : Grounded cond) (h : Performs cond t o w r w') {x x' : TaskRun}
    (hsame : TaskRun.Same x x') (hx' : x' ∈ w'.db.taskRuns.rows)
    (hx : ∃ b, Delivers w.db x x.taskId b) : ∃ b, Delivers w'.db x' x'.taskId b := by
  obtain ⟨b, hb⟩ := hx
  have hsame : x' = _ := hsame
  have hstays : ¬ Removes w o r x.jobRunId :=
    fun hremoves => (hremoves.gone h).2.1 x' hx' (by rw [hsame])
  obtain ⟨b', hb', -⟩ := delivers_kept hg h hb hstays
  refine ⟨b', ?_⟩
  have htask : x'.taskId = x.taskId := by rw [hsame]
  rw [htask]
  exact hb'.elsewhere (by rw [hsame]) (by rw [hsame])

/-- A task run gets its status from where it was, or from a write that may give it. -/
theorem taskRun_started (hg : Grounded cond) (hpre : (handover lib).pre t o w)
    (h : Performs cond t o w r w') {x' : TaskRun} (hx' : x' ∈ w'.db.taskRuns.rows)
    (hstatus : x'.status = .running ∨ x'.status = .succeeded) :
    ∃ x ∈ w.db.taskRuns.rows, TaskRun.Same x x' ∧ (x.status = x'.status ∨
      (x'.status = .running → Provided x w) ∧
        (x'.status = .succeeded → ∃ b, Delivers w.db x x.taskId b)) := by
  rcases taskRun_origin h (Table.find_of_mem hx') with hx | ⟨i, now, ho, -, -, -, -, hnew⟩ |
    ⟨x, hx, ⟨f, i, ho, -, hf, hnew⟩ | ⟨now, j, -, -, -, -, hnew⟩⟩
  · exact ⟨x', Table.mem_of_find hx, rfl, .inl rfl⟩
  · -- a task run is planned when it is submitted
    have hallowed := allowed_of hg.base h
    rw [ho] at hallowed
    cases hallowed with
    | submitTask _ hplanned =>
        rw [hnew] at hstatus
        simp only [InsertTaskRunInput.draft, hplanned] at hstatus
        rcases hstatus with heq | heq <;> cases heq
  · refine ⟨x, Table.mem_of_find hx, by rw [hnew]; rfl, ?_⟩
    subst ho
    cases hset : i.status with
    | none => exact .inl (by rw [hnew]; simp [UpdateTaskRunsInput.patch, hset])
    | some status =>
        have heq : x'.status = status := by
          rw [hnew]
          simp [UpdateTaskRunsInput.patch, hset]
        have hmay := hpre x (Table.mem_of_find hx) hf
        rw [hset, ← heq] at hmay
        exact .inr ⟨fun h => hmay.1 (congrArg some h), fun h => hmay.2 (congrArg some h)⟩
  · rw [hnew] at hstatus
    rcases hstatus with heq | heq <;> cases heq

/-- The task run of an attempt that was there before. -/
theorem handed_before (hg : Grounded cond) (hi : (handover lib).inv w)
    (h : Performs cond t o w r w') {a : TaskRunAttempt} (ha : a ∈ w.db.taskRunAttempts.rows)
    {x' : TaskRun} (hx' : x' ∈ w'.db.taskRuns.rows) (hid : x'.id = a.taskRunId) : Provided x' w' := by
  obtain ⟨x, hx⟩ := Option.isSome_iff_exists.mp (hi.2.2.2.1.taskRun_of_attempt a ha)
  have hkey : x.id = a.taskRunId := Table.key_of_find hx
  exact provided_performs hg h (hi.1.attempted a ha x (Table.mem_of_find hx) hkey) hx'
    (hid.trans hkey.symm)

theorem handsOver_performs (hg : Grounded cond) (hi : (handover lib).inv w)
    (hpre : (handover lib).pre t o w) (h : Performs cond t o w r w') : HandsOver lib w' where
  succeeded x' hx' hstatus := by
    obtain ⟨x, hx, hsame, heq | hmay⟩ := taskRun_started hg hpre h hx' (.inr hstatus)
    · exact delivers_performs hg h hsame hx' (hi.1.succeeded x hx (heq.trans hstatus))
    · exact delivers_performs hg h hsame hx' (hmay.2 hstatus)
  running x' hx' hstatus := by
    obtain ⟨x, hx, hsame, heq | hmay⟩ := taskRun_started hg hpre h hx' (.inl hstatus)
    · exact provided_performs hg h (hi.1.running x hx (heq.trans hstatus)) hx' (by rw [hsame])
    · exact provided_performs hg h (hmay.1 hstatus) hx' (by rw [hsame])
  attempted a' ha' x' hx' hid := by
    rcases taskRunAttempt_origin h (Table.find_of_mem ha') with ha |
      ⟨i, now, ho, -, -, -, -, -, hnew⟩ | ⟨a, ha, f, i, -, -, -, hnew⟩
    · exact handed_before hg hi h (Table.mem_of_find ha) hx' hid
    · subst ho
      obtain ⟨x, htask, hprovided⟩ := hpre
      refine provided_performs hg h hprovided hx' (hid.trans ?_)
      rw [hnew, htask]
      rfl
    · exact handed_before hg hi h (Table.mem_of_find ha) hx' (by rw [hid, hnew]; rfl)
  spawned e he id command at' ho := by
    have hstays : ∀ {a x canonical}, Equipped lib a x canonical command.env w →
        Equipped lib a x canonical command.env w' :=
      fun he => (equipped_permanent hg _ _ _ _).performs h he
    rw [log_performs h] at he
    rcases List.mem_cons.mp he with rfl | hold
    · have ho : o = _ := ho
      subst ho
      obtain ⟨a, x, canonical, hid, hequipped⟩ := hpre
      exact ⟨a, x, canonical, hid, hstays hequipped⟩
    · obtain ⟨a, x, canonical, hid, hequipped⟩ := hi.1.spawned e hold id command at' ho
      exact ⟨a, x, canonical, hid, hstays hequipped⟩

end Steps

/-! ## Starting a task run -/

/-- A write to the task run itself is one to its row. -/
theorem row_of_id {x y : TaskRun} {w : World} {f : UpdateTaskRunsFilter}
    (hf : f = { id := some x.id }) (hy : y ∈ w.db.taskRuns.rows) (hholds : f.holds y = true) :
    w.db.taskRuns.find x.id = some y := by
  subst hf
  have hid : y.id = x.id := by
    have hclauses := Bool.and_eq_true_iff.mp (Bool.and_eq_true_iff.mp hholds).1
    simpa [clause] using hclauses.1
  exact hid ▸ Table.find_of_mem hy

namespace TaskRunDispatcher

/-- A dependency that is found to have succeeded has an attempt that did. -/
def DoneWith (x : TaskRun) (taskId : String) (y : TaskRun) (w : World) : Prop :=
  y.status = .succeeded → Obtains (fun _ _ => True) x taskId w

theorem doneWith_permanent (hg : Grounded cond) (x : TaskRun) (taskId : String) (y : TaskRun) :
    Permanent cond (DoneWith x taskId y) := .imp_const (obtains_permanent hg _ x taskId)

theorem handover_dependents (hg : Grounded cond) (x : TaskRun) :
    (handover lib).Triple cond (.service .taskRunDispatcher) (TaskRunKnown x)
      (getDependentTaskRuns x) fun r w => TaskRunKnown x w ∧ ∀ ys, r = .ok ys →
        List.Forall₂ (fun taskId y => DoneWith x taskId y w) x.dependsOn ys := by
  refine Triple.collect (R := DoneWith x) (fun taskId y => (doneWith_permanent hg x taskId y).stable _)
    (fun taskId => ?_) (fun taskId y z => .of_forall _ fun _ _ _ _ _ _ _ hperf hw =>
      (doneWith_permanent hg x taskId y).performs hperf hw) x.dependsOn
  refine Triple.getTaskRun ((taskRunKnown_permanent x).stable _) (fun _ _ _ _ h => h)
    (fun _ w ho _ => ho.handover_pre _ w) fun w o r y _ hi hw hfind hholds hstatus => ?_
  refine ⟨hw, fun x' hx' => ?_⟩
  obtain ⟨b, hb⟩ := hi.1.succeeded y (Table.mem_of_find hfind) hstatus
  have hfilter : (y.jobRunId = x.jobRunId ∧ y.jobId = x.jobId) ∧ y.taskId = taskId := by
    simpa [SelectTaskRunsFilter.holds, clause] using hholds
  obtain ⟨⟨hrun, hjob⟩, rfl⟩ := hfilter
  exact ⟨b, hb.elsewhere hrun hjob, trivial⟩

theorem exists_of_forall₂ {α β : Type} {R : α → β → Prop} {xs : List α} {ys : List β}
    (h : List.Forall₂ R xs ys) : ∀ x ∈ xs, ∃ y ∈ ys, R x y := by
  induction h with
  | nil => exact fun x hx => absurd hx List.not_mem_nil
  | cons hxy _ ih =>
      intro x hx
      rcases List.mem_cons.mp hx with rfl | hx
      · exact ⟨_, List.mem_cons_self, hxy⟩
      · obtain ⟨y, hy, hR⟩ := ih x hx
        exact ⟨y, List.mem_cons_of_mem _ hy, hR⟩

/-- Once all of them have succeeded, the task run is provided for. -/
theorem provided_of_dependents {x : TaskRun} {ys : List TaskRun} {w : World}
    (hknown : TaskRunKnown x w)
    (hys : List.Forall₂ (fun taskId y => DoneWith x taskId y w) x.dependsOn ys)
    (hall : allDependenciesSucceeded ys = true) : Provided x w := by
  refine ⟨hknown, fun taskId hmem => ?_⟩
  obtain ⟨y, hy, hdone⟩ := exists_of_forall₂ hys taskId hmem
  exact hdone (by simpa using List.all_eq_true.mp hall y hy)

theorem handover_derive (hg : Grounded cond) (x : TaskRun) :
    (handover lib).Triple cond (.service .taskRunDispatcher) (TaskRunKnown x)
      (deriveNextStatus x) fun r w => r = .ok (some .running) → Provided x w := by
  refine Triple.bind (handover_dependents hg x) (fun ys => ?_) fun e w _ _ h => by cases h
  have hF : Permanent cond fun w => TaskRunKnown x w ∧
      List.Forall₂ (fun taskId y => DoneWith x taskId y w) x.dependsOn ys :=
    (taskRunKnown_permanent x).and (.forall₂ (doneWith_permanent hg x) _ _)
  have hskip : (shouldSkip x ys).Uses Silent :=
    (isJobRunStopped_silent _).bind fun _ => Prog.uses_ret _
  refine Triple.bind ((Triple.permanent hF (hskip.mono fun o ho w _ _ =>
    ho.handover_pre _ w)).pre fun w _ h => ⟨h.1, h.2 ys rfl⟩) (fun mustSkip => ?_)
    fun e w _ _ h => by cases h
  refine Triple.ret fun w _ hw hrunning => provided_of_dependents hw.1 hw.2 ?_
  by_contra hnot
  have hstatus := Except.ok.inj hrunning
  rw [if_neg hnot] at hstatus
  split_ifs at hstatus <;> cases hstatus

theorem handover_handle (hg : Grounded cond) (x : TaskRun) :
    (handover lib).Triple cond (.service .taskRunDispatcher) (TaskRunKnown x)
      (handleWaitingTaskRun x) fun _ _ => True := by
  -- a task run that is dropped is neither running nor succeeded
  have hdrop : ∀ (status : TaskRunStatus) (P : World → Prop), status = .skipped ∨ status = .invalid →
      (handover lib).Triple cond (.service .taskRunDispatcher) P (settle x status)
        fun _ _ => True := by
    intro status P hs
    have huses : (settle x status).Uses fun o : Op =>
        ∀ w, (handover lib).pre (.service .taskRunDispatcher) o w := by
      refine (now_silent.mono fun o ho w => ho.handover_pre _ w).bind fun now => uses_write ?_
      intro w y _ _
      refine ⟨fun h => ?_, fun h => ?_⟩ <;> rcases hs with rfl | rfl <;> cases h
    exact handover_uses huses
  refine Triple.seq (handover_derive hg x) fun status => ?_
  split
  · exact hdrop _ _ (.inl rfl)
  · exact Triple.ret fun _ _ _ => trivial
  · refine Triple.pre (W := Provided x) ?_ fun w _ h => h rfl
    refine Triple.seq (Triple.permanent (provided_permanent hg x)
      (now_silent.mono fun o ho w _ _ => ho.handover_pre _ w)) fun now => ?_
    refine Triple.perform ((provided_permanent hg x).stable _) (fun w r w' _ hw _ => ?_)
      fun _ _ _ _ _ _ _ => trivial
    intro y hy hf
    exact ⟨fun _ => hw.row (row_of_id rfl hy hf), fun h => by cases h⟩
  · exact hdrop _ _ (.inr rfl)

end TaskRunDispatcher

/-! ## Its attempts -/

namespace TaskRunMonitor

/-- A last attempt that is found to have succeeded is what the task run delivers. -/
def DoneBy (x : TaskRun) (last : TaskRunAttempt) (w : World) : Prop :=
  last.status = .succeeded → Obtains (fun _ _ => True) x x.taskId w

theorem handover_last (hg : Grounded cond) (x : TaskRun) :
    (handover lib).Triple cond thread (Provided x) (selectLastTaskRunAttempt x) fun r w =>
      Provided x w ∧ ∀ last, r = .ok (some last) → DoneBy x last w := by
  refine Triple.bind (Triple.selectTaskRunAttempts (K := DoneBy x)
    ((provided_permanent hg x).stable _) (fun _ _ h => h) (fun _ _ => trivial)
    fun w r a hi hw hfind hholds hstatus => ⟨hw.1, fun y hy => ?_⟩)
    (fun rows => Triple.ret fun w _ h => ⟨h.1, fun last hlast => ?_⟩)
    fun e w _ h => ⟨h.1, fun _ h => by cases h⟩
  · have htask : a.taskRunId = x.id := by
      simpa [SelectTaskRunAttemptsFilter.holds, clause] using hholds
    have hsame : y = _ := hw.1.2 y hy
    refine ⟨a, ⟨Table.mem_of_find hfind, hstatus, y, Table.mem_of_find hy, ?_⟩, trivial⟩
    exact ⟨(Table.key_of_find hy).trans htask.symm, by rw [hsame], by rw [hsame], by rw [hsame]⟩
  · exact (h.2 rows rfl).2 last (List.mem_of_getLast? (Except.ok.inj hlast))

theorem handover_insert (hg : Grounded cond) (x : TaskRun) (n : Nat) :
    (handover lib).Triple cond thread (Provided x) (insertTaskRunAttempt (attemptInput x n))
      fun _ => Provided x :=
  Triple.permanent (provided_permanent hg x) (uses_write fun _ _ hw => ⟨x, rfl, hw⟩)

theorem handover_getOrStart (hg : Grounded cond) (x : TaskRun) :
    (handover lib).Triple cond thread (Provided x) (getOrStartTaskRunAttempt x) fun r w =>
      ∀ last, r = .ok last → Provided x w ∧ DoneBy x last w := by
  refine Triple.bind (handover_last hg x) (fun last => ?_) fun e w _ _ _ h => by cases h
  cases last with
  | some a =>
      refine Triple.ret fun w _ h b hb => ?_
      cases hb
      exact ⟨h.1, h.2 _ rfl⟩
  | none =>
      refine Triple.bind ((handover_insert hg x 1).pre fun w _ h => h.1) (fun _ => ?_)
        fun e w _ _ _ h => by cases h
      refine Triple.bind (handover_last hg x) (fun last => ?_) fun e w _ _ _ h => by cases h
      cases last with
      | none => exact Triple.throw fun w _ _ _ h => by cases h
      | some a =>
          refine Triple.ret fun w _ h b hb => ?_
          cases hb
          exact ⟨h.1, h.2 _ rfl⟩

/-- A task run is derived to have succeeded from its last attempt alone. -/
theorem handover_derive (hg : Grounded cond) (x : TaskRun) (last : TaskRunAttempt) :
    (handover lib).Triple cond thread (fun w => Provided x w ∧ DoneBy x last w)
      (deriveNextStatus x last) fun r w =>
        r = .ok (some .succeeded) → Obtains (fun _ _ => True) x x.taskId w := by
  have hother : ∀ status : Option TaskRunStatus, status ≠ some .succeeded →
      (handover lib).Triple cond thread (fun w => Provided x w ∧ DoneBy x last w) (.ret status)
        fun r w => r = .ok (some .succeeded) → Obtains (fun _ _ => True) x x.taskId w :=
    fun status hne => Triple.ret fun w _ _ heq => absurd (Except.ok.inj heq) hne
  unfold deriveNextStatus
  split_ifs with _ hsucceeded
  · exact hother _ (by simp)
  · exact Triple.ret fun w _ h _ => h.2 hsucceeded
  · exact hother _ (by simp)
  · refine Triple.bind (R := fun _ _ => True) ?_ (fun _ => Triple.ret fun w _ _ heq => by cases heq)
      fun e w _ _ h => by cases h
    exact Triple.bind ((handover_insert hg x _).pre fun w _ h => h.1)
      (fun _ => Triple.ret fun _ _ _ => trivial) fun _ _ _ _ => trivial
  · exact hother _ (by simp)
  · exact hother _ (by simp)
  · exact hother _ (by simp)
  · exact hother _ (by simp)

theorem handover_update (hg : Grounded cond) (x : TaskRun) (status : TaskRunStatus)
    (hrunning : status ≠ .running) :
    (handover lib).Triple cond thread
      (fun w => status = .succeeded → Obtains (fun _ _ => True) x x.taskId w)
      (updateTaskRunStatus x status) fun _ _ => True := by
  have hF : Permanent cond fun w => status = .succeeded →
      Obtains (fun _ _ => True) x x.taskId w := .imp_const (obtains_permanent hg _ x x.taskId)
  refine Triple.seq (Triple.permanent hF (now_silent.mono fun o ho w _ _ => ho.handover_pre _ w))
    fun now => Triple.perform (hF.stable _) (fun w r w' _ hw _ => ?_) fun _ _ _ _ _ _ _ => trivial
  intro y hy hf
  refine ⟨fun h => absurd (Option.some.inj h) hrunning, fun h => ?_⟩
  have hfind := row_of_id rfl hy hf
  have hobtains := hw (Option.some.inj h)
  have hsame : y = _ := hobtains.1.2 y hfind
  obtain ⟨b, hb, -⟩ := (hobtains.row hfind).2 y (by rw [hsame] at hfind ⊢; exact hfind)
  exact ⟨b, by rw [hsame] at hb ⊢; exact hb⟩

theorem handover_handle (hg : Grounded cond) (x : TaskRun) :
    (handover lib).Triple cond thread (Provided x) (handleRunningTaskRun x) fun _ _ => True := by
  refine Triple.seq (handover_getOrStart hg x) fun last => ?_
  refine Triple.seq ((handover_derive hg x last).pre fun w _ h => h last rfl) fun status => ?_
  have hupdate : ∀ status', status' ≠ .running → (status' = .succeeded → status = some .succeeded) →
      (handover lib).Triple cond thread (fun w => (.ok status : Except Err _) =
        .ok (some TaskRunStatus.succeeded) → Obtains (fun _ _ => True) x x.taskId w)
          (updateTaskRunStatus x status') fun _ _ => True :=
    fun status' hrunning hsucceeded => (handover_update hg x status' hrunning).pre
      fun w _ h heq => h (congrArg _ (hsucceeded heq))
  split
  · exact hupdate _ (by simp) fun _ => rfl
  · exact hupdate _ (by simp) (by simp)
  · exact hupdate _ (by simp) (by simp)
  · exact hupdate _ (by simp) (by simp)
  · exact Triple.ret fun _ _ _ => trivial
  · exact hupdate _ (by simp) (by simp)

end TaskRunMonitor

/-! ## What a command is spawned with -/

/-- The attempts of a task in a run are those of one task run. -/
theorem attempts_of_task {w : World} (hi : (handover lib).inv w) {a b : TaskRunAttempt}
    (ha : a ∈ w.db.taskRunAttempts.rows) (hb : b ∈ w.db.taskRunAttempts.rows)
    (hrun : a.jobRunId = b.jobRunId) (htask : a.taskId = b.taskId) :
    ∃ z k, Retried w.db z k ∧ a ∈ w.db.attemptsOf z.id ∧ b ∈ w.db.attemptsOf z.id := by
  obtain ⟨-, hreleased, ⟨hlinked, hretried⟩, hsame⟩ := hi
  have hnamed : ∀ c ∈ w.db.taskRunAttempts.rows, ∃ z ∈ w.db.taskRuns.rows, z.id = c.taskRunId ∧
      z.jobRunId = c.jobRunId ∧ z.taskId = c.taskId := by
    intro c hc
    obtain ⟨z, hz⟩ := Option.isSome_iff_exists.mp (hlinked.taskRun_of_attempt c hc)
    have hid : z.id = c.taskRunId := Table.key_of_find hz
    have hzrow := Table.mem_of_find hz
    obtain ⟨hzrun, -, hztask⟩ := (hreleased.attempted c hc).2 z hzrow hid
    exact ⟨z, hzrow, hid, hzrun.symm, hztask.symm⟩
  obtain ⟨y, hy, hyid, hyrun, hytask⟩ := hnamed a ha
  obtain ⟨z, hz, hzid, hzrun, hztask⟩ := hnamed b hb
  have hzy : y = z := taskRun_eq hsame hy hz (by rw [hyrun, hrun, hzrun])
    (by rw [hytask, htask, hztask])
  subst hzy
  obtain ⟨k, hk⟩ := hretried y hy
  exact ⟨y, k, hk, mem_attemptsOf.mpr ⟨ha, hyid.symm⟩, mem_attemptsOf.mpr ⟨hb, hzid.symm⟩⟩

/-- No two of them have one number. -/
theorem attempt_eq {w : World} (hi : (handover lib).inv w) {a b : TaskRunAttempt}
    (ha : a ∈ w.db.taskRunAttempts.rows) (hb : b ∈ w.db.taskRunAttempts.rows)
    (hrun : a.jobRunId = b.jobRunId) (htask : a.taskId = b.taskId)
    (hnumber : a.attempt = b.attempt) : a = b := by
  obtain ⟨z, k, hk, hain, hbin⟩ := attempts_of_task hi ha hb hrun htask
  exact hk.numbered.once a hain b hbin hnumber

/-- There is one attempt of a task that succeeds in a run. -/
theorem Delivers.unique {w : World} (hi : (handover lib).inv w) {x : TaskRun} {taskId : String}
    {a b : TaskRunAttempt} (hb : Delivers w.db x taskId b) (ha : a ∈ w.db.taskRunAttempts.rows)
    (hrun : a.jobRunId = x.jobRunId) (htask : a.taskId = taskId)
    (hstatus : a.status = .succeeded) : a = b := by
  obtain ⟨hbrun, hbtask⟩ := hb.named hi.2.1
  obtain ⟨z, k, hk, hain, hbin⟩ := attempts_of_task hi ha hb.row (hrun.trans hbrun.symm)
    (htask.trans hbtask.symm)
  -- only the last of its attempts has not failed
  have hlast : ∀ c ∈ w.db.attemptsOf z.id, c.status = .succeeded → c.attempt = k := by
    intro c hc hsucceeded
    have hbounds := hk.numbered.within c hc
    by_contra hne
    have hfailed := hk.numbered.failed c hc (by omega)
    rw [hsucceeded] at hfailed
    cases hfailed
  exact hk.numbered.once a hain b hbin
    ((hlast a hain hstatus).trans (hlast b hbin hb.status).symm)

namespace TaskRunAttemptDispatcher

/-- The task run of an attempt that is about to be spawned has what it waited for. -/
def Attached (a : TaskRunAttempt) (x : TaskRun) (w : World) : Prop :=
  (Known a w ∧ x.id = a.taskRunId) ∧ Provided x w

theorem attached_permanent (hg : Grounded cond) (a : TaskRunAttempt) (x : TaskRun) :
    Permanent cond (Attached a x) :=
  ((known_permanent a).and (.const _)).and (provided_permanent hg x)

/-- The attempts a run's results are told by. -/
def Numbers (x : TaskRun) (outputs : BTreeMap String Nat) (w : World) : Prop :=
  ∀ taskId ∈ x.dependsOn, Obtains (fun attempt output => outputs.get taskId =
    if output = "" then none else some attempt) x taskId w

/-- Only the one attempt of the task that succeeded can be looked up under it. -/
theorem get_outputs {rows : List TaskRunAttempt} {taskId : String} {b : TaskRunAttempt}
    (hb : b ∈ rows) (htask : b.taskId = taskId) (hunique : ∀ a ∈ rows, a.taskId = taskId → a = b) :
    BTreeMap.get ((rows.filter fun a => a.output ≠ "").foldl
      (fun outputs a => BTreeMap.insert outputs a.taskId a.attempt) []) taskId =
        if b.output = "" then none else some b.attempt := by
  rw [BTreeMap.get_foldl_insert (v := b.attempt)
    fun a ha heq => by rw [hunique a (List.mem_filter.mp ha).1 heq]]
  by_cases hempty : b.output = ""
  · rw [if_pos hempty, if_neg, BTreeMap.get_nil]
    intro hmem
    obtain ⟨a, ha, heq⟩ := List.mem_map.mp hmem
    obtain ⟨ha, hresult⟩ := List.mem_filter.mp ha
    rw [hunique a ha heq, hempty] at hresult
    simp at hresult
  · rw [if_neg hempty, if_pos]
    exact List.mem_map.mpr ⟨b, List.mem_filter.mpr ⟨hb, by simpa using hempty⟩, htask⟩

theorem handover_outputs (hg : Grounded cond) (x : TaskRun) :
    (handover lib).Triple cond thread (Provided x) (selectTaskRunOutputs x.jobRunId)
      fun r w => ∀ outputs, r = .ok outputs → Numbers x outputs w := by
  refine Triple.bind (Triple.select
      (q := .taskRunAttempts { jobRunId := some x.jobRunId, status := some .succeeded } none)
      (Q := fun (rows : List TaskRunAttempt) w => Numbers x ((rows.filter fun a => a.output ≠ "").foldl
        (fun outputs a => BTreeMap.insert outputs a.taskId a.attempt) []) w)
      ((provided_permanent hg x).stable _) (fun _ _ h => h) (fun _ _ => trivial)
      fun w hi hw taskId hmem => ⟨hw.1, fun y hy => ?_⟩)
    (fun rows => Triple.ret fun w _ h outputs heq => ?_) fun e w _ _ _ h => by cases h
  · obtain ⟨b, hb, -⟩ := (hw.2 taskId hmem).2 y hy
    obtain ⟨hrun, htask⟩ := hb.named hi.2.1
    have hrows : ∀ a, a ∈ w.db.selectTaskRunAttempts { jobRunId := some x.jobRunId
                                                       status := some .succeeded } none ↔
        a ∈ w.db.taskRunAttempts.rows ∧ a.jobRunId = x.jobRunId ∧ a.status = .succeeded := by
      intro a
      rw [Database.mem_selectTaskRunAttempts]
      refine and_congr ⟨Table.mem_of_find, Table.find_of_mem⟩ ?_
      simp [SelectTaskRunAttemptsFilter.holds, clause]
    refine ⟨b, hb, get_outputs ((hrows b).mpr ⟨hb.row, hrun, hb.status⟩) htask ?_⟩
    intro a ha htask
    obtain ⟨ha, hrun, hstatus⟩ := (hrows a).mp ha
    exact hb.unique hi ha hrun htask hstatus
  · cases heq
    exact h.2 rows rfl

/-- What is read of the run's attempts is handed over as paths. -/
theorem Numbers.handed {x : TaskRun} {outputs : BTreeMap String Nat} {w : World}
    (h : Numbers x outputs w) (dir : String) :
    Handed x dir (collectInputs dir outputs [] x.dependsOn) w := by
  intro taskId hmem
  refine ⟨(h taskId hmem).1, fun y hy => ?_⟩
  obtain ⟨b, hb, houtput⟩ := (h taskId hmem).2 y hy
  refine ⟨b, hb, ?_⟩
  rw [get_collectInputs, if_pos hmem, houtput, BTreeMap.get_nil, Option.or_none]
  split <;> rfl

theorem handover_inputs (hg : Grounded cond) (x : TaskRun) (dir : String) :
    (handover lib).Triple cond thread (Provided x) (getInputs x dir)
      fun r w => ∀ inputs, r = .ok inputs → ResultsOf x inputs ∧ Handed x dir inputs w := by
  unfold getInputs
  split
  · rename_i hempty
    have hempty : x.dependsOn = [] := List.isEmpty_iff.mp hempty
    refine Triple.ret fun w _ _ inputs heq => ?_
    cases heq
    refine ⟨⟨List.nodup_nil, List.nil_subset _⟩, fun taskId hmem => ?_⟩
    rw [hempty] at hmem
    cases hmem
  · refine Triple.bind (handover_outputs hg x) (fun outputs => Triple.ret fun w _ h inputs heq => ?_)
      fun e w _ _ _ h => by cases h
    cases heq
    exact ⟨resultsOf_collected outputs, (h outputs rfl).handed dir⟩

/-- The command of an attempt comes by its environment. -/
theorem handover_prepare (hg : Grounded cond) (config : Config) (a : TaskRunAttempt) :
    (handover lib).Triple cond thread (fun w => ∃ x, Attached a x w) (prepare lib config a)
      fun r w => ∀ taskRun command, r = .ok (taskRun, command) →
        ∃ x canonical, Equipped lib a x canonical command.env w := by
  have hsilent : ∀ {o : Op}, Silent o → ∀ w : World, (handover lib).pre thread o w :=
    fun ho w => ho.handover_pre _ w
  refine Triple.bind (R := fun r w => ∀ x, r = .ok x → Attached a x w) ?_ (fun x => ?_)
    fun e w _ _ _ _ h => by cases h
  · refine (Triple.getTaskRun (K := Attached a)
      ((Permanent.ex fun x => attached_permanent hg a x).stable _) (fun _ _ _ _ h => h)
      (fun _ w ho _ => hsilent ho w) fun w o r y _ _ hw hfind hholds => ?_).post fun _ _ _ h => h.2
    obtain ⟨x, hx, hprovided⟩ := hw
    have hid : y.id = a.taskRunId := by simpa [SelectTaskRunsFilter.holds, clause] using hholds
    exact ⟨⟨hx.1, hid⟩, hprovided.row (by rw [hx.2, ← hid]; exact hfind)⟩
  refine Triple.pre (W := Attached a x) ?_ fun _ _ h => h x rfl
  refine Triple.bind (Triple.findJobRun (K := fun jobRun _ => jobRun.id = a.jobRunId)
    ((attached_permanent hg a x).stable _) (fun _ _ _ _ h => h) (fun _ w ho _ => hsilent ho w)
    fun w o r jobRun _ _ _ hfind => Table.key_of_find hfind) (fun jobRun => ?_)
    fun e w _ _ _ _ h => by cases h
  refine Triple.of_fact (fun w _ h => h.2 jobRun rfl) fun hjobRun => Triple.pre (W := Attached a x)
    ?_ fun _ _ h => h.1
  refine Triple.bind (Triple.jobRunDir (attached_permanent hg a x) (fun _ w ho _ => hsilent ho w)
    config jobRun.id) (fun dir => ?_) fun e w _ _ _ _ h => by cases h
  refine Triple.pre (W := fun w => ∃ canonical, (Attached a x w ∧ Resolved canonical w) ∧
    dir = runDirIn canonical a.jobRunId) ?_ fun w _ h => ?_
  · refine Triple.of_exists fun canonical => Triple.of_fact (fun _ _ h => h.2) fun hdir =>
      Triple.pre (W := fun w => Attached a x w ∧ Resolved canonical w) ?_ fun _ _ h => h.1
    subst hdir
    have hF : Permanent cond fun w => Attached a x w ∧ Resolved canonical w :=
      (attached_permanent hg a x).and (resolved_permanent canonical)
    refine Triple.bind (((handover_inputs hg x _).past hF).pre fun w _ h => ⟨h.1.2, h⟩)
      (fun inputs => ?_) fun e w _ _ _ _ h => by cases h
    refine Triple.of_fact (fun w _ h => (h.1 inputs rfl).1) fun hresults => ?_
    refine Triple.bind ((Triple.permanent (hF.and (handed_permanent hg x _ inputs))
      (writePreviousAttemptFiles_uses (fun o ho w _ _ => hsilent ho.1 w)
        (fun _ _ _ _ _ => trivial) a _)).pre fun w _ h => ⟨h.2, (h.1 inputs rfl).2⟩)
      (fun previous => ?_) fun e w _ _ _ _ h => by cases h
    cases hbuilt : buildTaskRunAttemptEnv lib x jobRun a config.app.dataDir
        (runDirIn canonical a.jobRunId) inputs previous config.app.secrets with
    | error e => exact Triple.throw fun w _ _ _ _ h => by cases h
    | ok env =>
        refine Triple.ret fun w _ h taskRun command heq => ?_
        cases heq
        obtain ⟨⟨⟨⟨hknown, hid⟩, hprovided⟩, hresolved⟩, hhanded⟩ := h
        exact ⟨x, canonical, hknown, ⟨hprovided.1, hid⟩, hresolved, jobRun, inputs, previous, _, _,
          hjobRun, hbuilt, hresults, hhanded⟩
  · obtain ⟨canonical, hresolved, hdir⟩ := h.2 dir rfl
    exact ⟨canonical, ⟨h.1, hresolved⟩, hjobRun ▸ hdir⟩

theorem handover_setToRunning (hg : Grounded cond) (config : Config) (a : TaskRunAttempt) :
    (handover lib).Triple cond thread (fun w => ∃ x, Attached a x w) (setToRunning lib config a)
      fun _ _ => True := by
  refine Triple.seq (handover_prepare hg config a) fun (taskRun, command) => ?_
  have hF : Permanent cond fun w => ∃ x canonical, Equipped lib a x canonical command.env w :=
    .ex fun x => .ex fun canonical => equipped_permanent hg a x canonical command.env
  refine Triple.pre (W := fun w => ∃ x canonical, Equipped lib a x canonical command.env w) ?_
    fun w _ h => h taskRun command rfl
  refine Triple.seq (Triple.permanent hF (now_silent.mono fun o ho w _ _ => ho.handover_pre _ w))
    fun startedAt => ?_
  refine Triple.seq (Triple.permanent hF (uses_write fun _ _ _ => trivial)) fun _ => ?_
  refine Triple.seq (Triple.attempt (Q := fun _ _ => True) ((Triple.permanent hF
    ((Prog.uses_perform _).mpr ?_)).post fun _ _ _ _ => trivial)) fun spawned => ?_
  · rintro w - ⟨x, canonical, hequipped⟩
    exact ⟨a, x, canonical, rfl, hequipped⟩
  cases spawned with
  | error e =>
      exact handover_uses (Prog.Uses.bind (uses_write fun _ => trivial) fun _ => Prog.uses_throw _)
  | ok child =>
      exact handover_uses (Prog.Uses.bind ((Prog.uses_perform _).mpr fun _ => trivial) fun _ =>
        uses_write fun _ => trivial)

theorem handover_handle (hg : Grounded cond) (config : Config) (a : TaskRunAttempt) :
    (handover lib).Triple cond thread (fun w => ∃ x, Attached a x w)
      (handleQueuedTaskRunAttempt lib config a) fun _ _ => True := by
  have hsettle : ∀ (status : TaskRunAttemptStatus) (P : World → Prop),
      (handover lib).Triple cond thread P (settle a status) fun _ _ => True := fun status P =>
    handover_uses ((now_silent.mono fun o ho w => ho.handover_pre _ w).bind fun _ =>
      uses_write fun _ => trivial)
  refine Triple.seq (Triple.permanent (.ex fun x => attached_permanent hg a x)
    ((deriveNextStatus_silent config a).mono fun o ho w _ _ => ho.handover_pre _ w))
    fun status => ?_
  split
  · exact hsettle _ _
  · exact hsettle _ _
  · exact Triple.ret fun _ _ _ => trivial
  · exact handover_setToRunning hg config a
  · exact hsettle _ _

end TaskRunAttemptDispatcher

/-! ## The outline holds -/

theorem handover_valid (hg : Grounded cond) : (handover lib).Valid cond where
  init := by
    rintro w rfl
    refine ⟨⟨⟨fun x hx => ?_, fun x hx => ?_, fun a ha => ?_, fun e he => ?_⟩, ?_⟩, fun _ => trivial⟩
    · exact absurd hx List.not_mem_nil
    · exact absurd hx List.not_mem_nil
    · exact absurd ha List.not_mem_nil
    · exact absurd he List.not_mem_nil
    · exact ⟨((releases_valid hg.base).init .fresh rfl).1,
        ((retries_valid hg.base hg.attempts hg.releases).init .fresh rfl).1,
        ((sameJob_valid hg.base).init .fresh rfl).1⟩
  step _ _ _ _ _ hi hpre hperf := ⟨handsOver_performs hg hi hpre hperf,
    (hg.releases.1 _ _ _ _ _ hperf.2).2.2, (hg.retries.1 _ _ _ _ _ hperf.2).2.2,
    (hg.sameJob.1 _ _ _ _ _ hperf.2).2.2⟩
  env w w' kill hi hhappens := by
    have hdb := happens_db hhappens
    have hlog := log_happens hhappens
    refine ⟨⟨⟨fun x hx hstatus => ?_, fun x hx hstatus => ?_, fun a ha x hx hid => ?_,
      fun e he id command at' ho => ?_⟩, ?_⟩, fun _ _ => trivial⟩
    · rw [hdb] at hx ⊢
      exact hi.1.succeeded x hx hstatus
    · rw [hdb] at hx
      exact (provided_permanent hg x).happens hhappens (hi.1.running x hx hstatus)
    · rw [hdb] at ha hx
      exact (provided_permanent hg x).happens hhappens (hi.1.attempted a ha x hx hid)
    · rw [hlog] at he
      obtain ⟨a, x, canonical, haid, hequipped⟩ := hi.1.spawned e he id command at' ho
      exact ⟨a, x, canonical, haid,
        (equipped_permanent hg a x canonical command.env).happens hhappens hequipped⟩
    · obtain ⟨e, -, henv⟩ := hhappens
      exact ⟨(hg.releases.2 _ _ _ henv).2, (hg.retries.2 _ _ _ henv).2, (hg.sameJob.2 _ _ _ henv).2⟩
  idle t := stable_true t
  start := by
    -- nobody else starts a task run or lets one succeed, adds an attempt or spawns
    have hothers : ∀ {t : Tid} {P : World → Prop}, t ≠ .service .taskRunDispatcher →
        t ≠ .service .taskRunMonitor → t ≠ .service .taskRunAttemptDispatcher →
        ∀ p : Code Unit, (handover lib).Triple cond t P p fun _ _ => True := by
      intro t P hstarts hmonitor hspawns p
      refine Triple.of_pre fun o w r w' _ hperf => ?_
      have hallowed := allowed_of hg.base hperf
      cases o with
      | spawn => exact absurd hallowed hspawns
      | write q =>
          cases q with
          | updateTaskRuns f i =>
              intro x _ _
              cases hallowed with
              | endTaskRuns _ hs => rcases hs with rfl | rfl <;> exact ⟨by simp, by simp⟩
              | releaseTaskRuns => exact ⟨by simp, by simp⟩
              | dropTaskRun | startTaskRun => exact absurd rfl hstarts
              | settleTaskRun => exact absurd rfl hmonitor
          | insertTaskRunAttempt i =>
              cases hallowed
              exact absurd rfl hmonitor
          | _ => trivial
      | _ => trivial
    refine start_triple (fun config fuel s => ?_)
      fun c r => hothers (by simp) (by simp) (by simp) _
    refine Triple.pre (W := fun _ => True) ?_ fun _ _ _ => trivial
    cases s with
    | taskRunDispatcher =>
        refine Poller.pass_triple (P := fun _ => True) (K := TaskRunKnown)
          (R := fun x y : TaskRun => x.id ≠ y.id) ?_ (fun x => (taskRunKnown_permanent x).stable _)
          (fun x => (TaskRunDispatcher.handover_handle hg x).pre fun _ _ h => h.2)
          fun x y _ => .of_forall _ fun _ _ _ _ _ _ _ hperf => (taskRunKnown_permanent y).performs hperf
        exact Triple.selectTaskRuns (stable_true _) (fun _ _ _ => trivial) (fun _ _ => trivial)
          fun w r x _ _ hfind _ => taskRunKnown_of_find (w := w) hfind
    | taskRunMonitor =>
        refine Poller.pass_triple (P := fun _ => True) (K := Provided)
          (R := fun x y : TaskRun => x.id ≠ y.id) ?_ (fun x => (provided_permanent hg x).stable _)
          (fun x => (TaskRunMonitor.handover_handle hg x).pre fun _ _ h => h.2)
          fun x y _ => .of_forall _ fun _ _ _ _ _ _ _ hperf => (provided_permanent hg y).performs hperf
        refine Triple.selectTaskRuns (stable_true _) (fun _ _ _ => trivial) (fun _ _ => trivial) ?_
        intro w r x hi _ hfind hholds
        have hstatus : x.status = .running := by simpa [SelectTaskRunsFilter.holds] using hholds
        exact hi.1.running x (Table.mem_of_find hfind) hstatus
    | taskRunAttemptDispatcher =>
        have hpermanent : ∀ a : TaskRunAttempt, Permanent cond fun w : World =>
            ∃ x, TaskRunAttemptDispatcher.Attached a x w :=
          fun a => .ex fun x => TaskRunAttemptDispatcher.attached_permanent hg a x
        refine Poller.pass_triple (P := fun _ => True)
          (K := fun (a : TaskRunAttempt) w => ∃ x, TaskRunAttemptDispatcher.Attached a x w)
          (R := fun a b : TaskRunAttempt => a.id ≠ b.id) ?_ (fun a => (hpermanent a).stable _)
          (fun a => (TaskRunAttemptDispatcher.handover_handle hg config a).pre fun _ _ h => h.2)
          fun a b _ => .of_forall _ fun _ _ _ _ _ _ _ hperf => (hpermanent b).performs hperf
        refine Triple.selectTaskRunAttempts (stable_true _) (fun _ _ _ => trivial)
          (fun _ _ => trivial) ?_
        intro w r a hi _ hfind _
        have ha := Table.mem_of_find hfind
        obtain ⟨x, hx⟩ := Option.isSome_iff_exists.mp (hi.2.2.2.1.taskRun_of_attempt a ha)
        have hid : x.id = a.taskRunId := Table.key_of_find hx
        exact ⟨x, ⟨known_of_find (w := w) hfind, hid⟩,
          hi.1.attempted a ha x (Table.mem_of_find hx) hid⟩
    | _ => exact hothers (by simp) (by simp) (by simp) _

end Flowlite

import Flowlite.Logic.Handover
import Flowlite.Logic.TaskRuns

/-!
# Why a task run begins, and why it is skipped

`TaskRunDispatcher` asks for each dependency in a query of its own, and then for the stop
of the run, while all of them move. What it acts on is for good, though: a dependency that
has settled stays as it is, and so does a stop, as long as the run is there. `dependencies`
is the outline that says what stands behind a task run that has begun, and behind one that
was skipped.
-/

namespace Flowlite

open Store Host Threads Crud Machine Outline

variable {lib : Library} {cond : (flowlite lib).Condition} {O : Outline (flowlite lib)}

/-! ## What lasts as long as a task run -/

/-- The task run with this id, as long as it is there, is as `R` says. -/
def TaskRunHas (R : TaskRun → World → Prop) (id : Nat) (w : World) : Prop :=
  id < w.db.taskRuns.next ∧ ∀ x, w.db.taskRuns.find id = some x → R x w

/-- What is so of a task run stays so, as long as the task run is there. -/
structure Lasting (cond : (flowlite lib).Condition) (R : TaskRun → World → Prop) : Prop where
  performs : ∀ {t : Tid} {o : Op} {w w' : World} {r : Result o} {x x' : TaskRun},
    Performs cond t o w r w' → w.db.taskRuns.find x.id = some x →
      w'.db.taskRuns.find x.id = some x' → TaskRun.Same x x' → R x w → R x' w'
  happens : ∀ {w w' : World} {kill : Tid → Bool} {x : TaskRun}, Happens cond w w' kill →
    R x w → R x w'

namespace Lasting

variable {R S : TaskRun → World → Prop}

theorem or (hR : Lasting cond R) (hS : Lasting cond S) : Lasting cond fun x w => R x w ∨ S x w where
  performs h hx hx' hsame := Or.imp (hR.performs h hx hx' hsame) (hS.performs h hx hx' hsame)
  happens h := Or.imp (hR.happens h) (hS.happens h)

/-- What lasts of every dependency. -/
theorem allDependencies {D : String → TaskRun → World → Prop} (hD : ∀ d, Lasting cond (D d)) :
    Lasting cond fun x w => ∀ d ∈ x.dependsOn, D d x w where
  performs h hx hx' hsame hall d hd := by
    refine (hD d).performs h hx hx' hsame (hall d ?_)
    have hsame : _ = _ := hsame
    rw [hsame] at hd
    exact hd
  happens h hall d hd := (hD d).happens h (hall d hd)

/-- What lasts of some dependency. -/
theorem someDependency {D : String → TaskRun → World → Prop} (hD : ∀ d, Lasting cond (D d)) :
    Lasting cond fun x w => ∃ d ∈ x.dependsOn, D d x w where
  performs h hx hx' hsame := fun ⟨d, hd, hholds⟩ => by
    refine ⟨d, ?_, (hD d).performs h hx hx' hsame hholds⟩
    have hsame : _ = _ := hsame
    rw [hsame]
    exact hd
  happens h := fun ⟨d, hd, hholds⟩ => ⟨d, hd, (hD d).happens h hholds⟩

theorem permanent (hR : Lasting cond R) (id : Nat) : Permanent cond (TaskRunHas R id) where
  performs h hx := by
    refine ⟨lt_of_lt_of_le hx.1 (taskRuns_next_le h), fun x' hx' => ?_⟩
    rcases taskRun_before h (Table.mem_of_find hx') with ⟨x, hrow, hsame⟩ | ⟨-, -, hnew, -⟩
    · have hsame' : x' = _ := hsame
      have hid : x.id = id := by rw [← Table.key_of_find hx', hsame']; rfl
      subst hid
      exact hR.performs h (Table.find_of_mem hrow) hx' hsame (hx.2 x (Table.find_of_mem hrow))
    · have hid : x'.id = id := Table.key_of_find hx'
      have hlt := hx.1
      omega
  happens h hx := by
    unfold TaskRunHas at hx ⊢
    rw [happens_db h]
    exact ⟨hx.1, fun x hfind => hR.happens h (hx.2 x hfind)⟩

end Lasting

/-! ## The reasons -/

/-- The task of the run has settled this way. -/
def SettledAs (status : TaskRunStatus) (taskId : String) (x : TaskRun) (w : World) : Prop :=
  ∃ y ∈ w.db.taskRuns.rows, y.jobRunId = x.jobRunId ∧ y.taskId = taskId ∧ y.status = status

/-- It has settled without success. -/
def SettledBadly (taskId : String) (x : TaskRun) (w : World) : Prop :=
  ∃ status, TaskRunDispatcher.isUnsuccessful status = true ∧ SettledAs status taskId x w

/-- The run an event deleted. -/
def Host.Event.buries (e : Host.Event) : Option Nat :=
  match e.op, e.result with
  | .write (.deleteJobRun id _), .ok true => some id
  | _, _ => none

/-- Somebody has deleted the run, which was scheduled then. -/
def Host.World.Deleted (w : World) (id : Nat) : Prop := ∃ e ∈ w.log, e.buries = some id

/-- The task run may begin. -/
def MayBegin (x : TaskRun) (w : World) : Prop := ∀ d ∈ x.dependsOn, SettledAs .succeeded d x w

/-- The task run may be skipped. -/
def MaySkip (x : TaskRun) (w : World) : Prop :=
  IsStopped w x.jobRunId ∨ w.Deleted x.jobRunId ∨ ∃ d ∈ x.dependsOn, SettledBadly d x w

section Lasts

/-- A row of a run is there only as long as nothing removes the run. -/
theorem not_removes {t : Tid} {o : Op} {w w' : World} {r : Result o}
    (h : Performs cond t o w r w') {x' : TaskRun} {id : Nat} (hx' : w'.db.taskRuns.find id = some x') :
    ¬ Removes w o r x'.jobRunId :=
  fun hremoves => (hremoves.gone h).2.1 x' (Table.mem_of_find hx') rfl

theorem settledAs_lasting (hg : Gated cond) (ht : cond.Le (taskRuns lib).established)
    {status : TaskRunStatus} (hfinished : status.isFinished = true) (d : String) :
    Lasting cond (SettledAs status d) where
  performs {t o w w' r x x'} h hx hx' hsame := by
    rintro ⟨y, hy, hrun, htask, hstatus⟩
    have hsame : x' = _ := hsame
    have hrun' : x'.jobRunId = x.jobRunId := by rw [hsame]
    have hstays := not_removes h hx'
    have hfind : w.db.taskRuns.find y.id = some y := Table.find_of_mem hy
    rcases taskRun_fate h hfind with hremoves | ⟨y', hy', hysame⟩
    · exact absurd (hrun' ▸ hrun ▸ hremoves) hstays
    · have his : TaskRunIs y.id status w := ⟨Table.lt_next_of_find hfind, fun z hz => by
        cases hfind.symm.trans hz
        exact hstatus⟩
      have hysame : y' = _ := hysame
      refine ⟨y', Table.mem_of_find hy', ?_, ?_, ?_⟩
      · rw [hrun', ← hrun, hysame]
      · rw [← htask, hysame]
      · exact ((taskRunIs_permanent hg ht hfinished).performs h his).2 y' hy'
  happens h := by
    unfold SettledAs
    rw [happens_db h]
    exact id

theorem settledBadly_lasting (hg : Gated cond) (ht : cond.Le (taskRuns lib).established)
    (d : String) : Lasting cond (SettledBadly d) := by
  have hfinished : ∀ {status : TaskRunStatus}, TaskRunDispatcher.isUnsuccessful status = true →
      status.isFinished = true := by
    intro status h
    cases status <;> first | rfl | cases h
  exact {
    performs := fun h hx hx' hsame ⟨status, hbad, hsettled⟩ =>
      ⟨status, hbad, (settledAs_lasting hg ht (hfinished hbad) d).performs h hx hx' hsame hsettled⟩
    happens := fun h ⟨status, hbad, hsettled⟩ =>
      ⟨status, hbad, (settledAs_lasting hg ht (hfinished hbad) d).happens h hsettled⟩ }

theorem isStopped_lasting : Lasting cond fun x w => IsStopped w x.jobRunId where
  performs h _ hx' hsame hstopped := by
    have hsame : _ = _ := hsame
    have hstays := not_removes h hx'
    rw [hsame] at hstays ⊢
    exact (isStopped_fate h hstopped).resolve_left hstays
  happens h := by
    unfold IsStopped
    rw [happens_db h]
    exact id

theorem deleted_lasting : Lasting cond fun x w => w.Deleted x.jobRunId where
  performs h _ _ hsame := by
    have hsame : _ = _ := hsame
    rintro ⟨e, he, hid⟩
    refine ⟨e, ?_, ?_⟩
    · rw [log_performs h]
      exact List.mem_cons_of_mem _ he
    · rw [hid, hsame]
  happens h := by
    unfold Host.World.Deleted
    rw [log_happens h]
    exact id

theorem mayBegin_lasting (hg : Gated cond) (ht : cond.Le (taskRuns lib).established) :
    Lasting cond MayBegin :=
  .allDependencies (D := SettledAs .succeeded) fun d => settledAs_lasting hg ht rfl d

theorem maySkip_lasting (hg : Gated cond) (ht : cond.Le (taskRuns lib).established) :
    Lasting cond MaySkip :=
  isStopped_lasting.or (deleted_lasting.or
    (.someDependency (D := SettledBadly) fun d => settledBadly_lasting hg ht d))

end Lasts

/-! ## The outline -/

/-- What has begun might, and so might what was skipped. -/
def dependencies (lib : Library) : Outline (flowlite lib) where
  inv w := ∀ x ∈ w.db.taskRuns.rows,
    (x.status.hasBegun = true → MayBegin x w) ∧ (x.status = .skipped → MaySkip x w)
  pre _ o w :=
    match o with
    | .write (.updateTaskRuns f i) => ∀ id, f.id = some id →
        (i.status = some .running → TaskRunHas MayBegin id w) ∧
          (i.status = some .skipped → TaskRunHas MaySkip id w)
    | _ => True
  idle _ _ := True

theorem Silent.dependencies_pre {o : Op} (h : Silent o) (t : Tid) (w : World) :
    (dependencies lib).pre t o w := by
  cases o <;> trivial

section Steps

variable {t : Tid} {o : Op} {w w' : World} {r : Result o}

/-- Deleting a scheduled run is on record. -/
theorem deleted_of_performs {id : Nat} {now : Instant} {r : Result (.write (.deleteJobRun id now))}
    (h : Performs cond t (.write (.deleteJobRun id now)) w r w') (hok : Succeeded r) {j : JobRun}
    (hj : w.db.jobRuns.find id = some j) (hscheduled : j.status = .scheduled) : w'.Deleted id := by
  obtain ⟨answer, rfl⟩ := hok
  obtain ⟨at', hrun⟩ := write_ok h
  simp only [Write.run, hj, Option.any_some, hscheduled, decide_true, if_true, Option.some.injEq,
    Prod.mk.injEq] at hrun
  refine ⟨⟨t, .write (.deleteJobRun id now), .ok answer⟩, ?_, ?_⟩
  · rw [log_performs h]
    exact List.mem_cons_self
  · obtain ⟨rfl, -⟩ := hrun
    rfl

/-- What an update by the id of a task run relies on is so after it. -/
theorem taskRunHas_row {R : TaskRun → World → Prop} (hR : Lasting cond R)
    (h : Performs cond t o w r w') {x' : TaskRun} (hx' : x' ∈ w'.db.taskRuns.rows)
    (hhas : TaskRunHas R x'.id w) : R x' w' :=
  ((hR.permanent x'.id).performs h hhas).2 x' (Table.find_of_mem hx')

theorem dependencies_performs (hg : Gated cond) (ht : cond.Le (taskRuns lib).established)
    (hi : (dependencies lib).inv w) (hpre : (dependencies lib).pre t o w)
    (h : Performs cond t o w r w') : (dependencies lib).inv w' := by
  intro x' hx'
  have hfind' := Table.find_of_mem hx'
  have hbegin := mayBegin_lasting hg ht
  have hskip := maySkip_lasting hg ht
  -- what was so of the row before the step
  have hbegun : ∀ x, w.db.taskRuns.find x'.id = some x → TaskRun.Same x x' →
      x.status.hasBegun = true → MayBegin x' w' := by
    intro x hx hsame hstatus
    have hid : x.id = x'.id := Table.key_of_find hx
    exact hbegin.performs h (hid ▸ hx) (hid ▸ hfind') hsame
      ((hi x (Table.mem_of_find hx)).1 hstatus)
  rcases taskRun_origin h hfind' with hx | ⟨i, now, ho, -, -, -, -, hnew⟩ |
    ⟨x, hx, ⟨f, i, rfl, hok, hf, hnew⟩ | ⟨now, j, rfl, hok, hj, hscheduled, hnew⟩⟩
  · refine ⟨hbegun x' hx rfl, fun hskipped => ?_⟩
    exact hskip.performs h hx hfind' rfl ((hi x' (Table.mem_of_find hx)).2 hskipped)
  · -- a task run is planned when it is submitted
    have hallowed := allowed_of hg.base h
    rw [ho] at hallowed
    cases hallowed with
    | submitTask _ hplanned =>
        have hstatus : x'.status = .planned := by rw [hnew, ← hplanned]; rfl
        rw [hstatus]
        exact ⟨fun h => (by cases h), fun h => (by cases h)⟩
  · have hid : x.id = x'.id := Table.key_of_find hx
    have hsame : TaskRun.Same x x' := by rw [hnew]; rfl
    have hstatus : ∀ status, i.status = some status → x'.status = status := by
      intro status hset
      rw [hnew]
      simp [UpdateTaskRunsInput.patch, hset]
    have htask := (ht.1 _ _ _ _ _ h.2).2.1
    have hof : ∀ {n : Nat}, f.id = some n → x'.id = n :=
      fun hn => hid.symm.trans (updateTaskRunsFilter_holds_id hn hf)
    cases allowed_of hg.base h with
    | @endTaskRuns _ run status _ _ hs =>
        have hrun : x.jobRunId = run := updateTaskRunsFilter_holds_jobRun rfl hf
        rcases ((hg.halts.1 _ _ _ _ _ h.2).2.1 run rfl).2 with heq | ⟨heq, hhalted⟩
        · rcases hs with rfl | rfl <;> cases heq
        · rw [hstatus _ heq]
          refine ⟨fun h => (by cases h), fun _ => .inl ?_⟩
          have hrun' : x'.jobRunId = run := by rw [hnew, ← hrun]; rfl
          have hstays := not_removes h hfind'
          obtain ⟨j, hj⟩ := Option.isSome_iff_exists.mp
            ((linked_of hg.base h).1.jobRun_of_taskRun x (Table.mem_of_find hx))
          rcases hhalted.2 with hstopped | hgone
          · rw [hrun'] at hstays ⊢
            exact (isStopped_fate h hstopped).resolve_left hstays
          · rw [hrun, hgone] at hj
            cases hj
    | releaseTaskRuns =>
        rw [hstatus _ rfl]
        exact ⟨fun h => (by cases h), fun h => (by cases h)⟩
    | dropTaskRun hs =>
        obtain rfl := hof rfl
        rcases hs with rfl | rfl
        · rw [hstatus _ rfl]
          exact ⟨fun h => (by cases h), fun _ => taskRunHas_row hskip h hx' ((hpre _ rfl).2 rfl)⟩
        · cases (htask _ rfl).2 rfl
    | startTaskRun =>
        obtain rfl := hof rfl
        rw [hstatus _ rfl]
        exact ⟨fun _ => taskRunHas_row hbegin h hx' ((hpre _ rfl).1 rfl), fun h => (by cases h)⟩
    | settleTaskRun _ hskipped =>
        -- it was running
        obtain rfl := hof rfl
        have hrunning : x.status = .running := (htask _ rfl).1.2 x hx
        rw [hstatus _ rfl]
        exact ⟨fun _ => hbegun x hx hsame (by rw [hrunning]; rfl), fun heq => absurd heq hskipped⟩
  · have hstatus : x'.status = .skipped := by rw [hnew]
    have hrun : x'.jobRunId = x.jobRunId := by rw [hnew]
    rw [hstatus]
    refine ⟨fun h => (by cases h), fun _ => .inr (.inl ?_)⟩
    rw [hrun]
    exact deleted_of_performs h hok hj hscheduled

end Steps

/-! ## The dispatcher -/

namespace TaskRunDispatcher

/-- A dependency that is found settled has settled as it was found. -/
def FoundSettled (x : TaskRun) (taskId : String) (y : TaskRun) (w : World) : Prop :=
  y.status.isFinished = true → TaskRunHas (SettledAs y.status taskId) x.id w

theorem foundSettled_permanent (hg : Gated cond) (ht : cond.Le (taskRuns lib).established)
    (x : TaskRun) (taskId : String) (y : TaskRun) : Permanent cond (FoundSettled x taskId y) := by
  by_cases hfinished : y.status.isFinished = true
  · exact .imp_const ((settledAs_lasting hg ht hfinished taskId).permanent x.id)
  · exact ⟨fun _ _ h => absurd h hfinished, fun _ _ h => absurd h hfinished⟩

theorem dependencies_dependents (hg : Gated cond) (ht : cond.Le (taskRuns lib).established)
    (x : TaskRun) :
    (dependencies lib).Triple cond (.service .taskRunDispatcher) (TaskRunKnown x)
      (getDependentTaskRuns x) fun r w => TaskRunKnown x w ∧ ∀ ys, r = .ok ys →
        List.Forall₂ (fun taskId y => FoundSettled x taskId y w) x.dependsOn ys := by
  refine Triple.collect (R := FoundSettled x)
    (fun taskId y => (foundSettled_permanent hg ht x taskId y).stable _)
    (fun taskId => ?_) (fun taskId y z => .of_forall _ fun _ _ _ _ _ _ _ hperf hw =>
      (foundSettled_permanent hg ht x taskId y).performs hperf hw) x.dependsOn
  refine Triple.getTaskRun ((taskRunKnown_permanent x).stable _) (fun _ _ _ _ h => h)
    (fun _ w ho _ => ho.dependencies_pre _ w) fun w o r y _ _ hw hfind hholds _ => ?_
  refine ⟨hw.1, fun x' hx' => ?_⟩
  have hsame : x' = _ := hw.2 x' hx'
  have hfilter : (y.jobRunId = x.jobRunId ∧ y.jobId = x.jobId) ∧ y.taskId = taskId := by
    simpa [SelectTaskRunsFilter.holds, clause] using hholds
  refine ⟨y, Table.mem_of_find hfind, ?_, hfilter.2, rfl⟩
  rw [hsame]
  exact hfilter.1.1

/-- Asking for the stop of the task run's run. -/
theorem dependencies_stopped {P : World → Prop} (hP : Permanent cond P)
    (hlog : ∀ w o r, Silent o → P w →
      P { w with log := ⟨.service .taskRunDispatcher, o, r⟩ :: w.log })
    {x : TaskRun} (hknown : ∀ w, P w → TaskRunKnown x w) :
    (dependencies lib).Triple cond (.service .taskRunDispatcher) P (isJobRunStopped x.jobRunId)
      fun r w => P w ∧ (r = .ok true → TaskRunHas (fun x w => IsStopped w x.jobRunId) x.id w) := by
  refine Triple.bind (Triple.selectJobRunStop (hP.stable _) (fun w r h => hlog w _ r trivial h)
    fun w _ => Silent.dependencies_pre (o := .select _) trivial _ w)
    (fun stop => Triple.ret fun w _ h => ⟨h.1, fun htrue => ?_⟩)
    fun e w _ h => ⟨h.1, fun htrue => by cases htrue⟩
  cases stop with
  | none => cases htrue
  | some stop =>
      have hx := hknown w h.1
      refine ⟨hx.1, fun x' hx' => ?_⟩
      have hsame : x' = _ := hx.2 x' hx'
      rw [hsame]
      exact h.2 stop rfl

/-- What has been found of the dependencies. -/
def Found (x : TaskRun) (ys : List TaskRun) (w : World) : Prop :=
  TaskRunKnown x w ∧ List.Forall₂ (fun taskId y => FoundSettled x taskId y w) x.dependsOn ys

theorem found_permanent (hg : Gated cond) (ht : cond.Le (taskRuns lib).established)
    (x : TaskRun) (ys : List TaskRun) : Permanent cond (Found x ys) :=
  (taskRunKnown_permanent x).and (.forall₂ (foundSettled_permanent hg ht x) _ _)

theorem Found.log {x : TaskRun} {ys : List TaskRun} {w : World} {l : List Host.Event}
    (h : Found x ys w) : Found x ys { w with log := l } := h

/-- One that has settled badly is enough to skip the task run. -/
theorem Found.maySkip {x : TaskRun} {ys : List TaskRun} {w : World} (h : Found x ys w)
    (hany : ys.any (fun y => isUnsuccessful y.status) = true) : TaskRunHas MaySkip x.id w := by
  obtain ⟨y, hy, hbad⟩ := List.any_eq_true.mp hany
  obtain ⟨taskId, htask, hfound⟩ := exists_of_forall₂ h.2.flip y hy
  have hfinished : y.status.isFinished = true := by
    generalize y.status = status at hbad
    cases status <;> first | rfl | cases hbad
  obtain ⟨hid, hsettled⟩ := hfound hfinished
  refine ⟨hid, fun x' hx' => .inr (.inr ⟨taskId, ?_, y.status, hbad, hsettled x' hx'⟩)⟩
  have hsame : x' = _ := h.1.2 x' hx'
  rw [hsame]
  exact htask

/-- All of them have to have succeeded for it to begin. -/
theorem Found.mayBegin {x : TaskRun} {ys : List TaskRun} {w : World} (h : Found x ys w)
    (hall : allDependenciesSucceeded ys = true) : TaskRunHas MayBegin x.id w := by
  refine ⟨h.1.1, fun x' hx' taskId htask => ?_⟩
  have hsame : x' = _ := h.1.2 x' hx'
  rw [hsame] at htask
  obtain ⟨y, hy, hfound⟩ := exists_of_forall₂ h.2 taskId htask
  have hsucceeded : y.status = .succeeded := by simpa using List.all_eq_true.mp hall y hy
  have hsettled := (hfound (by rw [hsucceeded]; rfl)).2 x' hx'
  rwa [hsucceeded] at hsettled

theorem dependencies_shouldSkip (hg : Gated cond) (ht : cond.Le (taskRuns lib).established)
    (x : TaskRun) (ys : List TaskRun) :
    (dependencies lib).Triple cond (.service .taskRunDispatcher) (Found x ys) (shouldSkip x ys)
      fun r w => Found x ys w ∧ (r = .ok true → TaskRunHas MaySkip x.id w) := by
  refine Triple.bind (dependencies_stopped (found_permanent hg ht x ys) (fun _ _ _ _ h => h.log)
    fun w h => h.1) (fun isStopped => Triple.ret fun w _ h => ⟨h.1, fun htrue => ?_⟩)
    fun e w _ h => ⟨h.1, fun htrue => by cases htrue⟩
  rcases Bool.or_eq_true_iff.mp (Except.ok.inj htrue) with hstopped | hbad
  · obtain ⟨hid, hstop⟩ := h.2 (congrArg _ hstopped)
    exact ⟨hid, fun x' hx' => .inl (hstop x' hx')⟩
  · exact h.1.maySkip hbad

theorem dependencies_derive (hg : Gated cond) (ht : cond.Le (taskRuns lib).established)
    (x : TaskRun) :
    (dependencies lib).Triple cond (.service .taskRunDispatcher) (TaskRunKnown x)
      (deriveNextStatus x) fun r w => (r = .ok (some .running) → TaskRunHas MayBegin x.id w) ∧
        (r = .ok (some .skipped) → TaskRunHas MaySkip x.id w) := by
  refine Triple.bind (dependencies_dependents hg ht x) (fun ys => ?_)
    fun e w _ _ => ⟨fun h => (by cases h), fun h => (by cases h)⟩
  refine Triple.bind ((dependencies_shouldSkip hg ht x ys).pre fun w _ h => ⟨h.1, h.2 ys rfl⟩)
    (fun mustSkip => ?_) fun e w _ _ => ⟨fun h => (by cases h), fun h => (by cases h)⟩
  refine Triple.ret fun w _ hw => ⟨fun hrunning => ?_, fun hskipped => ?_⟩
  · refine hw.1.mayBegin ?_
    by_contra hnot
    have hstatus := Except.ok.inj hrunning
    rw [if_neg hnot] at hstatus
    split_ifs at hstatus <;> cases hstatus
  · refine hw.2 ?_
    by_contra hnot
    have hstatus := Except.ok.inj hskipped
    rw [if_neg fun h => hnot (congrArg _ h)] at hstatus
    split_ifs at hstatus <;> cases hstatus

theorem dependencies_handle (hg : Gated cond) (ht : cond.Le (taskRuns lib).established)
    (x : TaskRun) :
    (dependencies lib).Triple cond (.service .taskRunDispatcher) (TaskRunKnown x)
      (handleWaitingTaskRun x) fun _ _ => True := by
  -- the last write, behind a look at the clock
  have hwrite : ∀ {R : TaskRun → World → Prop} (_ : Lasting cond R)
      (i : Instant → UpdateTaskRunsInput),
      (∀ now w, TaskRunHas R x.id w → ((i now).status = some .running → TaskRunHas MayBegin x.id w) ∧
        ((i now).status = some .skipped → TaskRunHas MaySkip x.id w)) →
      (dependencies lib).Triple cond (.service .taskRunDispatcher) (TaskRunHas R x.id)
        (Crud.now.bind fun now => updateTaskRuns { id := some x.id } (i now)) fun _ _ => True := by
    intro R hR i hmay
    refine Triple.seq (Triple.permanent (hR.permanent x.id)
      (now_silent.mono fun o ho w _ _ => ho.dependencies_pre _ w)) fun now => ?_
    refine Triple.perform ((hR.permanent x.id).stable _) (fun w r w' _ hw _ id hid => ?_)
      fun _ _ _ _ _ _ _ => trivial
    cases hid
    exact hmay now w hw
  refine Triple.seq ((dependencies_derive hg ht x).ends (taskRunDispatcher_ends x)) fun status => ?_
  refine Triple.of_fact (fun _ _ h => h.2 status rfl) fun hstatus => ?_
  rcases hstatus with rfl | rfl | rfl
  · exact (hwrite (maySkip_lasting hg ht) _ fun now w h =>
      ⟨fun h => (by cases h), fun _ => h⟩).pre fun w _ h => h.1.2 rfl
  · exact Triple.ret fun _ _ _ => trivial
  · exact (hwrite (mayBegin_lasting hg ht) _ fun now w h =>
      ⟨fun _ => h, fun h => by cases h⟩).pre fun w _ h => h.1.1 rfl

end TaskRunDispatcher

theorem dependencies_valid (hg : Gated cond) (ht : cond.Le (taskRuns lib).established) :
    (dependencies lib).Valid cond where
  init w hw := by
    have hw : w = .fresh := hw
    subst hw
    exact ⟨fun x hx => absurd hx List.not_mem_nil, fun _ => trivial⟩
  step _ _ _ _ _ hi hpre h := dependencies_performs hg ht hi hpre h
  env w w' kill hi h := by
    refine ⟨fun x hx => ?_, fun _ _ => trivial⟩
    rw [happens_db h] at hx
    exact ⟨fun hbegun => (mayBegin_lasting hg ht).happens h ((hi x hx).1 hbegun),
      fun hskipped => (maySkip_lasting hg ht).happens h ((hi x hx).2 hskipped)⟩
  idle t := stable_true t
  start := by
    -- nobody else starts or skips a task run by its id
    have hothers : ∀ {t : Tid}, t ≠ .service .taskRunDispatcher →
        ∀ {P : World → Prop} (p : Code Unit),
          (dependencies lib).Triple cond t P p fun _ _ => True := by
      intro t hdispatcher P p
      refine Triple.of_pre fun o w r w' _ hperf => ?_
      have hallowed := allowed_of hg.base hperf
      cases o with
      | write q =>
          cases q with
          | updateTaskRuns f i =>
              intro id hid
              cases hallowed with
              | endTaskRuns | releaseTaskRuns => cases hid
              | dropTaskRun | startTaskRun => exact absurd rfl hdispatcher
              | settleTaskRun hfinished hskipped =>
                  refine ⟨fun h => ?_, fun h => absurd (Option.some.inj h) hskipped⟩
                  cases h
                  cases hfinished
          | _ => trivial
      | _ => trivial
    refine start_triple (fun config fuel s => ?_) fun c r => hothers (by nofun) _
    refine Triple.pre ?_ fun _ _ _ => trivial
    cases s with
    | taskRunDispatcher =>
        refine Poller.pass_triple (P := fun _ => True) (K := TaskRunKnown)
          (R := fun x y : TaskRun => x.id ≠ y.id) ?_
          (fun x => (taskRunKnown_permanent x).stable _)
          (fun x => (TaskRunDispatcher.dependencies_handle hg ht x).pre fun _ _ h => h.2)
          fun x y _ => Prog.Uses.of_forall _ fun o w r w' _ _ _ hperf hy =>
            taskRunKnown_performs hperf hy
        exact Triple.selectTaskRuns (stable_true _) (fun _ _ _ => trivial) (fun _ _ => trivial)
          fun w r x _ _ hfind _ => taskRunKnown_of_find (w := w) hfind
    | _ => exact hothers (by nofun) _

/-! ## All of it at once -/

/-- What holds of every run of the system in which what is released is also started, as far
as it is about task runs. -/
structure Ordered (cond : (flowlite lib).Condition) : Prop where
  gated : Gated cond
  grounded : Grounded cond
  taskRuns : cond.Le (taskRuns lib).established
  dependencies : cond.Le (dependencies lib).established

theorem ordered_of_starts (hc : cond.Le (startsReleased lib)) :
    ∃ cond', Entails cond cond' ∧ Ordered cond' := by
  obtain ⟨c₀, h₀, hg⟩ := gated_of_starts hc
  obtain ⟨c₁, h₁, hattempts⟩ := (attempts_valid hg.base).entails
  have hg₁ := hg.mono h₁.le
  obtain ⟨c₂, h₂, hretries⟩ := (retries_valid hg₁.base hattempts hg₁.releases).entails
  obtain ⟨c₃, h₃, hsameJob⟩ := (sameJob_valid (hg₁.mono h₂.le).base).entails
  have hg₃ := (hg₁.mono h₂.le).mono h₃.le
  obtain ⟨c₄, h₄, htaskRuns⟩ := (taskRuns_valid hg₃).entails
  obtain ⟨c₅, h₅, hdependencies⟩ := (dependencies_valid (hg₃.mono h₄.le) htaskRuns).entails
  have hg₅ := (hg₃.mono h₄.le).mono h₅.le
  refine ⟨c₅, ((((h₀.trans h₁).trans h₂).trans h₃).trans h₄).trans h₅, hg₅, ?_,
    h₅.le.trans htaskRuns, hdependencies⟩
  exact {
    base := hg₅.base
    attempts := h₅.le.trans (h₄.le.trans (h₃.le.trans (h₂.le.trans hattempts)))
    releases := hg₅.releases
    retries := h₅.le.trans (h₄.le.trans (h₃.le.trans hretries))
    sameJob := h₅.le.trans (h₄.le.trans hsameJob) }

theorem Ordered.mono {cond' : (flowlite lib).Condition} (ho : Ordered cond) (h : cond'.Le cond) :
    Ordered cond' where
  gated := ho.gated.mono h
  grounded := ⟨h.trans ho.grounded.base, h.trans ho.grounded.attempts,
    h.trans ho.grounded.releases, h.trans ho.grounded.retries, h.trans ho.grounded.sameJob⟩
  taskRuns := h.trans ho.taskRuns
  dependencies := h.trans ho.dependencies

end Flowlite

import Flowlite.Logic.Attempts
import Flowlite.Logic.Releases

/-!
# The attempts of a task run

`TaskRunMonitor` adds every attempt, after a look at the last one: the first to a task run
that has none, another after a failed one. `retries` is the outline that numbers them from
1, one by one, and lets a task run fail only behind the last one it may have.
-/

namespace Flowlite

open Store Host Threads Crud Machine Outline

variable {lib : Library} {cond : (flowlite lib).Condition} {O : Outline (flowlite lib)}

/-! ## Rows stay with their run -/

/-- While its run is there, the row is there, under the same run and the same parent. -/
def Stays {Row : Type} [Keyed Row] (table : Database → Table Row) (run parent : Row → Nat)
    (x : Row) (w : World) : Prop :=
  run x < w.db.jobRuns.next ∧ ((w.db.jobRuns.find (run x)).isSome = true →
    ∃ x', (table w.db).find (Keyed.key x) = some x' ∧ run x' = run x ∧ parent x' = parent x)

theorem stays_permanent {Row : Type} [Keyed Row] {table : Database → Table Row}
    {run parent : Row → Nat} {x : Row}
    (hfate : ∀ t o w r w', Performs cond t o w r w' → ∀ y,
      (table w.db).find (Keyed.key x) = some y → Removes w o r (run y) ∨
        ∃ y', (table w'.db).find (Keyed.key x) = some y' ∧ run y' = run y ∧ parent y' = parent y) :
    Permanent cond (Stays table run parent x) where
  performs {_ _ _ _ _} h hw := by
    refine ⟨lt_of_lt_of_le hw.1 (jobRuns_next_le h), fun hthere => ?_⟩
    obtain ⟨y, hy, hrun, hparent⟩ := hw.2 (jobRun_there_before h hw.1 hthere)
    rcases hfate _ _ _ _ _ h y hy with hremoves | ⟨y', hy', hrun', hparent'⟩
    · rw [hrun] at hremoves
      rw [(hremoves.gone h).1] at hthere
      cases hthere
    · exact ⟨y', hy', hrun'.trans hrun, hparent'.trans hparent⟩
  happens h hw := by
    unfold Stays
    rwa [happens_db h]

/-- The attempt is there, as long as its run is. -/
abbrev AttemptStays (a : TaskRunAttempt) : World → Prop :=
  Stays Database.taskRunAttempts TaskRunAttempt.jobRunId TaskRunAttempt.taskRunId a

theorem attemptStays_permanent (a : TaskRunAttempt) : Permanent cond (AttemptStays a) :=
  stays_permanent fun _ _ _ _ _ h y hy => (taskRunAttempt_fate h hy).imp_right
    fun ⟨y', hy', hsame⟩ => by
      have hsame : y' = _ := hsame
      exact ⟨y', hy', by rw [hsame], by rw [hsame]⟩

theorem attemptStays_of_find {a : TaskRunAttempt} {w : World} (hi : Linked w.db)
    (h : w.db.taskRunAttempts.find a.id = some a) : AttemptStays a w := by
  obtain ⟨j, hj⟩ := Option.isSome_iff_exists.mp (hi.jobRun_of_attempt a (Table.mem_of_find h))
  exact ⟨Table.lt_next_of_find hj, fun _ => ⟨a, h, rfl, rfl⟩⟩

/-! ## The rows -/

/-- The attempts of a task run. -/
def Store.Database.attemptsOf (db : Database) (id : Nat) : List TaskRunAttempt :=
  db.taskRunAttempts.rows.filter fun a => a.taskRunId = id

theorem mem_attemptsOf {db : Database} {id : Nat} {a : TaskRunAttempt} :
    a ∈ db.attemptsOf id ↔ a ∈ db.taskRunAttempts.rows ∧ a.taskRunId = id := by
  simp [Database.attemptsOf]

/-- The attempts of the task run are numbered from 1 to `k`, and only the last of them has
not failed. -/
structure Numbered (db : Database) (id k : Nat) : Prop where
  within : ∀ a ∈ db.attemptsOf id, 1 ≤ a.attempt ∧ a.attempt ≤ k
  each : ∀ n, 1 ≤ n → n ≤ k → ∃ a ∈ db.attemptsOf id, a.attempt = n
  once : ∀ a ∈ db.attemptsOf id, ∀ b ∈ db.attemptsOf id, a.attempt = b.attempt → a = b
  failed : ∀ a ∈ db.attemptsOf id, a.attempt < k → a.status = .failed

/-- There is one last number. -/
theorem Numbered.unique {db : Database} {id k n : Nat} (hk : Numbered db id k)
    (hn : Numbered db id n) : k = n := by
  have hle : ∀ {k n : Nat}, Numbered db id k → Numbered db id n → k ≤ n := by
    intro k n hk hn
    by_contra hlt
    obtain ⟨a, ha, hattempt⟩ := hk.each k (by omega) le_rfl
    have hbounds := hn.within a ha
    omega
  exact le_antisymm (hle hk hn) (hle hn hk)

/-- All of them have failed. -/
def AllFailed (db : Database) (id : Nat) : Prop :=
  ∀ a ∈ db.attemptsOf id, a.status = .failed

/-- As many attempts as the code lets a task run have. -/
def Store.TaskRun.mostAttempts (x : TaskRun) : Nat :=
  max 1 (TaskRunMonitor.addU32 x.maxRetries 1)

/-- What the code keeps of the attempts of a task run. -/
structure Retried (db : Database) (x : TaskRun) (k : Nat) : Prop where
  numbered : Numbered db x.id k
  most : k ≤ x.mostAttempts
  settled : x.status = .failed → AllFailed db x.id ∧ k = x.mostAttempts

/-- The task run, if it is still there, has `n` attempts, and all of them have failed. -/
def FailedThrough (id n : Nat) (w : World) : Prop :=
  id < w.db.taskRuns.next ∧
    ((w.db.taskRuns.find id).isSome = true → Numbered w.db id n ∧ AllFailed w.db id)

/-- The number of an attempt that is added is the next one, after failed ones only, and a
task run fails behind its last one. -/
def retries (lib : Library) : Outline (flowlite lib) where
  inv w := Linked w.db ∧ ∀ x ∈ w.db.taskRuns.rows, ∃ k, Retried w.db x k
  pre _ o w :=
    match o with
    | .write (.insertTaskRunAttempt i) => ∃ n, i.attempt = n + 1 ∧ FailedThrough i.taskRunId n w ∧
        ∀ x ∈ w.db.taskRuns.rows, x.id = i.taskRunId → n + 1 ≤ x.mostAttempts
    | .write (.updateTaskRuns f i) => i.status = some .failed →
        ∀ x ∈ w.db.taskRuns.rows, f.holds x = true → FailedThrough x.id x.mostAttempts w
    | _ => True
  idle _ _ := True

/-! ## One step -/

section Steps

variable {t : Tid} {o : Op} {w w' : World} {r : Result o}

/-- The step adds an attempt to the task run. -/
def AddsAttempt (id : Nat) (o : Op) (r : Result o) : Prop :=
  Succeeded r ∧ ∃ i, o = .write (.insertTaskRunAttempt i) ∧ i.taskRunId = id

/-- A failed attempt stays so. -/
theorem failed_stays (ha : cond.Le (attempts lib).established) (h : Performs cond t o w r w')
    {x x' : TaskRunAttempt} (hx : w.db.taskRunAttempts.find x.id = some x)
    (hx' : w'.db.taskRunAttempts.find x.id = some x') (hfailed : x.status = .failed) :
    x'.status = .failed := by
  obtain ⟨y, hy, heq | ⟨f, i, rfl, -, hf, hset⟩⟩ :=
    attemptStatus_performs h (Table.lt_next_of_find hx) hx'
  · cases hx.symm.trans hy
    rw [heq, hfailed]
  · cases hx.symm.trans hy
    have hfrom := (ha.1 _ _ _ _ _ h.2).2.1 f i rfl (by rw [hset]; rfl) x.id x hx hf
    rw [hfailed] at hfrom
    unfold AttemptFrom at hfrom
    split at hfrom <;> cases hfrom

/-- An attempt of the task run after a step was one before it. -/
theorem attemptsOf_before (ha : cond.Le (attempts lib).established)
    (h : Performs cond t o w r w') {id : Nat} (hadds : ¬ AddsAttempt id o r)
    {a' : TaskRunAttempt} (ha' : a' ∈ w'.db.attemptsOf id) :
    ∃ a ∈ w.db.attemptsOf id, a.attempt = a'.attempt ∧ (a.status = .failed → a'.status = .failed) := by
  obtain ⟨hrow, rfl⟩ := mem_attemptsOf.mp ha'
  have hfind := Table.find_of_mem hrow
  rcases taskRunAttempt_origin h hfind with hbefore | ⟨i, now, ho, hok, -, -, -, -, hnew⟩ |
    ⟨a, hbefore, f, i, -, -, -, hnew⟩
  · exact ⟨a', mem_attemptsOf.mpr ⟨Table.mem_of_find hbefore, rfl⟩, rfl, id⟩
  · refine absurd ⟨hok, i, ho, ?_⟩ hadds
    rw [hnew]
    rfl
  · have hkey : a.id = a'.id := Table.key_of_find hbefore
    refine ⟨a, mem_attemptsOf.mpr ⟨Table.mem_of_find hbefore, by rw [hnew]; rfl⟩, by rw [hnew]; rfl,
      failed_stays ha h ?_ ?_⟩
    · rw [hkey]
      exact hbefore
    · rw [hkey]
      exact hfind

/-- As long as the task run is there, so are its attempts. -/
theorem attemptsOf_after (hr : cond.Le (releases lib).established)
    (h : Performs cond t o w r w') {x x' : TaskRun} (hx : w.db.taskRuns.find x.id = some x)
    (hx' : w'.db.taskRuns.find x.id = some x') {a : TaskRunAttempt}
    (hmem : a ∈ w.db.attemptsOf x.id) : ∃ a' ∈ w'.db.attemptsOf x.id, a'.attempt = a.attempt := by
  obtain ⟨hrow, hid⟩ := mem_attemptsOf.mp hmem
  rcases taskRunAttempt_fate h (Table.find_of_mem hrow) with hremoves | ⟨a', hafter, hsame⟩
  · -- removed with its run, and so would the task run be
    have hrun := ((hr.1 _ _ _ _ _ h.2).1.attempted a hrow).2 x (Table.mem_of_find hx) hid.symm
    have hsame : x' = _ := (taskRunKnown_performs h (taskRunKnown_of_find hx)).2 x' hx'
    refine absurd ?_ ((hremoves.gone h).2.1 x' (Table.mem_of_find hx'))
    rw [hsame]
    exact hrun.1.symm
  · have hsame : a' = _ := hsame
    refine ⟨a', mem_attemptsOf.mpr ⟨Table.mem_of_find hafter, ?_⟩, ?_⟩
    · rw [hsame]
      exact hid
    · rw [hsame]

/-- What a step leaves of the numbers of the attempts. -/
theorem Numbered.kept (hb : cond.Le (base lib).established)
    (ha : cond.Le (attempts lib).established) (hr : cond.Le (releases lib).established)
    (h : Performs cond t o w r w') {x x' : TaskRun} (hx : w.db.taskRuns.find x.id = some x)
    (hx' : w'.db.taskRuns.find x.id = some x') (hadds : ¬ AddsAttempt x.id o r) {k : Nat}
    (hnumbered : Numbered w.db x.id k) : Numbered w'.db x.id k where
  within a' ha' := by
    obtain ⟨a, hmem, hattempt, -⟩ := attemptsOf_before ha h hadds ha'
    rw [← hattempt]
    exact hnumbered.within a hmem
  each n hn hle := by
    obtain ⟨a, hmem, hattempt⟩ := hnumbered.each n hn hle
    rw [← hattempt]
    exact attemptsOf_after hr h hx hx' hmem
  once a' ha' b' hb' hattempt := by
    obtain ⟨ha', hid⟩ := mem_attemptsOf.mp ha'
    obtain ⟨hb', hid'⟩ := mem_attemptsOf.mp hb'
    exact Table.eq_of_key ha' hb'
      ((linked_of hb h).2.attempt_unique a' ha' b' hb' (hid.trans hid'.symm) hattempt)
  failed a' ha' hlt := by
    obtain ⟨a, hmem, hattempt, hfailed⟩ := attemptsOf_before ha h hadds ha'
    exact hfailed (hnumbered.failed a hmem (by rwa [hattempt]))

theorem AllFailed.kept (ha : cond.Le (attempts lib).established) (h : Performs cond t o w r w')
    {id : Nat} (hadds : ¬ AddsAttempt id o r) (hall : AllFailed w.db id) :
    AllFailed w'.db id := by
  intro a' ha'
  obtain ⟨a, hmem, -, hfailed⟩ := attemptsOf_before ha h hadds ha'
  exact hfailed (hall a hmem)

/-- The attempt that was added is there, and it is the only new one. -/
theorem insertTaskRunAttempt_rows {i : InsertTaskRunAttemptInput} {n : Nat}
    (h : Performs cond t (.write (.insertTaskRunAttempt i)) w (.ok n) w') :
    ∃ now, w'.db.taskRunAttempts = w.db.taskRunAttempts.insert (i.draft now) := by
  obtain ⟨now, hrun⟩ := write_ok h
  simp only [Write.run, Option.ite_none_right_eq_some, Option.some.injEq, Prod.mk.injEq] at hrun
  obtain ⟨-, -, hdb⟩ := hrun
  exact ⟨now, by rw [← hdb]⟩

/-- The next attempt, after failed ones. -/
theorem Numbered.add (hb : cond.Le (base lib).established) {i : InsertTaskRunAttemptInput}
    {m n : Nat} (h : Performs cond t (.write (.insertTaskRunAttempt i)) w (.ok m) w')
    (hattempt : i.attempt = n + 1) (hnumbered : Numbered w.db i.taskRunId n)
    (hall : AllFailed w.db i.taskRunId) : Numbered w'.db i.taskRunId (n + 1) := by
  obtain ⟨now, hrows⟩ := insertTaskRunAttempt_rows h
  have hmem : ∀ a, a ∈ w'.db.attemptsOf i.taskRunId ↔
      a ∈ w.db.attemptsOf i.taskRunId ∨ a = (i.draft now).row w.db.taskRunAttempts.next := by
    intro a
    rw [mem_attemptsOf, mem_attemptsOf, hrows, Table.mem_insert, or_and_right]
    refine or_congr Iff.rfl ⟨And.left, fun heq => ⟨heq, ?_⟩⟩
    rw [heq]
    rfl
  have hnew : ((i.draft now).row w.db.taskRunAttempts.next).attempt = n + 1 := hattempt
  refine ⟨fun a ha' => ?_, fun m hm hle => ?_, fun a ha' b hb' heq => ?_, fun a ha' hlt => ?_⟩
  · rcases (hmem a).mp ha' with hold | heq
    · have hbounds := hnumbered.within a hold
      omega
    · rw [heq, hnew]
      omega
  · rcases Nat.lt_or_ge n m with hlt | hge
    · exact ⟨_, (hmem _).mpr (.inr rfl), by omega⟩
    · obtain ⟨a, hold, ha'⟩ := hnumbered.each m hm hge
      exact ⟨a, (hmem a).mpr (.inl hold), ha'⟩
  · obtain ⟨ha', hid⟩ := mem_attemptsOf.mp ha'
    obtain ⟨hb', hid'⟩ := mem_attemptsOf.mp hb'
    exact Table.eq_of_key ha' hb'
      ((linked_of hb h).2.attempt_unique a ha' b hb' (hid.trans hid'.symm) heq)
  · rcases (hmem a).mp ha' with hold | heq
    · exact hall a hold
    · rw [heq, hnew] at hlt
      exact absurd hlt (lt_irrefl _)

/-- A task run after a step: a new one, or one of before, which fails only where it may. -/
theorem taskRun_moved (hb : cond.Le (base lib).established) (hpre : (retries lib).pre t o w)
    (h : Performs cond t o w r w') {x' : TaskRun} (hx' : x' ∈ w'.db.taskRuns.rows) :
    (x'.id = w.db.taskRuns.next ∧ x'.status ≠ .failed ∧ ¬ WritesTaskRunAttempts o) ∨
      ∃ x, w.db.taskRuns.find x.id = some x ∧ TaskRun.Same x x' ∧ (x'.status = .failed →
        x.status = .failed ∨
          FailedThrough x.id x.mostAttempts w ∧ ¬ WritesTaskRunAttempts o) := by
  rcases taskRun_origin h (Table.find_of_mem hx') with hx | ⟨i, now, ho, -, hid, -, -, hnew⟩ |
    ⟨x, hx, ⟨f, i, ho, -, hf, hnew⟩ | ⟨now, j, -, -, -, -, hnew⟩⟩
  · exact .inr ⟨x', hx, rfl, .inl⟩
  · -- a task run is planned when it is submitted
    have hallowed := allowed_of hb h
    rw [ho] at hallowed
    cases hallowed with
    | submitTask _ hplanned =>
        refine .inl ⟨hid, ?_, by rw [ho]; exact id⟩
        rw [hnew]
        simp [InsertTaskRunInput.draft, hplanned]
  · have hkey : x.id = x'.id := Table.key_of_find hx
    refine .inr ⟨x, by rw [hkey]; exact hx, by rw [hnew]; rfl, fun hfailed => ?_⟩
    subst ho
    cases hset : i.status with
    | none =>
        refine .inl ?_
        rw [hnew] at hfailed
        simpa [UpdateTaskRunsInput.patch, hset] using hfailed
    | some status =>
        have hstatus : status = .failed := by
          rw [hnew] at hfailed
          simpa [UpdateTaskRunsInput.patch, hset] using hfailed
        exact .inr ⟨hpre (by rw [hset, hstatus]) x (Table.mem_of_find hx) hf, id⟩
  · have hkey : x.id = x'.id := Table.key_of_find hx
    refine .inr ⟨x, by rw [hkey]; exact hx, by rw [hnew]; rfl, fun hfailed => ?_⟩
    rw [hnew] at hfailed
    cases hfailed

theorem retries_step (hb : cond.Le (base lib).established)
    (ha : cond.Le (attempts lib).established) (hr : cond.Le (releases lib).established)
    (hi : (retries lib).inv w) (hpre : (retries lib).pre t o w) (h : Performs cond t o w r w') :
    (retries lib).inv w' := by
  refine ⟨(linked_of hb h).2, fun x' hx' => ?_⟩
  rcases taskRun_moved hb hpre h hx' with ⟨hid, hstatus, ho⟩ | ⟨x, hx, hsame, hfails⟩
  · -- nothing refers to a task run that is new
    have hnone : ∀ a, a ∉ w'.db.attemptsOf x'.id := by
      intro a hmem
      obtain ⟨hrow, htask⟩ := mem_attemptsOf.mp hmem
      rw [taskRunAttempts_kept h ho] at hrow
      obtain ⟨y, hy⟩ := Option.isSome_iff_exists.mp (hi.1.taskRun_of_attempt a hrow)
      have hlt := Table.lt_next_of_find hy
      omega
    refine ⟨0, ⟨fun a hmem => absurd hmem (hnone a), fun n _ _ => by omega,
      fun a hmem => absurd hmem (hnone a), fun a hmem => absurd hmem (hnone a)⟩, Nat.zero_le _,
      fun hfailed => absurd hfailed hstatus⟩
  · have hsame : x' = _ := hsame
    have hid : x'.id = x.id := by rw [hsame]
    have hmost : x'.mostAttempts = x.mostAttempts := by rw [hsame]; rfl
    have hafter : w'.db.taskRuns.find x.id = some x' := by
      rw [← hid]
      exact Table.find_of_mem hx'
    obtain ⟨k, hretried⟩ := hi.2 x (Table.mem_of_find hx)
    by_cases hadds : AddsAttempt x.id o r
    · obtain ⟨⟨m, rfl⟩, i, rfl, htask⟩ := hadds
      obtain ⟨n, hattempt, hthrough, hroom⟩ := hpre
      obtain ⟨hnumbered, hall⟩ := hthrough.2 (by rw [htask, hx]; rfl)
      have hroom := hroom x (Table.mem_of_find hx) htask.symm
      have hadd := Numbered.add hb h hattempt hnumbered hall
      rw [htask] at hnumbered hadd
      refine ⟨n + 1, hid ▸ hadd, hmost ▸ hroom, fun hfailed => ?_⟩
      -- there is room for one more, so it had not failed yet
      rcases hfails hfailed with hbefore | ⟨-, ho⟩
      · have hk := (hretried.settled hbefore).2
        have hsame := hretried.numbered.unique hnumbered
        omega
      · exact absurd trivial ho
    · have hkept := Numbered.kept hb ha hr h hx hafter hadds hretried.numbered
      refine ⟨k, hid ▸ hkept, hmost ▸ hretried.most, fun hfailed => ?_⟩
      rw [hid, hmost]
      rcases hfails hfailed with hbefore | ⟨hthrough, -⟩
      · obtain ⟨hall, hk⟩ := hretried.settled hbefore
        exact ⟨hall.kept ha h hadds, hk⟩
      · obtain ⟨hnumbered, hall⟩ := hthrough.2 (by rw [hx]; rfl)
        exact ⟨hall.kept ha h hadds, hretried.numbered.unique hnumbered⟩

/-- Only the monitor adds attempts. -/
theorem failedThrough_kept (hb : cond.Le (base lib).established)
    (ha : cond.Le (attempts lib).established) (hr : cond.Le (releases lib).established)
    (h : Performs cond t o w r w') {id n : Nat} (hadds : ¬ AddsAttempt id o r)
    (hthrough : FailedThrough id n w) : FailedThrough id n w' := by
  refine ⟨lt_of_lt_of_le hthrough.1 (taskRuns_next_le h), fun hsome => ?_⟩
  obtain ⟨x', hx'⟩ := Option.isSome_iff_exists.mp hsome
  have hid : x'.id = id := Table.key_of_find hx'
  rcases taskRun_before h (Table.mem_of_find hx') with ⟨x, hrow, hsame⟩ | ⟨-, -, hnew, -⟩
  · have hsame : x' = _ := hsame
    have hxid : x.id = id := by rw [← hid, hsame]
    subst hxid
    have hx : w.db.taskRuns.find x.id = some x := Table.find_of_mem hrow
    obtain ⟨hnumbered, hall⟩ := hthrough.2 (by rw [hx]; rfl)
    exact ⟨hnumbered.kept hb ha hr h hx hx' hadds, hall.kept ha h hadds⟩
  · have hlt := hthrough.1
    omega

end Steps

/-! ## The monitor -/

theorem Silent.retries_pre {o : Op} (h : Silent o) (t : Tid) (w : World) :
    (retries lib).pre t o w := by
  cases o <;> trivial

namespace TaskRunMonitor

abbrev thread : Tid := .service .taskRunMonitor

/-- What the last attempt of a task run says of the others. -/
def LastKnown (x : TaskRun) : Option TaskRunAttempt → World → Prop
  | none, w => FailedThrough x.id 0 w
  | some a, w => a.status = .failed →
      (1 ≤ a.attempt ∧ a.attempt ≤ x.mostAttempts) ∧ FailedThrough x.id a.attempt w

theorem lastKnown_log {x : TaskRun} {last : Option TaskRunAttempt} {w : World}
    {l : List Host.Event} : LastKnown x last { w with log := l } ↔ LastKnown x last w := by
  cases last <;> rfl

section Monitor

variable {x : TaskRun}

theorem failedThrough_stable (hb : cond.Le (base lib).established)
    (ha : cond.Le (attempts lib).established) (hr : cond.Le (releases lib).established)
    (id n : Nat) : (retries lib).Stable cond thread (FailedThrough id n) := by
  intro w w' hothers hw
  cases hothers with
  | run hu _ _ _ hperf =>
      refine failedThrough_kept hb ha hr hperf ?_ hw
      rintro ⟨-, i, rfl, -⟩
      cases allowed_of hb hperf
      exact hu rfl
  | env _ _ _ hhappens =>
      unfold FailedThrough
      rwa [happens_db hhappens]

theorem taskRunKnown_stable (t : Tid) (x : TaskRun) : O.Stable cond t (TaskRunKnown x) := by
  intro w w' hothers hw
  cases hothers with
  | run _ _ _ _ hperf => exact taskRunKnown_performs hperf hw
  | env _ _ _ hhappens => exact taskRunKnown_happens hhappens hw

/-- The rows in order of their numbers: the last one has the greatest. -/
theorem lastKnown_of_rows {w : World} (hi : (retries lib).inv w) (hx : TaskRunKnown x w)
    {rows : List TaskRunAttempt}
    (hmem : ∀ a, a ∈ rows ↔ a ∈ w.db.attemptsOf x.id)
    (hsorted : rows.Pairwise fun a b => a.attempt ≤ b.attempt) :
    LastKnown x rows.getLast? w := by
  obtain ⟨hlinked, hretried⟩ := hi
  have hthere : ∀ y, w.db.taskRuns.find x.id = some y → ∃ k, Numbered w.db x.id k ∧
      k ≤ x.mostAttempts := by
    intro y hy
    obtain ⟨k, hk⟩ := hretried y (Table.mem_of_find hy)
    have hsame : y = _ := hx.2 y hy
    have hid : y.id = x.id := by rw [hsame]
    have hmost : y.mostAttempts = x.mostAttempts := by rw [hsame]; rfl
    exact ⟨k, hid ▸ hk.numbered, hmost ▸ hk.most⟩
  cases hlast : rows.getLast? with
  | none =>
    refine ⟨hx.1, fun hsome => ?_⟩
    obtain ⟨y, hy⟩ := Option.isSome_iff_exists.mp hsome
    obtain ⟨k, hnumbered, -⟩ := hthere y hy
    have hnone : ∀ a, a ∉ w.db.attemptsOf x.id := by
      intro a ha
      have hin := (hmem a).mpr ha
      rw [List.getLast?_eq_none_iff.mp hlast] at hin
      cases hin
    have hzero : k = 0 := by
      by_contra hne
      obtain ⟨a, ha, -⟩ := hnumbered.each k (by omega) le_rfl
      exact hnone a ha
    subst hzero
    exact ⟨hnumbered, fun a ha => absurd ha (hnone a)⟩
  | some a =>
    intro hfailed
    have ha := (hmem a).mp (List.mem_of_getLast? hlast)
    obtain ⟨hrow, htask⟩ := mem_attemptsOf.mp ha
    obtain ⟨y, hy⟩ := Option.isSome_iff_exists.mp (hlinked.taskRun_of_attempt a hrow)
    rw [htask] at hy
    obtain ⟨k, hnumbered, hmost⟩ := hthere y hy
    have hbounds := hnumbered.within a ha
    have hgreatest : ∀ b ∈ w.db.attemptsOf x.id, b.attempt ≤ a.attempt := by
      intro b hb
      obtain ⟨before, rfl⟩ := List.getLast?_eq_some_iff.mp hlast
      rcases List.mem_append.mp ((hmem b).mpr hb) with hin | hin
      · exact (List.pairwise_append.mp hsorted).2.2 b hin a (List.mem_singleton.mpr rfl)
      · rw [List.mem_singleton.mp hin]
    have hk : k = a.attempt := by
      obtain ⟨b, hb, hlast⟩ := hnumbered.each k (by omega) le_rfl
      have hle := hgreatest b hb
      omega
    subst hk
    refine ⟨⟨hbounds.1, hmost⟩, hx.1, fun _ => ⟨hnumbered, fun b hb => ?_⟩⟩
    rcases Nat.lt_or_ge b.attempt a.attempt with hlt | hge
    · exact hnumbered.failed b hb hlt
    · rw [hnumbered.once b hb a ha (le_antisymm (hgreatest b hb) hge)]
      exact hfailed

theorem retries_last (x : TaskRun) :
    (retries lib).Triple cond thread (TaskRunKnown x) (selectLastTaskRunAttempt x)
      fun r w => TaskRunKnown x w ∧ ∀ last, r = .ok last → LastKnown x last w := by
  refine Triple.bind (Triple.select
      (q := .taskRunAttempts { taskRunId := some x.id } (some .attempt))
      (Q := fun (rows : List TaskRunAttempt) w => LastKnown x rows.getLast? w)
      (taskRunKnown_stable _ x) (fun _ _ h => h) (fun w _ => trivial)
      fun w hi hx => ?_)
    (fun rows => Triple.ret fun w _ h => ⟨h.1, ?_⟩) fun e w _ h => ⟨h.1, fun _ h => nomatch h⟩
  · rw [lastKnown_log]
    refine lastKnown_of_rows hi hx (fun a => ?_) (orderByAttempt_sorted _)
    show a ∈ w.db.selectTaskRunAttempts { taskRunId := some x.id } (some .attempt) ↔ _
    rw [Database.mem_selectTaskRunAttempts, mem_attemptsOf]
    refine and_congr ⟨Table.mem_of_find, Table.find_of_mem⟩ ?_
    simp [SelectTaskRunAttemptsFilter.holds, clause]
  · intro last hlast
    cases hlast
    exact h.2 rows rfl

/-- The next attempt goes in where there is room for one more. -/
theorem retries_insert (hb : cond.Le (base lib).established)
    (ha : cond.Le (attempts lib).established) (hr : cond.Le (releases lib).established)
    {n : Nat} (hroom : n + 1 ≤ x.mostAttempts) :
    (retries lib).Triple cond thread (fun w => TaskRunKnown x w ∧ FailedThrough x.id n w)
      (insertTaskRunAttempt (attemptInput x (n + 1))) fun _ => TaskRunKnown x := by
  refine Triple.perform ((taskRunKnown_stable _ x).and (failedThrough_stable hb ha hr x.id n))
    (fun w r w' _ hw _ => ?_) fun w r w' _ hw hperf _ => taskRunKnown_performs hperf hw.1
  refine ⟨n, rfl, hw.2, fun y hy hid => ?_⟩
  have hid : y.id = x.id := hid
  have hfind : w.db.taskRuns.find y.id = some y := Table.find_of_mem hy
  have hsame : y = _ := hw.1.2 y (by rw [← hid]; exact hfind)
  have hmost : y.mostAttempts = x.mostAttempts := by rw [hsame]; rfl
  rw [hmost]
  exact hroom

theorem retries_getOrStart (hb : cond.Le (base lib).established)
    (ha : cond.Le (attempts lib).established) (hr : cond.Le (releases lib).established)
    (x : TaskRun) :
    (retries lib).Triple cond thread (TaskRunKnown x) (getOrStartTaskRunAttempt x)
      fun r w => ∀ a, r = .ok a → TaskRunKnown x w ∧ LastKnown x (some a) w := by
  refine Triple.bind (retries_last x) (fun last => ?_) fun e w _ _ _ h => nomatch h
  cases last with
  | some a =>
      refine Triple.ret fun w _ h b hb => ?_
      cases hb
      exact ⟨h.1, h.2 _ rfl⟩
  | none =>
      have hone : 0 + 1 ≤ x.mostAttempts := le_max_left ..
      refine Triple.bind ((retries_insert hb ha hr hone).pre fun w _ h => ⟨h.1, h.2 _ rfl⟩)
        (fun _ => ?_) fun e w _ _ _ h => nomatch h
      refine Triple.bind (retries_last x) (fun last => ?_) fun e w _ _ _ h => nomatch h
      cases last with
      | none => exact Triple.throw fun w _ _ _ h => nomatch h
      | some a =>
          refine Triple.ret fun w _ h b hb => ?_
          cases hb
          exact ⟨h.1, h.2 _ rfl⟩

/-- The number after one that is below the most. -/
theorem addU32_one {n m : Nat} (h : n < addU32 m 1) : addU32 n 1 = n + 1 := by
  unfold addU32 at *
  omega

/-- A task run is derived as failed behind its last attempt. -/
def Derived (x : TaskRun) (status : Option TaskRunStatus) (w : World) : Prop :=
  TaskRunKnown x w ∧ (status = some .failed → FailedThrough x.id x.mostAttempts w)

theorem retries_derive (hb : cond.Le (base lib).established)
    (ha : cond.Le (attempts lib).established) (hr : cond.Le (releases lib).established)
    (x : TaskRun) (a : TaskRunAttempt) :
    (retries lib).Triple cond thread
      (fun w => TaskRunKnown x w ∧ LastKnown x (some a) w) (deriveNextStatus x a)
      fun r w => ∀ status, r = .ok status → Derived x status w := by
  have hother : ∀ status : Option TaskRunStatus, status ≠ some .failed →
      (retries lib).Triple cond thread (fun w => TaskRunKnown x w ∧ LastKnown x (some a) w)
        (.ret status) fun r w => ∀ status, r = .ok status → Derived x status w := by
    intro status hne
    refine Triple.ret fun w _ h status' heq => ?_
    cases heq
    exact ⟨h.1, fun hfailed => absurd hfailed hne⟩
  unfold deriveNextStatus
  split_ifs with _ _ _ hfailed hlt
  · exact hother _ (by decide)
  · exact hother _ (by decide)
  · exact hother _ (by decide)
  · -- another attempt
    have hroom : a.attempt + 1 ≤ x.mostAttempts := hlt.trans_le (le_max_right ..)
    have hinsert : (retries lib).Triple cond thread
        (fun w => TaskRunKnown x w ∧ LastKnown x (some a) w) (insertNextAttempt x a)
        fun _ => TaskRunKnown x := by
      unfold insertNextAttempt
      rw [addU32_one hlt]
      exact Triple.bind ((retries_insert hb ha hr hroom).pre
        fun w _ h => ⟨h.1, (h.2 hfailed).2⟩) (fun _ => Triple.ret fun w _ h => h) fun e w _ h => h
    refine Triple.bind hinsert (fun _ => ?_) fun e w _ _ _ h => nomatch h
    refine Triple.ret fun w _ h status heq => ?_
    cases heq
    exact ⟨h, by nofun⟩
  · -- none is left
    refine Triple.ret fun w _ h status heq => ?_
    cases heq
    obtain ⟨hbounds, hthrough⟩ := h.2 hfailed
    have hmost : a.attempt = x.mostAttempts := by
      unfold Store.TaskRun.mostAttempts at *
      omega
    exact ⟨h.1, fun _ => hmost ▸ hthrough⟩
  · exact hother _ (by decide)
  · exact hother _ (by decide)
  · exact hother _ (by decide)

theorem derived_stable (hb : cond.Le (base lib).established)
    (ha : cond.Le (attempts lib).established) (hr : cond.Le (releases lib).established)
    (x : TaskRun) (status : Option TaskRunStatus) :
    (retries lib).Stable cond thread (Derived x status) :=
  (taskRunKnown_stable _ x).and
    (Stable.imp_const fun _ => failedThrough_stable hb ha hr x.id x.mostAttempts)

theorem retries_update (hb : cond.Le (base lib).established)
    (ha : cond.Le (attempts lib).established) (hr : cond.Le (releases lib).established)
    (x : TaskRun) (status : TaskRunStatus) :
    (retries lib).Triple cond thread (Derived x (some status)) (updateTaskRunStatus x status)
      fun _ _ => True := by
  have hstable := derived_stable hb ha hr x (some status)
  refine Triple.seq (Triple.now hstable (fun _ _ _ _ h => h) fun o w ho _ => ho.retries_pre _ w)
    fun now => ?_
  refine Triple.perform (hstable.and (stable_const _ _)) ?_ fun _ _ _ _ _ _ _ => trivial
  intro w r w' _ hw _ hset y hy hf
  have hid : y.id = x.id := by
    have hclauses := Bool.and_eq_true_iff.mp (Bool.and_eq_true_iff.mp hf).1
    simpa [clause] using hclauses.1
  have hfind : w.db.taskRuns.find y.id = some y := Table.find_of_mem hy
  have hsame : y = _ := hw.1.1.2 y (by rw [← hid]; exact hfind)
  have hmost : y.mostAttempts = x.mostAttempts := by rw [hsame]; rfl
  rw [hid, hmost]
  exact hw.1.2 (by simpa using hset)

theorem retries_handle (hb : cond.Le (base lib).established)
    (ha : cond.Le (attempts lib).established) (hr : cond.Le (releases lib).established)
    (x : TaskRun) :
    (retries lib).Triple cond thread (TaskRunKnown x) (handleRunningTaskRun x)
      fun _ _ => True := by
  refine Triple.seq (retries_getOrStart hb ha hr x) fun a => ?_
  refine Triple.seq ((retries_derive hb ha hr x a).pre fun w _ h => h a rfl) fun status => ?_
  have hupdate : ∀ status', (status' = .failed → status = some .failed) →
      (retries lib).Triple cond thread (fun w => ∀ s, .ok status = (.ok s : Except Err _) →
        Derived x s w) (updateTaskRunStatus x status') fun _ _ => True := by
    intro status' hfailed
    refine (retries_update hb ha hr x status').pre fun w _ h => ⟨(h _ rfl).1, fun heq => ?_⟩
    exact (h _ rfl).2 (hfailed (Option.some.inj heq))
  split
  · exact hupdate _ nofun
  · exact hupdate _ fun _ => rfl
  · exact hupdate _ nofun
  · exact hupdate _ nofun
  · exact Triple.ret fun _ _ _ => trivial
  · exact hupdate _ nofun

end Monitor

end TaskRunMonitor

/-! ## The outline holds -/

theorem retries_valid (hb : cond.Le (base lib).established)
    (ha : cond.Le (attempts lib).established) (hr : cond.Le (releases lib).established) :
    (retries lib).Valid cond where
  init w hw := by
    have hw : w = .fresh := hw
    subst hw
    exact ⟨⟨linked_empty, fun x hx => absurd hx List.not_mem_nil⟩, fun _ => trivial⟩
  step _ _ _ _ _ hi hpre h := retries_step hb ha hr hi hpre h
  env w w' kill hi h := by
    refine ⟨?_, fun _ _ => trivial⟩
    unfold retries at hi ⊢
    dsimp only at hi ⊢
    rwa [happens_db h]
  idle t := stable_true t
  start := by
    -- nobody else adds attempts, or lets a task run fail
    have hothers : ∀ {t : Tid} {P : World → Prop}, t ≠ .service .taskRunMonitor →
        ∀ p : Code Unit, (retries lib).Triple cond t P p fun _ _ => True := by
      intro t P hmonitor p
      refine Triple.of_pre fun o w r w' _ hperf => ?_
      have hallowed := allowed_of hb hperf
      cases o with
      | write q =>
          cases q with
          | updateTaskRuns f i =>
              intro hset
              cases hallowed with
              | endTaskRuns _ hs | dropTaskRun hs => rcases hs with rfl | rfl <;> cases hset
              | releaseTaskRuns | startTaskRun => cases hset
              | settleTaskRun => exact absurd rfl hmonitor
          | insertTaskRunAttempt i =>
              cases hallowed
              exact absurd rfl hmonitor
          | _ => trivial
      | _ => trivial
    refine start_triple (fun config fuel s => ?_) fun c r => hothers (by nofun) _
    refine Triple.pre ?_ fun _ _ _ => trivial
    cases s with
    | taskRunMonitor =>
        refine Poller.pass_triple (P := fun _ => True) (K := TaskRunKnown)
          (R := fun x y : TaskRun => x.id ≠ y.id) ?_
          (fun x => TaskRunMonitor.taskRunKnown_stable _ x)
          (fun x => (TaskRunMonitor.retries_handle hb ha hr x).pre fun _ _ h => h.2)
          fun x y _ => Prog.Uses.of_forall _ fun o w r w' _ _ _ hperf hy =>
            taskRunKnown_performs hperf hy
        exact Triple.selectTaskRuns (stable_true _) (fun _ _ _ => trivial) (fun _ _ => trivial)
          fun w r x _ _ hfind _ => taskRunKnown_of_find (w := w) hfind
    | _ => exact hothers (by nofun) _

end Flowlite

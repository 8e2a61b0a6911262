import Flowlite.Logic.Dependencies

/-!
# How a task run settles

`TaskRunMonitor` settles a task run as its last attempt has settled. `verdicts` is the
outline that keeps the two together: a finished attempt stays as it is, and no attempt is
added to a task run that has settled.
-/

namespace Flowlite

open Store Host Threads Crud Machine Outline

variable {lib : Library} {cond : (flowlite lib).Condition} {O : Outline (flowlite lib)}

/-- What a last attempt settles its task run as. -/
def Store.TaskRunAttemptStatus.settles : TaskRunAttemptStatus → Option TaskRunStatus
  | .succeeded => some .succeeded
  | .failed => some .failed
  | .skipped | .aborted => some .aborted
  | .timedOut => some .timedOut
  | .invalid => some .invalid
  | .queued | .running => none

theorem finished_of_settles {status : TaskRunAttemptStatus} {settled : TaskRunStatus}
    (h : status.settles = some settled) : status.isFinished = true := by
  cases status <;> first | rfl | cases h

/-- The last attempt of the task run is in this status. -/
def LastIs (status : TaskRunAttemptStatus) (x : TaskRun) (w : World) : Prop :=
  ∃ a ∈ w.db.attemptsOf x.id, (∀ b ∈ w.db.attemptsOf x.id, b.attempt ≤ a.attempt) ∧
    a.status = status

/-- A settled task run is settled as its last attempt is. -/
def verdicts (lib : Library) : Outline (flowlite lib) where
  inv w := ∀ x ∈ w.db.taskRuns.rows, x.status.isFinished = true → x.status ≠ .skipped →
    ∃ status, status.settles = some x.status ∧ LastIs status x w
  pre _ o w :=
    match o with
    | .write (.updateTaskRuns f i) => ∀ id, f.id = some id → ∀ settled, i.status = some settled →
        settled.isFinished = true → settled ≠ .skipped →
          ∃ status, status.settles = some settled ∧ TaskRunHas (LastIs status) id w
    | _ => True
  idle _ _ := True

theorem Silent.verdicts_pre {o : Op} (h : Silent o) (t : Tid) (w : World) :
    (verdicts lib).pre t o w := by
  cases o <;> trivial

/-! ## One step -/

section Steps

variable {t : Tid} {o : Op} {w w' : World} {r : Result o}

/-- An attempt that has settled stays as it is. -/
theorem settled_stays (ha : cond.Le (attempts lib).established) (h : Performs cond t o w r w')
    {x x' : TaskRunAttempt} (hx : w.db.taskRunAttempts.find x.id = some x)
    (hx' : w'.db.taskRunAttempts.find x.id = some x') (hfinished : x.status.isFinished = true) :
    x'.status = x.status := by
  obtain ⟨y, hy, heq | ⟨f, i, rfl, -, hf, hset⟩⟩ :=
    attemptStatus_performs h (Table.lt_next_of_find hx) hx'
  · cases hx.symm.trans hy
    exact heq
  · -- nobody takes an attempt from there
    cases hx.symm.trans hy
    have hfrom := (ha.1 _ _ _ _ _ h.2).2.1 f i rfl (by rw [hset]; rfl) x.id x hx hf
    unfold AttemptFrom at hfrom
    split at hfrom <;> first
      | exact hfrom.elim
      | (rw [hfrom] at hfinished; cases hfinished)

/-- The last attempt of a task run stays the last, unless another is added. -/
theorem lastIs_kept (hg : Grounded cond) (h : Performs cond t o w r w') {x x' : TaskRun}
    (hx : w.db.taskRuns.find x.id = some x) (hx' : w'.db.taskRuns.find x.id = some x')
    (hadds : ¬ AddsAttempt x.id o r) {status : TaskRunAttemptStatus}
    (hfinished : status.isFinished = true) (hends : LastIs status x w) : LastIs status x' w' := by
  obtain ⟨a, ha, hlast, rfl⟩ := hends
  obtain ⟨hrow, hid⟩ := mem_attemptsOf.mp ha
  have hkey : x'.id = x.id := Table.key_of_find hx'
  have hfind : w.db.taskRunAttempts.find a.id = some a := Table.find_of_mem hrow
  rcases taskRunAttempt_fate h hfind with hremoves | ⟨a', hafter, hsame⟩
  · -- removed with its run, and so would the task run be
    have hrun := ((hg.releases.1 _ _ _ _ _ h.2).1.attempted a hrow).2 x (Table.mem_of_find hx)
      hid.symm
    have hsame : x' = _ := (taskRunKnown_performs h (taskRunKnown_of_find hx)).2 x' hx'
    have hstays := not_removes h hx'
    rw [hsame] at hstays
    exact absurd (hrun.1 ▸ hremoves) hstays
  · have hsame' : a' = _ := hsame
    refine ⟨a', mem_attemptsOf.mpr ⟨Table.mem_of_find hafter, ?_⟩, fun b' hb' => ?_, ?_⟩
    · rw [hsame', hkey]
      exact hid
    · rw [hkey] at hb'
      obtain ⟨b, hb, hattempt, -⟩ := attemptsOf_before hg.attempts h hadds hb'
      rw [← hattempt, hsame']
      exact hlast b hb
    · exact settled_stays hg.attempts h hfind hafter hfinished

/-- Attempts are added to running task runs only. -/
theorem not_addsAttempt (ht : cond.Le (taskRuns lib).established) (h : Performs cond t o w r w')
    {x : TaskRun} (hx : w.db.taskRuns.find x.id = some x) (hrunning : x.status ≠ .running) :
    ¬ AddsAttempt x.id o r := by
  rintro ⟨-, i, rfl, htask⟩
  have hat : TaskRunAt (.service .taskRunMonitor) i.taskRunId w := (ht.1 _ _ _ _ _ h.2).2.1
  exact hrunning (hat.2 x (htask ▸ hx))

/-- The same of the task run with this id. -/
theorem taskRunHas_lastIs (hg : Grounded cond) (h : Performs cond t o w r w') {id : Nat}
    (hadds : ¬ AddsAttempt id o r) {status : TaskRunAttemptStatus}
    (hfinished : status.isFinished = true) (hends : TaskRunHas (LastIs status) id w) :
    TaskRunHas (LastIs status) id w' := by
  refine ⟨lt_of_lt_of_le hends.1 (taskRuns_next_le h), fun x' hx' => ?_⟩
  rcases taskRun_before h (Table.mem_of_find hx') with ⟨x, hrow, hsame⟩ | ⟨-, -, hnew, -⟩
  · have hsame' : x' = _ := hsame
    have hid : x.id = id := by rw [← Table.key_of_find hx', hsame']; rfl
    subst hid
    exact lastIs_kept hg h (Table.find_of_mem hrow) hx' hadds hfinished
      (hends.2 x (Table.find_of_mem hrow))
  · have hid : x'.id = id := Table.key_of_find hx'
    have hlt := hends.1
    omega

theorem verdicts_performs (ho : Ordered cond) (hi : (verdicts lib).inv w)
    (hpre : (verdicts lib).pre t o w) (h : Performs cond t o w r w') :
    (verdicts lib).inv w' := by
  intro x' hx' hfinished hskipped
  have hfind' : w'.db.taskRuns.find x'.id = some x' := Table.find_of_mem hx'
  obtain ⟨hmoved, htask, -⟩ := ho.taskRuns.1 _ _ _ _ _ h.2
  -- one that had settled before
  have hbefore : ∀ x, w.db.taskRuns.find x'.id = some x → x'.status = x.status →
      ∃ status, status.settles = some x'.status ∧ LastIs status x' w' := by
    intro x hx hstatus
    have hid : x.id = x'.id := Table.key_of_find hx
    rw [hstatus] at hfinished hskipped ⊢
    obtain ⟨status, hsettles, hends⟩ := hi x (Table.mem_of_find hx) hfinished hskipped
    refine ⟨status, hsettles, lastIs_kept ho.grounded h (hid ▸ hx) (hid ▸ hfind') ?_
      (finished_of_settles hsettles) hends⟩
    refine not_addsAttempt ho.taskRuns h (hid ▸ hx) fun hrunning => ?_
    rw [hrunning] at hfinished
    cases hfinished
  rcases taskRun_origin h hfind' with hx | ⟨i, now, hop, -, -, -, -, hnew⟩ |
    ⟨x, hx, ⟨f, i, rfl, hok, hf, hnew⟩ | ⟨now, j, -, -, -, -, hnew⟩⟩
  · exact hbefore x' hx rfl
  · -- a task run is planned when it is submitted
    have hallowed := allowed_of ho.gated.base h
    rw [hop] at hallowed
    cases hallowed with
    | submitTask _ hplanned =>
        have hstatus : x'.status = .planned := by rw [hnew, ← hplanned]; rfl
        rw [hstatus] at hfinished
        cases hfinished
  · have hstatus : ∀ status, i.status = some status → x'.status = status := by
      intro status hset
      rw [hnew]
      simp [UpdateTaskRunsInput.patch, hset]
    have hof : ∀ {n : Nat}, f.id = some n → x'.id = n := fun hn =>
      (Table.key_of_find hx).symm.trans (updateTaskRunsFilter_holds_id hn hf)
    cases allowed_of ho.gated.base h with
    | endTaskRuns _ hs =>
        rcases ((ho.gated.halts.1 _ _ _ _ _ h.2).2.1 _ rfl).2 with heq | ⟨heq, -⟩
        · rcases hs with rfl | rfl <;> cases heq
        · exact absurd (hstatus _ heq) hskipped
    | releaseTaskRuns =>
        rw [hstatus _ rfl] at hfinished
        cases hfinished
    | dropTaskRun hs =>
        rcases hs with rfl | rfl
        · exact absurd (hstatus _ rfl) hskipped
        · cases (htask _ rfl).2 rfl
    | startTaskRun =>
        rw [hstatus _ rfl] at hfinished
        cases hfinished
    | settleTaskRun hsettled hnot =>
        obtain rfl := hof rfl
        rw [hstatus _ rfl]
        obtain ⟨status, hsettles, hends⟩ := hpre _ rfl _ rfl hsettled hnot
        refine ⟨status, hsettles, ?_⟩
        refine (taskRunHas_lastIs ho.grounded h ?_ (finished_of_settles hsettles) hends).2 x' hfind'
        rintro ⟨-, i, heq, -⟩
        cases heq
  · exact absurd (by rw [hnew]) hskipped

end Steps

/-! ## The monitor -/

namespace TaskRunMonitor

/-- Nobody but the monitor adds attempts. -/
theorem lastIs_stable (hg : Grounded cond) {status : TaskRunAttemptStatus}
    (hfinished : status.isFinished = true) (id : Nat) :
    O.Stable cond thread (TaskRunHas (LastIs status) id) := by
  intro w w' hothers hw
  cases hothers with
  | run hu _ _ _ hperf =>
      refine taskRunHas_lastIs hg hperf ?_ hfinished hw
      rintro ⟨-, i, rfl, -⟩
      cases allowed_of hg.base hperf
      exact hu rfl
  | env _ _ _ hhappens =>
      unfold TaskRunHas LastIs
      rwa [happens_db hhappens]

/-- If the last attempt that was found has settled, it is still the last. -/
def LastSettled (x : TaskRun) (a : TaskRunAttempt) (w : World) : Prop :=
  a.status.isFinished = true → TaskRunHas (LastIs a.status) x.id w

/-- The rows in order of their numbers: the last one is the last attempt. -/
theorem lastIs_of_rows {x : TaskRun} {w : World} (hx : TaskRunKnown x w)
    {rows : List TaskRunAttempt} (hmem : ∀ a, a ∈ rows ↔ a ∈ w.db.attemptsOf x.id)
    (hsorted : rows.Pairwise fun a b => a.attempt ≤ b.attempt) {a : TaskRunAttempt}
    (hlast : rows.getLast? = some a) : TaskRunHas (LastIs a.status) x.id w := by
  refine ⟨hx.1, fun y hy => ?_⟩
  have hkey : y.id = x.id := Table.key_of_find hy
  unfold LastIs
  rw [hkey]
  refine ⟨a, (hmem a).mp (List.mem_of_getLast? hlast), fun b hb => ?_, rfl⟩
  obtain ⟨before, rfl⟩ := List.getLast?_eq_some_iff.mp hlast
  rcases List.mem_append.mp ((hmem b).mpr hb) with hin | hin
  · exact (List.pairwise_append.mp hsorted).2.2 b hin a (List.mem_singleton.mpr rfl)
  · rw [List.mem_singleton.mp hin]

theorem verdicts_last (x : TaskRun) :
    (verdicts lib).Triple cond thread (TaskRunKnown x) (selectLastTaskRunAttempt x)
      fun r w => TaskRunKnown x w ∧ ∀ a, r = .ok (some a) → LastSettled x a w := by
  refine Triple.bind (Triple.select
      (q := .taskRunAttempts { taskRunId := some x.id } (some .attempt))
      (Q := fun (rows : List TaskRunAttempt) w =>
        ∀ a, rows.getLast? = some a → TaskRunHas (LastIs a.status) x.id w)
      (taskRunKnown_stable _ x) (fun _ _ h => h) (fun w _ => trivial)
      fun w _ hx a hlast => ?_)
    (fun rows => Triple.ret fun w _ h => ⟨h.1, fun a hlast _ => ?_⟩)
    fun e w _ h => ⟨h.1, fun _ h => by cases h⟩
  · refine lastIs_of_rows (w := w) hx (fun b => ?_) (orderByAttempt_sorted _) hlast
    show b ∈ w.db.selectTaskRunAttempts { taskRunId := some x.id } (some .attempt) ↔ _
    rw [Database.mem_selectTaskRunAttempts, mem_attemptsOf]
    refine and_congr ⟨Table.mem_of_find, Table.find_of_mem⟩ ?_
    simp [SelectTaskRunAttemptsFilter.holds, clause]
  · exact h.2 rows rfl a (Except.ok.inj hlast)

theorem verdicts_getOrStart (x : TaskRun) :
    (verdicts lib).Triple cond thread (TaskRunKnown x) (getOrStartTaskRunAttempt x)
      fun r w => ∀ a, r = .ok a → LastSettled x a w := by
  refine Triple.bind (verdicts_last x) (fun last => ?_) fun e w _ _ _ h => by cases h
  cases last with
  | some a =>
      refine Triple.ret fun w _ h b hb => ?_
      cases hb
      exact h.2 _ rfl
  | none =>
      refine Triple.bind ((Triple.permanent (taskRunKnown_permanent x) (uses_write
        fun _ _ _ => trivial)).pre fun w _ h => h.1) (fun _ => ?_) fun e w _ _ _ h => by cases h
      refine Triple.bind (verdicts_last x) (fun last => ?_) fun e w _ _ _ h => by cases h
      cases last with
      | none => exact Triple.throw fun w _ _ _ h => by cases h
      | some a =>
          refine Triple.ret fun w _ h b hb => ?_
          cases hb
          exact h.2 _ rfl

/-- A status that is derived is running, or what the last attempt settles its task run as. -/
theorem derive_ends (x : TaskRun) (a : TaskRunAttempt) : (deriveNextStatus x a).Ends fun status =>
    status = some .running ∨ ∃ settled, status = some settled ∧ a.status.settles = some settled := by
  unfold deriveNextStatus
  split_ifs with hinvalid hsucceeded hunfinished hfailed hlt htimedOut hstopped
  · exact .inr ⟨_, rfl, by rw [hinvalid]; rfl⟩
  · exact .inr ⟨_, rfl, by rw [hsucceeded]; rfl⟩
  · exact .inl rfl
  · exact (Prog.ends_bind _ _).mpr (.of_forall _ fun _ => .inl rfl)
  · exact .inr ⟨_, rfl, by rw [hfailed]; rfl⟩
  · exact .inr ⟨_, rfl, by rw [htimedOut]; rfl⟩
  · refine .inr ⟨_, rfl, ?_⟩
    cases hstatus : a.status <;> rw [hstatus] at hstopped <;> first | rfl | cases hstopped
  · -- there is no other status
    exfalso
    generalize a.status = status at hinvalid hsucceeded hunfinished hfailed htimedOut hstopped
    cases status with
    | queued | running => exact hunfinished rfl
    | succeeded => exact hsucceeded rfl
    | failed => exact hfailed rfl
    | skipped | aborted => exact hstopped rfl
    | timedOut => exact htimedOut rfl
    | invalid => exact hinvalid rfl

theorem verdicts_derive (x : TaskRun) (a : TaskRunAttempt) :
    (verdicts lib).Triple cond thread (LastSettled x a) (deriveNextStatus x a) fun r w =>
      ∀ settled, r = .ok (some settled) → settled ≠ .running → LastSettled x a w := by
  have hother : ∀ status : Option TaskRunStatus,
      (verdicts lib).Triple cond thread (LastSettled x a) (.ret status) fun r w =>
        ∀ settled, r = .ok (some settled) → settled ≠ .running → LastSettled x a w :=
    fun status => Triple.ret fun w _ h _ _ _ => h
  unfold deriveNextStatus
  split_ifs
  · exact hother _
  · exact hother _
  · exact hother _
  · refine Triple.bind (R := fun _ _ => True) (Triple.pre (W := fun _ => True)
      (Triple.permanent (.const True) ?_) fun _ _ _ => trivial)
      (fun _ => Triple.ret fun w _ _ settled heq hne => ?_) fun e w _ _ _ h => by cases h
    · exact Prog.Uses.bind (uses_write fun _ _ _ => trivial) fun _ => Prog.uses_ret _
    · cases heq
      exact absurd rfl hne
  · exact hother _
  · exact hother _
  · exact hother _
  · exact hother _

theorem verdicts_update (hg : Grounded cond) (x : TaskRun) {status : TaskRunAttemptStatus}
    {settled : TaskRunStatus} (hsettles : status.settles = some settled) :
    (verdicts lib).Triple cond thread (TaskRunHas (LastIs status) x.id)
      (updateTaskRunStatus x settled) fun _ _ => True := by
  have hstable := lastIs_stable (O := verdicts lib) hg (finished_of_settles hsettles) x.id
  refine Triple.seq (Triple.now hstable (fun _ _ _ _ h => h) fun o w ho _ => ho.verdicts_pre _ w)
    fun now => ?_
  refine Triple.perform (hstable.and (stable_const _ _)) ?_ fun _ _ _ _ _ _ _ => trivial
  intro w r w' _ hw _ id hid settled' hset _ _
  cases hid
  cases hset
  exact ⟨status, hsettles, hw.1⟩

theorem verdicts_handle (hg : Grounded cond) (x : TaskRun) :
    (verdicts lib).Triple cond thread (TaskRunKnown x) (handleRunningTaskRun x)
      fun _ _ => True := by
  refine Triple.seq (verdicts_getOrStart x) fun a => ?_
  refine Triple.seq (((verdicts_derive x a).pre fun w _ h => h a rfl).ends (derive_ends x a))
    fun status => ?_
  refine Triple.of_fact (fun _ _ h => h.2 status rfl) fun hstatus => ?_
  refine Triple.pre ?_ fun _ _ h => h.1
  rcases hstatus with rfl | ⟨settled, rfl, hsettles⟩
  · exact Triple.ret fun _ _ _ => trivial
  · have hupdate : (verdicts lib).Triple cond thread (TaskRunHas (LastIs a.status) x.id)
        (updateTaskRunStatus x settled) fun _ _ => True := verdicts_update hg x hsettles
    refine Triple.pre (W := TaskRunHas (LastIs a.status) x.id) ?_ fun w _ h =>
      h settled rfl (fun hrunning => ?_) (finished_of_settles hsettles)
    · generalize a.status = last at hsettles hupdate
      cases last <;> cases hsettles <;> exact hupdate
    · rw [hrunning] at hsettles
      cases hlast : a.status <;> rw [hlast] at hsettles <;> cases hsettles

end TaskRunMonitor

theorem verdicts_valid (ho : Ordered cond) : (verdicts lib).Valid cond where
  init w hw := by
    have hw : w = .fresh := hw
    subst hw
    exact ⟨fun x hx => absurd hx List.not_mem_nil, fun _ => trivial⟩
  step _ _ _ _ _ hi hpre h := verdicts_performs ho hi hpre h
  env w w' kill hi h := by
    refine ⟨?_, fun _ _ => trivial⟩
    unfold verdicts LastIs at hi ⊢
    dsimp only at hi ⊢
    rwa [happens_db h]
  idle t := stable_true t
  start := by
    -- nobody else settles a task run by its id but as skipped
    have hothers : ∀ {t : Tid}, t ≠ .service .taskRunMonitor →
        ∀ {P : World → Prop} (p : Code Unit),
          (verdicts lib).Triple cond t P p fun _ _ => True := by
      intro t hmonitor P p
      refine Triple.of_pre fun o w r w' _ hperf => ?_
      have hallowed := allowed_of ho.gated.base hperf
      cases o with
      | write q =>
          cases q with
          | updateTaskRuns f i =>
              intro id hid settled hset hfinished hskipped
              have htask := (ho.taskRuns.1 _ _ _ _ _ hperf.2).2.1
              cases hallowed with
              | endTaskRuns | releaseTaskRuns => cases hid
              | dropTaskRun hs =>
                  rcases hs with rfl | rfl
                  · exact absurd (Option.some.inj hset).symm hskipped
                  · exact absurd ((htask _ rfl).2 rfl) hmonitor
              | startTaskRun =>
                  cases hset
                  cases hfinished
              | settleTaskRun => exact absurd rfl hmonitor
          | _ => trivial
      | _ => trivial
    refine start_triple (fun config fuel s => ?_) fun c r => hothers (by nofun) _
    refine Triple.pre ?_ fun _ _ _ => trivial
    cases s with
    | taskRunMonitor =>
        refine Poller.pass_triple (P := fun _ => True) (K := TaskRunKnown)
          (R := fun x y : TaskRun => x.id ≠ y.id) ?_
          (fun x => (taskRunKnown_permanent x).stable _)
          (fun x => (TaskRunMonitor.verdicts_handle ho.grounded x).pre fun _ _ h => h.2)
          fun x y _ => Prog.Uses.of_forall _ fun o w r w' _ _ _ hperf hy =>
            taskRunKnown_performs hperf hy
        exact Triple.selectTaskRuns (stable_true _) (fun _ _ _ => trivial) (fun _ _ => trivial)
          fun w r x _ _ hfind _ => taskRunKnown_of_find (w := w) hfind
    | _ => exact hothers (by nofun) _

end Flowlite

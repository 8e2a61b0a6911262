import Flowlite.Logic.Cascade
import Flowlite.Logic.Outputs
import Flowlite.Logic.Releases
import Flowlite.Logic.Retention

/-!
# Rows filed under their run

Every row names the job run it belongs to, and what the row references is filed under the
same one: an attempt is made of its task run, and the monitor prints under the ids of the
attempt it is at. `filed` is the outline, and with it every database the services can reach
is `Sound`, which is what a delete relies on.
-/

namespace Flowlite

open Store Host Threads Crud Machine Outline

variable {lib : Library} {cond : (flowlite lib).Condition} {O : Outline (flowlite lib)}

/-! ## No statement leaves a reference behind -/

namespace Store.Database

variable {db db' : Database}

theorem isSome_find_insert {α : Type} [Keyed α] {t : Table α} {d : Draft α} {n : Nat}
    (h : (t.find n).isSome = true) : ((t.insert d).find n).isSome = true := by
  rw [Table.find_insert]
  split
  · rfl
  · exact h

theorem isSome_find_update {α : Type} [Keyed α] {t : Table α} {p : α → Bool} {f : Patch α}
    {n : Nat} : ((t.update p f).find n).isSome = (t.find n).isSome := by
  rw [Table.find_update, Option.isSome_map]

theorem mem_of_update {α : Type} [Keyed α] {t : Table α} {p : α → Bool} {f : Patch α} {r : α}
    (h : r ∈ (t.update p f).rows) : ∃ y ∈ t.rows, r = f.apply y ∨ r = y := by
  obtain ⟨y, hy, rfl⟩ := Table.mem_update.mp h
  refine ⟨y, hy, ?_⟩
  split
  · exact .inl rfl
  · exact .inr rfl

theorem References.updateJobRuns (h : db.References) (f : UpdateJobRunsFilter)
    (i : UpdateJobRunsInput) : (db.updateJobRuns f i).References := by
  obtain ⟨hruns, htasks, hattempts, hstops, houtputs, hnotifications⟩ := h
  constructor <;> simp only [Database.updateJobRuns, isSome_find_update] <;> try assumption
  intro r hr
  obtain ⟨y, hy, rfl | rfl⟩ := mem_of_update hr
  · exact hruns y hy
  · exact hruns r hy

theorem References.updateTaskRuns (h : db.References) (f : UpdateTaskRunsFilter)
    (i : UpdateTaskRunsInput) : (db.updateTaskRuns f i).References := by
  obtain ⟨hruns, htasks, hattempts, hstops, houtputs, hnotifications⟩ := h
  constructor <;> simp only [Database.updateTaskRuns, isSome_find_update] <;> try assumption
  intro r hr
  obtain ⟨y, hy, rfl | rfl⟩ := mem_of_update hr
  · exact htasks y hy
  · exact htasks r hy

theorem References.updateTaskRunAttempts (h : db.References) (f : UpdateTaskRunAttemptsFilter)
    (i : UpdateTaskRunAttemptsInput) : (db.updateTaskRunAttempts f i).References := by
  obtain ⟨hruns, htasks, hattempts, hstops, houtputs, hnotifications⟩ := h
  constructor <;> simp only [Database.updateTaskRunAttempts, isSome_find_update] <;> try assumption
  intro r hr
  obtain ⟨y, hy, rfl | rfl⟩ := mem_of_update hr
  · exact hattempts y hy
  · exact hattempts r hy

/-- An insert checks what the new row references. -/
theorem run_insert {checks : Bool} {n : Nat} {x y : Database} {a : Nat}
    (h : (if checks then some (n, x) else none) = some (a, y)) : checks = true ∧ y = x := by
  cases checks with
  | false => cases h
  | true =>
      cases h
      exact ⟨rfl, rfl⟩

theorem References.run {q : Write} {now : Instant} {a : q.Answer}
    (h : q.run db now = some (a, db')) (hrefs : db.References) : db'.References := by
  cases q with
  | deleteJobRunsWithChildren f =>
      obtain ⟨-, rfl, hlast⟩ := Database.run_deleteJobRunsWithChildren h
      by_cases hnone : db.deletedBy f = []
      · rw [hnone, Database.deleteRows_nil]
        exact hrefs
      · exact Database.referencesHold_iff.mp (hlast hnone)
  | deleteJobRun id now =>
      simp only [Write.run] at h
      split at h <;> cases h
      · exact (hrefs.updateTaskRuns _ _).updateJobRuns _ _
      · exact hrefs
  | updateJobRuns f i =>
      cases h
      exact hrefs.updateJobRuns f i
  | updateTaskRuns f i =>
      cases h
      exact hrefs.updateTaskRuns f i
  | updateTaskRunAttempts f i =>
      cases h
      exact hrefs.updateTaskRunAttempts f i
  | updateJobRunNotification id i =>
      cases h
      obtain ⟨hruns, htasks, hattempts, hstops, houtputs, hnotifications⟩ := hrefs
      constructor <;> try assumption
      intro r hr
      obtain ⟨y, hy, rfl | rfl⟩ := mem_of_update hr
      · exact hnotifications y hy
      · exact hnotifications r hy
  | insertJobRun i tasks n =>
      obtain ⟨hparent, rfl⟩ := run_insert h
      obtain ⟨hruns, htasks, hattempts, hstops, houtputs, hnotifications⟩ := hrefs
      constructor <;> try grind [isSome_find_insert]
      intro r hr a ha
      rcases Table.mem_insert.mp hr with hr | rfl
      · exact hruns r hr a ha
      · exact (Option.all_eq_true _ _).mp hparent a ha
  | insertTaskRun i =>
      obtain ⟨hchecks, rfl⟩ := run_insert h
      obtain ⟨hruns, htasks, hattempts, hstops, houtputs, hnotifications⟩ := hrefs
      constructor <;> try grind [isSome_find_insert]
      intro r hr
      rcases Table.mem_insert.mp hr with hr | rfl
      · exact htasks r hr
      · exact (Bool.and_eq_true_iff.mp hchecks).1
  | insertTaskRunAttempt i =>
      obtain ⟨hchecks, rfl⟩ := run_insert h
      obtain ⟨hruns, htasks, hattempts, hstops, houtputs, hnotifications⟩ := hrefs
      constructor <;> try grind [isSome_find_insert]
      intro r hr
      rcases Table.mem_insert.mp hr with hr | rfl
      · exact hattempts r hr
      · exact Bool.and_eq_true_iff.mp (Bool.and_eq_true_iff.mp hchecks).1
  | insertJobRunStop id =>
      obtain ⟨hjobRun, rfl⟩ := run_insert h
      obtain ⟨hruns, htasks, hattempts, hstops, houtputs, hnotifications⟩ := hrefs
      constructor <;> try assumption
      intro r hr
      rcases Table.mem_insert.mp hr with hr | rfl
      · exact hstops r hr
      · exact hjobRun
  | insertTaskRunAttemptOutput i =>
      obtain ⟨hchecks, rfl⟩ := run_insert h
      obtain ⟨hruns, htasks, hattempts, hstops, houtputs, hnotifications⟩ := hrefs
      constructor <;> try assumption
      intro r hr
      rcases Table.mem_insert.mp hr with hr | rfl
      · exact houtputs r hr
      · obtain ⟨hids, hjobRun⟩ := Bool.and_eq_true_iff.mp hchecks
        obtain ⟨hattempt, htask⟩ := Bool.and_eq_true_iff.mp hids
        exact ⟨hattempt, htask, hjobRun⟩
  | insertJobRunNotification i =>
      obtain ⟨hjobRun, rfl⟩ := run_insert h
      obtain ⟨hruns, htasks, hattempts, hstops, houtputs, hnotifications⟩ := hrefs
      constructor <;> try assumption
      intro r hr
      rcases Table.mem_insert.mp hr with hr | rfl
      · exact hnotifications r hr
      · exact hjobRun

end Store.Database

section Steps

variable {t : Tid} {o : Op} {w w' : World} {r : Result o}

theorem references_performs (h : Performs cond t o w r w') (hrefs : w.db.References) :
    w'.db.References := by
  rcases db_cases h with heq | ⟨-, q, now, a, -, hrun⟩
  · rwa [heq]
  · exact Database.References.run hrun hrefs

/-! ## The attempt a row is printed for -/

/-- The attempt's row is still this one, whatever its status. -/
def AttemptKnown (a : TaskRunAttempt) (w : World) : Prop :=
  a.id < w.db.taskRunAttempts.next ∧
    ∀ x, w.db.taskRunAttempts.find a.id = some x → TaskRunAttempt.Same a x

theorem attemptKnown_of_find {a : TaskRunAttempt}
    (h : w.db.taskRunAttempts.find a.id = some a) : AttemptKnown a w :=
  ⟨Table.lt_next_of_find h, fun x hx => by rw [h] at hx; cases hx; rfl⟩

theorem attemptKnown_performs {a : TaskRunAttempt} (h : Performs cond t o w r w')
    (ha : AttemptKnown a w) : AttemptKnown a w' := by
  refine ⟨lt_of_lt_of_le ha.1 (taskRunAttempts_next_le h), fun x' hx' => ?_⟩
  rcases taskRunAttempt_origin h hx' with hx | ⟨i, now, -, -, hid, -⟩ |
    ⟨x, hx, f, i, -, -, -, rfl⟩
  · exact ha.2 x' hx
  · exact absurd ha.1 (by omega)
  · have hsame : x = _ := ha.2 x hx
    rw [hsame]
    rfl

theorem attemptKnown_stable (t : Tid) (a : TaskRunAttempt) : O.Stable cond t (AttemptKnown a) := by
  intro w w' hothers ha
  cases hothers with
  | run _ _ _ _ hperf => exact attemptKnown_performs hperf ha
  | env _ _ _ hhappens =>
      unfold AttemptKnown
      rwa [happens_db hhappens]

end Steps

/-- The row is one of the attempt's. -/
def FiledUnder (a : TaskRunAttempt) (i : InsertTaskRunAttemptOutputInput) : Prop :=
  i.taskRunAttemptId = a.id ∧ i.taskRunId = a.taskRunId ∧ i.jobRunId = a.jobRunId

/-- What a row of output references is filed under the row's job run. -/
def OutputsFiled (db : Database) : Prop :=
  ∀ r ∈ db.taskRunAttemptOutputs.rows, ∀ a, db.taskRunAttempts.find r.taskRunAttemptId = some a →
    a.jobRunId = r.jobRunId ∧ a.taskRunId = r.taskRunId

/-- The references hold, output is written under the attempt that printed it, and a run
is older than those its tasks submit. -/
def filed (lib : Library) : Outline (flowlite lib) where
  inv w := w.db.References ∧ OutputsFiled w.db ∧ w.db.Older
  pre _ o w := ∀ i, o = .write (.insertTaskRunAttemptOutput i) →
    ∃ a, AttemptKnown a w ∧ FiledUnder a i
  idle _ _ := True

theorem outputsFiled_performs {t : Tid} {o : Op} {w w' : World} {r : Result o}
    (hi : (filed lib).inv w) (hpre : (filed lib).pre t o w) (h : Performs cond t o w r w') :
    OutputsFiled w'.db := by
  obtain ⟨hrefs, hfiled, -⟩ := hi
  -- a row that was there keeps its attempt
  have hold : ∀ y ∈ w.db.taskRunAttemptOutputs.rows, ∀ a',
      w'.db.taskRunAttempts.find y.taskRunAttemptId = some a' →
      a'.jobRunId = y.jobRunId ∧ a'.taskRunId = y.taskRunId := by
    intro y hy a' ha'
    obtain ⟨a, ha⟩ := Option.isSome_iff_exists.mp (hrefs.output y hy).1
    rcases taskRunAttempt_origin h ha' with heq | ⟨i, now, -, -, hid, -⟩ |
      ⟨a₀, ha₀, f, i, -, -, -, rfl⟩
    · exact hfiled y hy a' heq
    · exact absurd (Table.lt_next_of_find ha) (by omega)
    · exact hfiled y hy a₀ ha₀
  intro y' hy' a' ha'
  rcases outputs_cases h with ⟨heq, -⟩ | ⟨i, now, ho, -, heq, -⟩ | ⟨ids, heq, -⟩
  · rw [heq] at hy'
    exact hold y' hy' a' ha'
  · rw [heq] at hy'
    rcases Table.mem_insert.mp hy' with hy | rfl
    · exact hold y' hy a' ha'
    · obtain ⟨a, hknown, hid, htask, hrun⟩ := hpre i ho
      have hsame : a' = _ := (attemptKnown_performs h hknown).2 a' (by rw [← hid]; exact ha')
      rw [hsame]
      exact ⟨hrun.symm, htask.symm⟩
  · rw [heq] at hy'
    exact hold y' (Table.mem_delete.mp hy').1 a' ha'

/-- The monitor prints under the attempt it is at. -/
theorem TaskRunAttemptMonitor.handle_prints (config : Config) (a : TaskRunAttempt) :
    (handleRunningTaskRunAttempt config a).Uses fun o : Op =>
      ∀ i, o = .write (.insertTaskRunAttemptOutput i) → FiledUnder a i := by
  have hsilent : ∀ o, Silent o → ∀ i, o = .write (.insertTaskRunAttemptOutput i) →
      FiledUnder a i := by
    rintro o ho i rfl
    cases ho
  have houtput : ∀ stream content i, (.write (.insertTaskRunAttemptOutput
      (outputInput a stream content)) : Op) = .write (.insertTaskRunAttemptOutput i) →
      FiledUnder a i := by
    intro stream content i heq
    cases heq
    exact ⟨rfl, rfl, rfl⟩
  have hfinish : ∀ status output, (finishTaskRunAttempt a status output).Uses fun o : Op =>
      ∀ i, o = .write (.insertTaskRunAttemptOutput i) → FiledUnder a i :=
    fun status output => finishTaskRunAttempt_uses hsilent (fun _ _ => nofun) a status output
      fun _ _ => nofun
  refine Prog.Uses.bind ((Prog.uses_perform _).mpr fun _ => nofun) fun child => ?_
  cases child with
  | none => exact hfinish .invalid none
  | some child =>
      exact held_walk (Prog.Uses.walk (S := flowliteOps) _) hsilent
        (fun _ => ⟨fun _ => nofun, fun _ => nofun, fun _ => nofun, fun _ => nofun, fun _ => nofun⟩)
        config a houtput (fun _ => True) ⟨trivial, trivial⟩ (fun _ _ _ => nofun)
        (fun status output _ => hfinish status output) child fun _ _ => trivial

theorem filed_monitor (config : Config) :
    (filed lib).Triple cond TaskRunAttemptMonitor.thread (fun _ => True)
      (TaskRunAttemptMonitor.poller config).pass fun _ _ => True := by
  refine Poller.pass_triple (P := fun _ => True) (K := AttemptKnown)
    (R := fun x y : TaskRunAttempt => x.id ≠ y.id) ?_ (fun a => attemptKnown_stable _ a)
    (fun a => ?_)
    fun x y _ => Prog.Uses.of_forall _ fun o w r w' _ _ _ hperf hy => attemptKnown_performs hperf hy
  · refine Triple.selectTaskRunAttempts (O := filed lib) (stable_true _) (fun _ _ _ => trivial)
      (fun _ _ _ => nofun) fun w r x _ _ hfind _ => ?_
    exact attemptKnown_of_find (w := { w with log := _ :: w.log }) hfind
  · refine (Triple.of_uses (attemptKnown_stable _ a)
      ((TaskRunAttemptMonitor.handle_prints config a).mono fun o ho w r w' _ ha hperf =>
        ⟨fun i heq => ⟨a, ha, ho i heq⟩, fun _ => attemptKnown_performs hperf ha⟩)).conseq
      (fun _ _ h => h.2) fun _ _ _ _ => trivial

theorem filed_valid (hb : cond.Le (base lib).established) : (filed lib).Valid cond where
  init := by
    rintro w rfl
    refine ⟨⟨⟨?_, ?_, ?_, ?_, ?_, ?_⟩, fun _ h => absurd h List.not_mem_nil,
      fun id parent hparent => ?_⟩, fun _ => trivial⟩
    on_goal 7 =>
      obtain ⟨x, a, hx, -⟩ := Database.parentJobRun_eq.mp hparent
      exact absurd (Table.mem_of_find hx) List.not_mem_nil
    all_goals exact fun _ h => absurd h List.not_mem_nil
  step _ _ _ _ _ hi hpre hperf :=
    ⟨references_performs hperf hi.1, outputsFiled_performs hi hpre hperf,
      older_performs (linked_of hb hperf).1 hperf hi.2.2⟩
  env w w' kill hi hhappens := by
    obtain ⟨hrefs, houtputs, holder⟩ := hi
    rw [← happens_db hhappens] at hrefs houtputs holder
    exact ⟨⟨hrefs, houtputs, holder⟩, fun _ _ => trivial⟩
  idle t := stable_true t
  start := by
    -- nobody else prints
    have hothers : ∀ {t : Tid}, t ≠ TaskRunAttemptMonitor.thread → ∀ p : Code Unit,
        (filed lib).Triple cond t (fun _ => True) p fun _ _ => True := by
      intro t ht p
      refine Triple.of_pre fun o w r w' _ hperf i heq => ?_
      subst heq
      cases allowed_of hb hperf
      exact absurd rfl ht
    refine start_triple (fun config fuel s => ?_) fun c r => hothers (by nofun) _
    refine Triple.pre ?_ fun _ _ _ => trivial
    cases s with
    | taskRunAttemptMonitor => exact filed_monitor config
    | _ => exact hothers (by nofun) _

/-- The databases the services can reach. -/
theorem sound_of_inv {w : World} (hrefs : w.db.References) (houtputs : OutputsFiled w.db)
    (hattempts : ReleasedFirst w) (holder : w.db.Older) : w.db.Sound := by
  have hattempt : ∀ a ∈ w.db.taskRunAttempts.rows, ∀ x,
      w.db.taskRuns.find a.taskRunId = some x → x.jobRunId = a.jobRunId := fun a ha x hx =>
    ((hattempts.attempted a ha).2 x (Table.mem_of_find hx) (Table.key_of_find hx)).1.symm
  refine ⟨hrefs, ⟨hattempt, fun r hr => ⟨fun a ha => (houtputs r hr a ha).1, fun x hx => ?_⟩⟩,
    holder⟩
  obtain ⟨a, ha⟩ := Option.isSome_iff_exists.mp (hrefs.output r hr).1
  obtain ⟨hrun, htask⟩ := houtputs r hr a ha
  rw [← hrun]
  exact hattempt a (Table.mem_of_find ha) x (by rw [htask]; exact hx)

end Flowlite

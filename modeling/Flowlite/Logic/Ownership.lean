import Flowlite.Logic.Attempts
import Flowlite.Logic.Custody

/-!
# Commands that still run

A command that has neither exited nor been killed is one flowlite can still reach: its
child is with the pass that spawned it, in the map, or with the monitor's pass, and its
attempt has the status that goes with that. `ownership` is that outline. It holds as
long as `serve` does, and as long as two writes go through that are made while nobody
else has the child.
-/

namespace Flowlite

open Store Host Threads Crud Machine Outline

variable {lib : Library} {cond : (flowlite lib).Condition} {O : Outline (flowlite lib)}

/-! ## What may not fail -/

/-- The command of the attempt runs. -/
def Alive (id : Nat) (w : World) : Prop :=
  ∃ p ∈ w.procs.rows, p.taskRunAttemptId = id ∧ p.exited = none

instance (id : Nat) (w : World) : Decidable (Alive id w) := by
  unfold Alive
  infer_instance

/-- The last thing the monitor did was to read the clock. It writes one kind of output
right after that, its note on which limit ended an attempt. -/
def NotesTimeout (w : World) : Prop :=
  match w.log.find? fun e => e.thread = TaskRunAttemptMonitor.thread with
  | some ⟨_, .now, _⟩ => True
  | _ => False

instance (w : World) : Decidable (NotesTimeout w) := by
  unfold NotesTimeout
  split <;> infer_instance

/-- `serve` does not crash, and two writes do not fail while the command runs: the note
that a limit ended it, and that its attempt is running. -/
def recordsCommands (lib : Library) : (flowlite lib).Condition where
  step _ o w r _ :=
    match o, r with
    | .write (.insertTaskRunAttemptOutput i), .error _ =>
        NotesTimeout w → ¬ Alive i.taskRunAttemptId w
    | .write (.updateTaskRunAttempts f i), .error _ =>
        i.status = some .running → ∀ id ∈ f.id, ¬ Alive id w
    | _, _ => True
  env e _ _ :=
    match e with
    | .crash => False
    | _ => True

instance : (recordsCommands lib).Checked where
  step t o w r w' := by
    rcases o with _ | q
    case write =>
      rcases q
      case insertTaskRunAttemptOutput i => rcases r <;> (dsimp only [recordsCommands]; infer_instance)
      case updateTaskRunAttempts f i => rcases r <;> (dsimp only [recordsCommands]; infer_instance)
      all_goals exact isTrue trivial
    all_goals exact isTrue trivial
  env e w w' := by
    rcases e <;> (dsimp only [recordsCommands]; infer_instance)

/-! ## The outline -/

/-- The statuses of an attempt whose command runs, by where its child is. -/
def StatusUnder : Holder → TaskRunAttemptStatus → Prop
  | .dispatcher, status => status = .queued
  | .map, status => status = .queued ∨ status = .running
  | .monitor, status => status = .running
  | .nobody, _ => False

theorem StatusUnder.of_map {holder : Holder} {status : TaskRunAttemptStatus}
    (h : StatusUnder holder status) : StatusUnder .map status := by
  cases holder with
  | dispatcher => exact .inl h
  | map => exact h
  | monitor => exact .inr h
  | nobody => exact h.elim

/-- Of the running commands, only process `n` has its child with `t`. -/
def HeldOnly (t : Tid) (n : Option Nat) (w : World) : Prop :=
  ∀ m p, w.procs.find m = some p → p.exited = none → p.holder = holderOf t → n = some m

/-- Of the running commands, only that of process `n` has an attempt that is queued. -/
def QueuedOnly (n : Option Nat) (w : World) : Prop :=
  ∀ m p, w.procs.find m = some p → p.exited = none →
    ∀ x, w.db.taskRunAttempts.find p.taskRunAttemptId = some x → x.status = .queued → n = some m

/-- The attempt has no command running, or is gone. -/
def Over (id : Nat) (w : World) : Prop :=
  ∀ n p, w.procs.find n = some p → p.exited = none → p.taskRunAttemptId = id →
    w.db.taskRunAttempts.find id = none

/-- Somebody has the child of every running command, and its attempt is not settled. -/
structure Owned (w : World) : Prop where
  custody : Custody w
  up : ∀ n p, w.procs.find n = some p → ∃ config, w.serve = .up config
  held : ∀ n p, w.procs.find n = some p → p.exited = none → p.holder ≠ .nobody
  status : ∀ n p, w.procs.find n = some p → p.exited = none →
    ∀ x, w.db.taskRunAttempts.find p.taskRunAttemptId = some x → StatusUnder p.holder x.status

/-- A status is written over a running command's attempt only by the pass that hands its
child over. -/
def ownership (lib : Library) : Outline (flowlite lib) where
  inv := Owned
  pre _ o w :=
    match o with
    | .spawn id _ _ => ∀ x, w.db.taskRunAttempts.find id = some x → x.status = .queued
    | .childrenRemove id => ∀ x, w.db.taskRunAttempts.find id = some x → x.status = .running
    | .write (.updateTaskRunAttempts f i) => ∀ status id, i.status = some status →
        f.id = some id → ∀ n p x, w.procs.find n = some p → p.exited = none →
        p.taskRunAttemptId = id → w.db.taskRunAttempts.find id = some x →
        status = .running ∧ p.holder = .map
    | _ => True
  idle t w :=
    match t with
    | .service .taskRunAttemptDispatcher => HeldOnly t none w ∧ QueuedOnly none w
    | .service .taskRunAttemptMonitor => HeldOnly t none w
    | _ => True

/-! ## One step -/

section Steps

variable {t : Tid} {o : Op} {w w' : World} {r : Result o}

theorem not_crash (hc : cond.Le (recordsCommands lib)) {e : External} {v v' : World}
    (h : cond.env e v v') : e ≠ .crash := by
  rintro rfl
  exact hc.2 _ _ _ h

/-- Nobody but the monitor's insert makes an attempt queued. -/
theorem update_not_queued {f : UpdateTaskRunAttemptsFilter} {i : UpdateTaskRunAttemptsInput}
    (h : Allowed t (.write (.updateTaskRunAttempts f i))) : i.status ≠ some .queued := by
  cases h with
  | dropAttempt hs => rcases hs with rfl | rfl <;> nofun
  | settleAttempt hfinished =>
      rintro ⟨⟩
      cases hfinished
  | _ => nofun

theorem owned_step (hb : cond.Le (base lib).established)
    (hs : cond.Le (spawnsOnce lib).established) (hc : cond.Le (custody lib).established)
    (hi : Owned w) (hpre : (ownership lib).pre t o w) (h : Performs cond t o w r w') :
    Owned w' where
  custody := (custody_of hc h).2
  up n p' hp' := by
    rcases process_origin h hp' with ⟨a, command, startedAt, pid, rfl, -⟩ | ⟨p, hp, -⟩
    · have hdispatcher : t = .service .taskRunAttemptDispatcher := allowed_of hb h
      subst hdispatcher
      exact running_kept h (running_of hb h) nofun
    · obtain ⟨config, hup⟩ := hi.up n p hp
      rcases serve_cases h with heq | ⟨-, config', hstarting, -⟩
      · exact ⟨config, heq.trans hup⟩
      · rw [hup] at hstarting
        cases hstarting
  held n p' hp' halive := by
    rcases process_origin h hp' with ⟨a, command, startedAt, pid, rfl, -, -, rfl⟩ | ⟨p, hp, rfl⟩
    · nofun
    · have hheld := hi.held n p hp (Process.alive_of_after halive)
      rw [Process.after_holder]
      split
      · split
        · nofun
        · exact hheld
      · split
        · nofun
        · exact hheld
      · exact hheld
  status n p' hp' halive x' hx' := by
    rcases process_origin h hp' with ⟨a, command, startedAt, pid, rfl, -, -, rfl⟩ | ⟨p, hp, rfl⟩
    · rw [taskRunAttempts_kept h fun h => h] at hx'
      exact hpre x' hx'
    · rw [Process.after_taskRunAttemptId] at hx'
      have halive := Process.alive_of_after halive
      have hstatus := hi.status n p hp halive
      rw [Process.after_holder]
      rcases taskRunAttempt_origin h hx' with hx | ⟨i, now, -, -, hnew, -⟩ |
        ⟨x, hx, f, i, rfl, -, hf, rfl⟩
      · split
        · split
          · exact (hstatus x' hx).of_map
          · exact hstatus x' hx
        · rename_i id
          split
          · -- the monitor takes children of running attempts only
            rename_i htaken
            obtain ⟨child, hchild, hprocess⟩ := (Option.any_eq_true _ _).mp htaken
            obtain ⟨q, hq, hqid, -⟩ := (custody_of hc h).1.process id child hchild
            have hpid : p.id = n := Table.key_of_find hp
            rw [← of_decide_eq_true hprocess, hpid, hp] at hq
            cases hq
            exact hpre x' (hqid ▸ hx)
          · exact hstatus x' hx
        · exact hstatus x' hx
      · exact absurd (process_attempt hs hc h hp) (by omega)
      · cases hset : i.status with
        | none => simpa [UpdateTaskRunAttemptsInput.patch, hset] using hstatus x hx
        | some status =>
            obtain ⟨id, hid⟩ := updateTaskRunAttempts_id (allowed_of hb h)
            have hkey : x.id = p.taskRunAttemptId := Table.key_of_find hx
            have hpid := hkey.symm.trans (updateTaskRunAttemptsFilter_holds hid hf)
            obtain ⟨rfl, hmap⟩ := hpre status id hset hid n p x hp halive hpid (hpid ▸ hx)
            simp [UpdateTaskRunAttemptsInput.patch, hset, hmap, StatusUnder]

theorem owned_happens (hrc : cond.Le (recordsCommands lib)) (hi : Owned w)
    {kill : Tid → Bool} (h : Happens cond w w' kill) : Owned w' := by
  have hdb := happens_db h
  obtain ⟨e, he, hcond, hprocs⟩ := process_happens h
  have hcrash := not_crash hrc hcond
  have horigin : ∀ {n p'}, w'.procs.find n = some p' →
      ∃ p, w.procs.find n = some p ∧ p' = p.afterExternal e ∧ p'.holder = p.holder := by
    intro n p' hp'
    rw [hprocs] at hp'
    obtain ⟨p, hp, rfl⟩ := Option.map_eq_some_iff.mp hp'
    refine ⟨p, hp, rfl, ?_⟩
    rw [Process.afterExternal_holder]
    split
    · exact absurd rfl hcrash
    · rfl
  refine ⟨custody_happens hi.custody h, fun n p' hp' => ?_, fun n p' hp' halive => ?_,
    fun n p' hp' halive x hx => ?_⟩
  · obtain ⟨p, hp, -, -⟩ := horigin hp'
    obtain ⟨config, hup⟩ := hi.up n p hp
    rcases external_serve he with heq | ⟨hdown, -⟩ | ⟨hcrash', -⟩
    · exact ⟨config, heq.trans hup⟩
    · rw [hup] at hdown
      cases hdown
    · exact absurd hcrash' hcrash
  · obtain ⟨p, hp, rfl, hholder⟩ := horigin hp'
    rw [hholder]
    exact hi.held n p hp (Process.alive_of_afterExternal halive)
  · obtain ⟨p, hp, rfl, hholder⟩ := horigin hp'
    rw [hholder]
    rw [hdb, Process.afterExternal_taskRunAttemptId] at hx
    exact hi.status n p hp (Process.alive_of_afterExternal halive) x hx

end Steps

/-! ## What each thread knows -/

/-- A child comes to be, or moves. -/
def MovesChild : Op → Prop
  | .spawn _ _ _ | .childrenInsert _ _ | .childrenRemove _ => True
  | _ => False

/-- No child moves, and no status is written. -/
def KeepsCommands (o : Op) : Prop := KeepsStatus o ∧ ¬ MovesChild o

theorem Silent.keepsCommands {o : Op} (h : Silent o) : KeepsCommands o := by
  refine ⟨h.keepsStatus, ?_⟩
  cases o <;> first
    | exact id
    | exact h.elim

theorem keepsCommands_pre {t : Tid} {o : Op} (ho : KeepsCommands o) (w : World) :
    (ownership lib).pre t o w := by
  cases o with
  | spawn => exact absurd trivial ho.2
  | childrenRemove => exact absurd trivial ho.2
  | write q =>
      cases q
      case updateTaskRunAttempts f i =>
        intro status id hset
        rw [show i.status = none from ho.1] at hset
        cases hset
      all_goals trivial
  | _ => trivial

section Knowledge

variable {t u : Tid} {o : Op} {w w' : World} {r : Result o} {n : Option Nat}

/-- A running command was running before the step, with its child where it is unless the
step moved it. -/
theorem alive_origin (h : Performs cond t o w r w') {m : Nat} {p' : Process}
    (hp' : w'.procs.find m = some p') (halive : p'.exited = none) :
    (∃ id command startedAt, o = .spawn id command startedAt ∧ m = w.procs.next ∧
      p'.taskRunAttemptId = id ∧ p'.holder = .dispatcher ∧ Succeeded r) ∨
    ∃ p, w.procs.find m = some p ∧ p.exited = none ∧ p' = p.after w o := by
  rcases process_origin h hp' with ⟨a, command, startedAt, pid, ho, hok, hm, rfl⟩ | ⟨p, hp, rfl⟩
  · exact .inl ⟨a, command, startedAt, ho, hm, rfl, rfl, hok⟩
  · exact .inr ⟨p, hp, Process.alive_of_after halive, rfl⟩

/-- Nobody else gives a thread a child. -/
theorem heldOnly_other (hb : cond.Le (base lib).established) (ht : HasChildren t) (hu : u ≠ t)
    (h : Performs cond u o w r w') (hw : HeldOnly t n w) : HeldOnly t n w' := by
  intro m p' hp' halive hholder
  have hallowed := allowed_of hb h
  rcases alive_origin h hp' halive with ⟨id, command, startedAt, rfl, -, -, hd, -⟩ |
    ⟨p, hp, hbefore, rfl⟩
  · rw [hd] at hholder
    rcases ht with rfl | rfl
    · exact absurd hallowed hu
    · cases hholder
  · refine hw m p hp hbefore ?_
    rw [Process.after_holder] at hholder
    split at hholder
    · split at hholder
      · exact absurd hholder.symm ht.ne_map
      · exact hholder
    · split at hholder
      · rcases ht with rfl | rfl
        · cases hholder
        · exact absurd hallowed hu
      · exact hholder
    · exact hholder

theorem heldOnly_happens (hrc : cond.Le (recordsCommands lib)) {kill : Tid → Bool}
    (h : Happens cond w w' kill) (hw : HeldOnly t n w) : HeldOnly t n w' := by
  obtain ⟨e, he, hcond, hprocs⟩ := process_happens h
  intro m p' hp' halive hholder
  rw [hprocs] at hp'
  obtain ⟨p, hp, rfl⟩ := Option.map_eq_some_iff.mp hp'
  refine hw m p hp (Process.alive_of_afterExternal halive) ?_
  rw [Process.afterExternal_holder] at hholder
  split at hholder
  · exact absurd rfl (not_crash hrc hcond)
  · exact hholder

theorem heldOnly_kept (ho : ¬ MovesChild o) (h : Performs cond u o w r w')
    (hw : HeldOnly t n w) : HeldOnly t n w' := by
  intro m p' hp' halive hholder
  rcases alive_origin h hp' halive with ⟨id, command, startedAt, rfl, -⟩ | ⟨p, hp, hbefore, rfl⟩
  · exact absurd trivial ho
  · refine hw m p hp hbefore ?_
    rw [Process.after_holder] at hholder
    split at hholder
    · exact absurd trivial ho
    · exact absurd trivial ho
    · exact hholder

/-- Only the dispatcher's spawn adds a command to an attempt that is queued. -/
theorem queuedOnly_kept (hb : cond.Le (base lib).established)
    (hs : cond.Le (spawnsOnce lib).established) (hc : cond.Le (custody lib).established)
    (ho : ∀ id command startedAt, o ≠ .spawn id command startedAt)
    (h : Performs cond u o w r w') (hw : QueuedOnly n w) : QueuedOnly n w' := by
  intro m p' hp' halive x' hx' hqueued
  rcases alive_origin h hp' halive with ⟨id, command, startedAt, rfl, -⟩ | ⟨p, hp, hbefore, rfl⟩
  · exact absurd rfl (ho _ _ _)
  · rw [Process.after_taskRunAttemptId] at hx'
    obtain ⟨x, hx, heq | ⟨f, i, rfl, -, -, hset⟩⟩ :=
      attemptStatus_performs h (process_attempt hs hc h hp) hx'
    · exact hw m p hp hbefore x hx (heq ▸ hqueued)
    · exact absurd (hset.trans (congrArg some hqueued)) (update_not_queued (allowed_of hb h))

theorem queuedOnly_happens {kill : Tid → Bool} (h : Happens cond w w' kill)
    (hw : QueuedOnly n w) : QueuedOnly n w' := by
  have hdb := happens_db h
  obtain ⟨e, -, -, hprocs⟩ := process_happens h
  intro m p' hp' halive x hx hqueued
  rw [hprocs] at hp'
  obtain ⟨p, hp, rfl⟩ := Option.map_eq_some_iff.mp hp'
  rw [hdb, Process.afterExternal_taskRunAttemptId] at hx
  exact hw m p hp (Process.alive_of_afterExternal halive) x hx hqueued

theorem over_performs {id : Nat} (hid : id < w.db.taskRunAttempts.next)
    (ho : ∀ command startedAt, o = .spawn id command startedAt →
      w.db.taskRunAttempts.find id = none)
    (h : Performs cond u o w r w') (hw : Over id w) : Over id w' := by
  intro m p' hp' halive hpid
  have hnone : w.db.taskRunAttempts.find id = none := by
    rcases alive_origin h hp' halive with ⟨id', command, startedAt, rfl, -, hid', -, -⟩ |
      ⟨p, hp, hbefore, rfl⟩
    · obtain rfl : id' = id := hid'.symm.trans hpid
      exact ho _ _ rfl
    · exact hw m p hp hbefore (by simpa using hpid)
  cases hx' : w'.db.taskRunAttempts.find id with
  | none => rfl
  | some x' =>
      obtain ⟨x, hx, -⟩ := attemptStatus_performs h hid hx'
      rw [hnone] at hx
      cases hx

theorem over_happens {kill : Tid → Bool} {id : Nat} (h : Happens cond w w' kill)
    (hw : Over id w) : Over id w' := by
  have hdb := happens_db h
  obtain ⟨e, -, -, hprocs⟩ := process_happens h
  intro m p' hp' halive hpid
  rw [hprocs] at hp'
  obtain ⟨p, hp, rfl⟩ := Option.map_eq_some_iff.mp hp'
  rw [hdb]
  exact hw m p hp (Process.alive_of_afterExternal halive) (by simpa using hpid)

end Knowledge

/-! ## What survives the other threads -/

section Stable

variable (hb : cond.Le (base lib).established) (hs : cond.Le (spawnsOnce lib).established)
  (ha : cond.Le (attempts lib).established) (hc : cond.Le (custody lib).established)
  (hrc : cond.Le (recordsCommands lib))

include hb

include hrc in
theorem HeldOnly.stable {t : Tid} (ht : HasChildren t) (n : Option Nat) :
    O.Stable cond t (HeldOnly t n) := by
  intro w w' hothers hw
  cases hothers with
  | run hu _ _ _ hperf => exact heldOnly_other hb ht hu hperf hw
  | env _ _ _ hhappens => exact heldOnly_happens hrc hhappens hw

include hs hc in
theorem QueuedOnly.stable (n : Option Nat) :
    O.Stable cond (.service .taskRunAttemptDispatcher) (QueuedOnly n) := by
  intro w w' hothers hw
  cases hothers with
  | run hu _ _ _ hperf =>
      refine queuedOnly_kept hb hs hc ?_ hperf hw
      rintro id command startedAt rfl
      exact hu (allowed_of hb hperf)
  | env _ _ _ hhappens => exact queuedOnly_happens hhappens hw

include ha in
/-- A running attempt that is over stays so: no command is spawned for it any more. -/
theorem over_stable (id : Nat) : (ownership lib).Stable cond TaskRunAttemptMonitor.thread
    fun w => AttemptAt TaskRunAttemptMonitor.thread id w ∧ Over id w := by
  intro w w' hothers hw
  refine ⟨attemptAt_stable hb (meetsAttempts ha) _ id w w' hothers hw.1, ?_⟩
  cases hothers with
  | run hu _ _ hpre hperf =>
      refine over_performs hw.1.2.1 ?_ hperf hw.2
      rintro command startedAt rfl
      cases hx : w.db.taskRunAttempts.find id with
      | none => rfl
      | some x =>
          have hqueued : x.status = .queued := hpre x hx
          have hrunning : x.status = .running := hw.1.2.2 x hx
          rw [hqueued] at hrunning
          cases hrunning
  | env _ _ _ hhappens => exact over_happens hhappens hw.2

end Stable

/-! ## The monitor -/

section Monitor

open TaskRunAttemptMonitor

variable (hb : cond.Le (base lib).established) (hs : cond.Le (spawnsOnce lib).established)
  (ha : cond.Le (attempts lib).established) (hc : cond.Le (custody lib).established)
  (hrc : cond.Le (recordsCommands lib)) {a : TaskRunAttempt} {child : TaskRunAttemptChild}

/-- The monitor has this child, and of the running commands no other one's. -/
def Handling (id n : Nat) (w : World) : Prop :=
  AttemptAt thread id w ∧ Holds thread n id w ∧ HeldOnly thread (some n) w

/-- The monitor has no child of a running command, and the attempt no command running. -/
def Settles (id : Nat) (w : World) : Prop :=
  (AttemptAt thread id w ∧ Over id w) ∧ HeldOnly thread none w

include hb ha hrc in
theorem settles_stable (id : Nat) : (ownership lib).Stable cond thread (Settles id) :=
  (over_stable hb ha id).and (HeldOnly.stable hb hrc (.inr rfl) none)

include hb ha hc hrc in
theorem handling_stable (id n : Nat) : (ownership lib).Stable cond thread (Handling id n) :=
  (attemptAt_stable hb (meetsAttempts ha) _ id).and
    ((Holds.stable hb hc (.inr rfl) n id).and (HeldOnly.stable hb hrc (.inr rfl) _))

theorem settles_kept {o : Op} (ho : KeepsCommands o) {w w' : World} {r : Result o} {id : Nat}
    (h : Performs cond thread o w r w') (hw : Settles id w) : Settles id w' := by
  refine ⟨⟨(attemptAt_keeps ho.1 hw.1.1 h).2, ?_⟩, heldOnly_kept ho.2 h hw.2⟩
  refine over_performs hw.1.1.2.1 ?_ h hw.1.2
  rintro command startedAt rfl
  exact absurd trivial ho.2

include hc in
theorem handling_kept {o : Op} (ho : KeepsCommands o) {w w' : World} {r : Result o} {id n : Nat}
    (h : Performs cond thread o w r w') (hw : Handling id n w) : Handling id n w' := by
  refine ⟨(attemptAt_keeps ho.1 hw.1 h).2, ?_, heldOnly_kept ho.2 h hw.2.2⟩
  refine holds_kept (custody_of hc h).1 nofun hw.2.1 ?_ h
  cases o with
  | childrenInsert => exact absurd trivial ho.2
  | _ => trivial

include hb ha hrc in
theorem settles_uses {α : Type} {id : Nat} {p : Code α} (hp : p.Uses KeepsCommands) :
    (ownership lib).Triple cond thread (Settles id) p fun _ => Settles id :=
  Triple.of_uses (settles_stable hb ha hrc id) (hp.mono fun _ ho w _ _ _ hw hperf =>
    ⟨keepsCommands_pre ho w, fun _ => settles_kept ho hperf hw⟩)

include hb ha hc hrc in
theorem handling_uses {α : Type} {id n : Nat} {p : Code α} (hp : p.Uses KeepsCommands) :
    (ownership lib).Triple cond thread (Handling id n) p fun _ => Handling id n :=
  Triple.of_uses (handling_stable hb ha hc hrc id n) (hp.mono fun _ ho w _ _ _ hw hperf =>
    ⟨keepsCommands_pre ho w, fun _ => handling_kept hc ho hperf hw⟩)

/-- Once its command has exited, the attempt can be settled. -/
theorem settles_of_exited {w : World} {id n : Nat} {status : ExitStatus} (hi : Custody w)
    (hw : Handling id n w) (hexited : Exited n status w) : Settles id w := by
  obtain ⟨hat, ⟨p, hp, hid, -⟩, honly⟩ := hw
  obtain ⟨q, hq, hended⟩ := hexited
  cases hp.symm.trans hq
  have hdead : ∀ m q, w.procs.find m = some q → q.exited = none → m ≠ n := by
    rintro m q hq' halive rfl
    cases hq.symm.trans hq'
    rw [hended] at halive
    cases halive
  refine ⟨⟨hat, fun m q hq halive hqid => ?_⟩, fun m q hq halive hholder => ?_⟩
  · exact absurd (hi.unique m q n p hq hp (hqid.trans hid.symm)) (hdead m q hq halive)
  · exact absurd (Option.some.inj (honly m q hq halive hholder)).symm (hdead m q hq halive)

include hb ha hrc in
theorem ownership_finish (status : TaskRunAttemptStatus) (output : Option String) :
    (ownership lib).Triple cond thread (Settles a.id) (finishTaskRunAttempt a status output)
      fun _ => HeldOnly thread none := by
  refine Triple.bind (R := fun _ => Settles a.id) (settles_uses hb ha hrc ?_) (fun _ => ?_)
    fun _ _ _ h => h.2
  · unfold stopUnlessSucceeded
    split
    · trivial
    · exact stopChildJobRuns_uses (fun _ h => h.keepsCommands) (fun _ => ⟨trivial, id⟩) a
  refine Triple.bind (settles_uses hb ha hrc (now_silent.mono fun _ h => h.keepsCommands))
    (fun now => ?_) fun _ _ _ h => h.2
  refine Triple.perform (settles_stable hb ha hrc a.id) (fun w r w' _ hw _ => ?_)
    fun w r w' _ hw hperf _ => ?_
  · -- there is no running command to settle over
    intro status id hset hid n p x hp halive hpid hx
    cases hid
    rw [hw.1.2 n p hp halive hpid] at hx
    cases hx
  · exact heldOnly_kept (by exact fun h => h) hperf hw.2

include hb ha hc hrc in
/-- Handed back, the child is the map's again. -/
theorem ownership_insert :
    (ownership lib).Triple cond thread (Handling a.id child.process)
      (Crud.perform (.childrenInsert a.id child)) fun _ => HeldOnly thread none := by
  refine Triple.perform (handling_stable hb ha hc hrc _ _) (fun _ _ _ _ _ _ => trivial) ?_
  intro w r w' _ hw hperf _ m p' hp' halive hholder
  rcases alive_origin hperf hp' halive with ⟨id, command, startedAt, ho, -⟩ | ⟨p, hp, hbefore, rfl⟩
  · cases ho
  rw [Process.after_holder] at hholder
  dsimp only at hholder
  split at hholder
  · cases hholder
  · rename_i hne
    have hm := hw.2.2 m p hp hbefore hholder
    exact absurd ((Table.key_of_find hp).trans (Option.some.inj hm).symm) hne

include hb ha hrc in
/-- Out of the map comes the child of the running command, if there is one. -/
theorem ownership_remove (hc : cond.Le (custody lib).established) :
    (ownership lib).Triple cond thread (fun w => HeldOnly thread none w ∧ AttemptAt thread a.id w)
      (Crud.perform (.childrenRemove a.id)) fun r w => match r with
        | .ok none => Settles a.id w
        | .ok (some child) => EndsStopped child ∧ Handling a.id child.process w
        | .error _ => HeldOnly thread none w := by
  refine Triple.perform ((HeldOnly.stable hb hrc (.inr rfl) none).and
    (attemptAt_stable hb (meetsAttempts ha) _ a.id)) (fun w _ _ _ hw _ x hx => hw.2.2.2 x hx) ?_
  intro w r w' hi ⟨hnone, hat⟩ hperf _
  have hat' := (attemptAt_keeps (by trivial) hat hperf).2
  obtain ⟨child, rfl⟩ := Infallible.succeeds (by trivial) hperf
  have hanswer := childrenRemove_answer hperf
  cases child with
  | some child =>
      refine ⟨(hb.1 _ _ _ _ _ hperf.2).1.2 a.id child hanswer, hat',
        childrenRemove_holds (custody_of hc hperf).1 hperf, fun m p' hp' halive hholder => ?_⟩
      rcases alive_origin hperf hp' halive with ⟨id, command, startedAt, ho, -⟩ |
        ⟨p, hp, hbefore, rfl⟩
      · cases ho
      rw [Process.after_holder] at hholder
      simp only [hanswer, Option.any_some, decide_eq_true_eq] at hholder
      split at hholder
      · rename_i htaken
        rw [← htaken]
        exact congrArg some (Table.key_of_find hp)
      · cases hnone m p hp hbefore hholder
  | none =>
      have hsame : ∀ {m p'}, w'.procs.find m = some p' → w.procs.find m = some p' := by
        intro m p' hp'
        rcases procs_find hperf m with ⟨_, _, _, _, ho, -⟩ | hrow
        · cases ho
        · simpa [Process.after, hanswer, hp'] using hrow.symm
      refine ⟨⟨hat', fun m p hp' halive hpid => ?_⟩,
        fun m p hp' halive hholder => by cases hnone m p (hsame hp') halive hholder⟩
      have hp := hsame hp'
      rw [db_of_not_write hperf (by simp)]
      cases hx : w.db.taskRunAttempts.find a.id with
      | none => rfl
      | some x =>
          -- wherever the child is, this pass would have found it or could not be here
          have hstatus := hi.status m p hp halive x (hpid ▸ hx)
          have hrunning : x.status = .running := hat.2.2 x hx
          rw [hrunning] at hstatus
          cases hholder : p.holder with
          | dispatcher =>
              rw [hholder] at hstatus
              cases hstatus
          | map =>
              obtain ⟨child, hchild, -⟩ := (custody_of hc hperf).1.child m p hp hholder
              rw [hpid, hanswer] at hchild
              cases hchild
          | monitor => cases hnone m p hp halive hholder
          | nobody => exact absurd hholder (hi.held m p hp halive)

theorem notesTimeout_now {w w' : World} {r : Result .now}
    (h : Performs cond thread .now w r w') : NotesTimeout w' := by
  unfold NotesTimeout
  rw [log_performs h, List.find?_cons_of_pos (by simp)]
  trivial

theorem notesTimeout_stable : O.Stable cond thread NotesTimeout := by
  intro w w' hothers hw
  unfold NotesTimeout at hw ⊢
  cases hothers with
  | run hu _ _ _ hperf => rwa [log_performs hperf, List.find?_cons_of_neg (by simpa using hu)]
  | env _ _ _ hhappens => rwa [log_happens hhappens]

include hb ha hc hrc in
/-- The note is written while the command runs, or its failure loses nothing. -/
theorem ownership_note (status : TaskRunAttemptStatus) :
    (ownership lib).Triple cond thread (Handling a.id child.process) (noteTimeout a child status)
      (Outcome (Handling a.id child.process) (HeldOnly thread none)) := by
  have hstable := handling_stable hb ha hc hrc a.id child.process
  have hnow : KeepsCommands .now := ⟨trivial, id⟩
  have hwrite : ∀ i, KeepsCommands (.write (.insertTaskRunAttemptOutput i)) :=
    fun _ => ⟨trivial, id⟩
  unfold noteTimeout
  split
  · refine Triple.bind (R := Outcome
        (fun w => Handling a.id child.process w ∧ NotesTimeout w) (HeldOnly thread none)) ?_
      (fun now => ?_) fun _ _ _ h => h
    · refine Triple.perform hstable (fun w _ _ _ _ _ => keepsCommands_pre hnow w)
        fun w r w' _ hw hperf _ => ?_
      obtain ⟨now, rfl⟩ := Infallible.succeeds (by trivial) hperf
      exact ⟨handling_kept hc hnow hperf hw, notesTimeout_now hperf⟩
    · rw [insertOutput_stderr]
      split
      · exact Triple.ret fun _ _ h => h.1
      refine Triple.bind (R := Outcome (Handling a.id child.process) (HeldOnly thread none))
        (Triple.bind (R := Outcome (Handling a.id child.process) (HeldOnly thread none)) ?_
          (fun _ => Triple.ret fun _ _ h => h) fun _ _ _ h => h)
        (fun _ => Triple.ret fun _ _ h => h) fun _ _ _ h => h
      refine Triple.perform (O := ownership lib)
        (P := fun w => Handling a.id child.process w ∧ NotesTimeout w)
        (hstable.and notesTimeout_stable)
        (fun w _ _ _ _ _ => keepsCommands_pre (hwrite _) w) fun w r w' _ hw hperf _ => ?_
      cases r with
      | ok n => exact handling_kept hc (hwrite _) hperf hw.1
      | error e =>
          have hdead : ¬ Alive a.id w := hrc.1 _ _ _ _ _ hperf.2 hw.2
          intro m p' hp' halive hholder
          have hp : w.procs.find m = some p' := by
            rwa [procs_kept (by trivial) hperf] at hp'
          obtain ⟨q, hq, hqid, -⟩ := hw.1.2.1
          have hm := Option.some.inj (hw.1.2.2 m p' hp halive hholder)
          have hqp : q = p' := Option.some.inj (hq.symm.trans (hm ▸ hp))
          exact absurd ⟨q, Table.mem_of_find hq, hqid, hqp ▸ halive⟩ hdead
  · exact Triple.ret fun _ _ h => h

include hb ha hc hrc in
theorem ownership_kill {Q : World → Prop} :
    (ownership lib).Triple cond thread (Handling a.id child.process)
      (Crud.perform (.killProcessGroup child.process)) (Outcome (Settles a.id) Q) := by
  have hkeeps : KeepsCommands (.killProcessGroup child.process) := ⟨trivial, id⟩
  refine Triple.infallible trivial (Triple.perform (handling_stable hb ha hc hrc a.id _)
    (fun w _ _ _ _ _ => keepsCommands_pre hkeeps w) fun w r w' _ hw hperf hi' => ?_)
  obtain ⟨p, hp, -⟩ := hw.2.1
  obtain ⟨status, hexited⟩ := kill_exits hp hperf
  exact settles_of_exited hi'.custody (handling_kept hc hkeeps hperf hw) hexited

/-- The monitor has the child of a running command until it hands it back, or until the
command runs no more. -/
def ownershipPhases (hb : cond.Le (base lib).established) (ha : cond.Le (attempts lib).established)
    (hc : cond.Le (custody lib).established) (hrc : cond.Le (recordsCommands lib))
    (config : Config) (a : TaskRunAttempt) :
    Phases (ownership lib) cond config a (HeldOnly thread none) :=
  have hsilent : ∀ o, Silent o → KeepsCommands o := fun _ h => h.keepsCommands
  have houtput : ∀ stream content, KeepsCommands
      (.write (.insertTaskRunAttemptOutput (outputInput a stream content))) :=
    fun _ _ => ⟨trivial, id⟩
  have hrecord : ∀ child : TaskRunAttemptChild, (ownership lib).Triple cond thread
      (Handling a.id child.process) (recordOutput a child) fun _ => Handling a.id child.process :=
    fun child => handling_uses hb ha hc hrc (recordOutput_uses a houtput child ⟨trivial, id⟩)
  { held child := Handling a.id child.process
    decided child _ := Handling a.id child.process
    ending child _ := Handling a.id child.process
    dead _ _ := Settles a.id
    received _ := Settles a.id
    refused _ := Settles a.id
    settling _ := Settles a.id
    derive child := by
      refine (deriveNextStatus_triple (handling_stable hb ha hc hrc a.id child.process)
        fun o ho w _ _ _ hw hperf => ⟨keepsCommands_pre (hsilent o ho) w, fun _ =>
          handling_kept hc (hsilent o ho) hperf hw⟩).post ?_
      intro r w hi h
      cases r with
      | error e => exact h
      | ok status => cases status <;> first
          | exact h
          | exact settles_of_exited hi.custody h.1 h.2.choose_spec.1
    note child status := ownership_note hb ha hc hrc status
    wait child _ o ho := by
      have hkeeps : KeepsCommands o := by rcases ho with rfl | rfl | rfl <;> exact ⟨trivial, id⟩
      exact Triple.infallible (by rcases ho with rfl | rfl | rfl <;> trivial)
        (handling_uses hb ha hc hrc (uses_op hkeeps))
    kill child _ := ownership_kill hb ha hc hrc
    receive child _ := (settles_uses hb ha hrc (finishReading_uses a houtput child
      ⟨trivial, id⟩ ⟨trivial, id⟩)).post fun _ _ _ h => .intro h h.2
    result := (settles_uses hb ha hrc ((readTaskOutput_silent config a).mono hsilent)).post
      fun r _ _ h => by
        cases r with
        | error e => exact h.2
        | ok r => cases r <;> exact h
    refuse _ := (settles_uses hb ha hrc (insertOutput_uses a houtput _ _)).post
      fun _ _ _ h => .intro h h.2
    settle _ _ _ _ h := h
    finish status output := ownership_finish hb ha hrc status output
    putBack _ := ownership_insert hb ha hc hrc
    keep child := recordAndPutBack_triple (hrecord child) (ownership_insert hb ha hc hrc)
    keepEnding child _ := recordAndPutBack_triple (hrecord child)
      ((ownership_insert hb ha hc hrc).pre fun _ _ h => h) }

include hb ha hc hrc in
theorem ownership_monitor (config : Config) (a : TaskRunAttempt) :
    (ownership lib).Triple cond thread (fun w => HeldOnly thread none w ∧ AttemptAt thread a.id w)
      (handleRunningTaskRunAttempt config a) fun _ => HeldOnly thread none := by
  refine Triple.bind (ownership_remove hb ha hrc hc) (fun child => ?_) fun _ _ _ h => h
  cases child with
  | none => exact ownership_finish hb ha hrc .invalid none
  | some child =>
      refine Triple.of_fact (fun _ _ h => h.1) fun hchild => Triple.pre ?_ fun _ _ h => h.2
      dsimp only
      split
      · rename_i termination hterminating
        refine (ownershipPhases hb ha hc hrc config a).handleTerminating child hterminating ?_
        rcases hchild termination hterminating with h | h <;> rw [h] <;> nofun
      · exact (ownershipPhases hb ha hc hrc config a).handleChild child

end Monitor

/-! ## The dispatcher -/

section Dispatcher

variable (hb : cond.Le (base lib).established) (hs : cond.Le (spawnsOnce lib).established)
  (ha : cond.Le (attempts lib).established) (hc : cond.Le (custody lib).established)
  (hrc : cond.Le (recordsCommands lib)) {a : TaskRunAttempt}

open TaskRunAttemptDispatcher

/-- Nothing is under way: no child with the dispatcher, and no queued attempt with a
command that runs. -/
def Dispatched (w : World) : Prop :=
  HeldOnly thread none w ∧ QueuedOnly none w

/-- What is known of an attempt the dispatcher is at. -/
def Dispatching (held queued : Option Nat) (id : Nat) (w : World) : Prop :=
  AttemptAt thread id w ∧ HeldOnly thread held w ∧ QueuedOnly queued w

include hb hs ha hc hrc in
theorem dispatching_stable (held queued : Option Nat) (id : Nat) :
    O.Stable cond thread (Dispatching held queued id) :=
  (attemptAt_stable hb (meetsAttempts ha) _ id).and
    ((HeldOnly.stable hb hrc (.inl rfl) held).and (QueuedOnly.stable hb hs hc queued))

include hb hs hc in
theorem dispatching_kept {o : Op} (ho : KeepsCommands o) {w w' : World} {r : Result o}
    {held queued : Option Nat} {id : Nat} (h : Performs cond thread o w r w')
    (hw : Dispatching held queued id w) : Dispatching held queued id w' := by
  refine ⟨(attemptAt_keeps ho.1 hw.1 h).2, heldOnly_kept ho.2 h hw.2.1,
    queuedOnly_kept hb hs hc ?_ h hw.2.2⟩
  rintro id command startedAt rfl
  exact absurd trivial ho.2

include hb hs ha hc hrc in
theorem dispatching_uses {α : Type} {held queued : Option Nat} {id : Nat} {p : Code α}
    (hp : p.Uses KeepsCommands) :
    (ownership lib).Triple cond thread (Dispatching held queued id) p
      fun _ => Dispatching held queued id :=
  Triple.of_uses (dispatching_stable hb hs ha hc hrc held queued id)
    (hp.mono fun _ ho w _ _ _ hw hperf =>
      ⟨keepsCommands_pre ho w, fun _ => dispatching_kept hb hs hc ho hperf hw⟩)

include hb hs ha hc hrc in
/-- A queued attempt that is not to be spawned for has no command to settle over. -/
theorem ownership_settle (status : TaskRunAttemptStatus) :
    (ownership lib).Triple cond thread (Dispatching none none a.id) (settle a status)
      fun _ => Dispatched := by
  refine Triple.bind (dispatching_uses hb hs ha hc hrc (now_silent.mono fun _ h => h.keepsCommands))
    (fun now => ?_) fun _ _ _ h => h.2
  refine Triple.perform (dispatching_stable hb hs ha hc hrc none none a.id)
    (fun w r w' _ hw _ => ?_) fun w r w' _ hw hperf _ => ?_
  · intro status id _ hid n p x hp halive hpid hx
    cases hid
    exact nomatch hw.2.2 n p hp halive x (hpid ▸ hx) (hw.1.2.2 x hx)
  · exact ⟨heldOnly_kept (by exact fun h => h) hperf hw.2.1,
      queuedOnly_kept hb hs hc (by intros; nofun) hperf hw.2.2⟩

include hb hs ha hc hrc in
/-- The new command is the one whose child the dispatcher has, and its attempt still
reads as queued. -/
theorem ownership_spawn (command : Command) (startedAt : Instant) :
    (ownership lib).Triple cond thread (Dispatching none none a.id)
      (Crud.perform (.spawn a.id command startedAt)) fun r w => match r with
        | .ok (n, _) => Dispatching (some n) (some n) a.id w ∧ Holds thread n a.id w
        | .error _ => Dispatching none none a.id w := by
  refine Triple.perform (dispatching_stable hb hs ha hc hrc none none a.id)
    (fun w r w' _ hw _ x hx => hw.1.2.2 x hx) fun w r w' _ hw hperf _ => ?_
  have hat := (attemptAt_keeps (by trivial) hw.1 hperf).2
  have hrows := taskRunAttempts_kept hperf fun h => h
  cases r with
  | error e =>
      refine ⟨hat, ?_⟩
      unfold HeldOnly QueuedOnly
      rw [spawn_error hperf, hrows]
      exact hw.2
  | ok spawned =>
      obtain ⟨n, pid⟩ := spawned
      obtain ⟨hrow, hothers⟩ := spawn_answer hperf
      refine ⟨⟨hat, fun m p' hp' halive hholder => ?_, fun m p' hp' halive x hx hqueued => ?_⟩,
        _, hrow, rfl, rfl⟩
      · by_contra hne
        rw [hothers m fun h => hne (congrArg some h.symm)] at hp'
        exact nomatch hw.2.1 m p' hp' halive hholder
      · by_contra hne
        rw [hothers m fun h => hne (congrArg some h.symm)] at hp'
        exact nomatch hw.2.2 m p' hp' halive x (hrows ▸ hx) hqueued

/-- The process was spawned for the attempt. -/
def SpawnedFor (n id : Nat) (w : World) : Prop :=
  ∃ p, w.procs.find n = some p ∧ p.taskRunAttemptId = id

theorem spawnedFor_stable {t : Tid} (n id : Nat) : O.Stable cond t (SpawnedFor n id) := by
  rintro w w' hothers ⟨p, hp, hid⟩
  cases hothers with
  | run _ _ _ _ hperf => exact ⟨_, process_fate hperf hp, by simpa using hid⟩
  | env _ _ _ hhappens =>
      obtain ⟨e, -, -, hprocs⟩ := process_happens hhappens
      exact ⟨p.afterExternal e, by rw [hprocs, hp]; rfl, by simpa using hid⟩

include hb hs ha hc hrc in
/-- In the map, the child is nobody's until its attempt is running. -/
theorem ownership_handOver (child : TaskRunAttemptChild) (processGroupId : Nat) :
    (ownership lib).Triple cond thread (fun w =>
        Dispatching (some child.process) (some child.process) a.id w ∧
          Holds thread child.process a.id w)
      (handOver a child processGroupId) fun _ => Dispatched := by
  refine Triple.bind (Triple.infallible (Q := Dispatched)
    (W := fun w => Dispatching none (some child.process) a.id w ∧
      SpawnedFor child.process a.id w) trivial ?_) (fun _ => ?_) fun _ _ _ h => h
  · refine Triple.perform ((dispatching_stable hb hs ha hc hrc _ _ a.id).and
      (Holds.stable hb hc (.inl rfl) _ a.id)) (fun _ _ _ _ _ _ => trivial) ?_
    rintro w r w' - ⟨⟨hat, hheld, hqueued⟩, p, hp, hid, -⟩ hperf -
    refine ⟨⟨(attemptAt_keeps (by trivial) hat hperf).2, ?_,
      queuedOnly_kept hb hs hc (by intros; nofun) hperf hqueued⟩,
      _, process_fate hperf hp, by simpa using hid⟩
    intro m p' hp' halive hholder
    rcases alive_origin hperf hp' halive with ⟨_, _, _, ho, -⟩ | ⟨q, hq, hbefore, rfl⟩
    · cases ho
    rw [Process.after_holder] at hholder
    dsimp only at hholder
    split at hholder
    · cases hholder
    · rename_i hne
      have hm := hheld m q hq hbefore hholder
      exact absurd ((Table.key_of_find hq).trans (Option.some.inj hm).symm) hne
  · refine Triple.perform ((dispatching_stable hb hs ha hc hrc _ _ a.id).and
      (spawnedFor_stable _ a.id)) (fun w r w' hi hw _ => ?_) fun w r w' hi hw hperf _ => ?_
    · rintro status id hset hid n p x hp halive hpid hx
      cases hset
      cases hid
      have hqueued : x.status = .queued := hw.1.1.2.2 x hx
      have hstatus := hi.status n p hp halive x (hpid ▸ hx)
      rw [hqueued] at hstatus
      refine ⟨rfl, ?_⟩
      cases hholder : p.holder with
      | map => rfl
      | dispatcher => exact nomatch hw.1.2.1 n p hp halive hholder
      | monitor =>
          rw [hholder] at hstatus
          cases hstatus
      | nobody => exact absurd hholder (hi.held n p hp halive)
    · refine ⟨heldOnly_kept (by exact fun h => h) hperf hw.1.2.1,
        fun m p hp halive x' hx' hqueued => ?_⟩
      rw [procs_kept (by trivial) hperf] at hp
      obtain ⟨q, hq, hqid⟩ := hw.2
      have honly : ∀ x, w.db.taskRunAttempts.find p.taskRunAttemptId = some x →
          x.status = .queued → q = p := by
        intro x hx hqueued
        have hm := Option.some.inj (hw.1.2.2 m p hp halive x hx hqueued)
        exact Option.some.inj (hq.symm.trans (hm ▸ hp))
      cases r with
      | ok _ =>
          -- the attempt is running now, and no other was queued
          obtain ⟨x, hx, heq | ⟨f, i, heq, -, -, hset⟩⟩ :=
            attemptStatus_performs hperf (process_attempt hs hc hperf hp) hx'
          · have hqp := honly x hx (heq ▸ hqueued)
            rw [← hqp, hqid] at hx'
            obtain ⟨y, -, rfl⟩ := updateTaskRunAttempts_row hperf hx'
            cases hqueued
          · exact absurd (hset.trans (congrArg some hqueued))
              (update_not_queued (heq ▸ allowed_of hb hperf))
      | error e =>
          have hdead : ¬ Alive a.id w := hrc.1 _ _ _ _ _ hperf.2 rfl a.id rfl
          rw [write_error hperf] at hx'
          have hqp := honly x' hx' hqueued
          exact absurd ⟨q, Table.mem_of_find hq, hqid, hqp ▸ halive⟩ hdead

include hb hs ha hc hrc in
theorem ownership_setToRunning (config : Config) :
    (ownership lib).Triple cond thread (Dispatching none none a.id)
      (setToRunning lib config a) fun _ => Dispatched := by
  have hkeep : ∀ {α : Type} {p : Code α}, p.Uses KeepsCommands →
      (ownership lib).Triple cond thread (Dispatching none none a.id) p
        fun _ => Dispatching none none a.id := fun hp => dispatching_uses hb hs ha hc hrc hp
  have hmark : ∀ startedAt, (updateStartedAt a startedAt).Uses KeepsCommands :=
    fun _ => uses_write ⟨rfl, id⟩
  refine Triple.bind (hkeep (prepare_uses (fun _ h => h.1.keepsCommands)
    (fun _ _ => ⟨trivial, id⟩) lib config a)) (fun (taskRun, command) => ?_) fun _ _ _ h => h.2
  refine Triple.bind (hkeep (now_silent.mono fun _ h => h.keepsCommands)) (fun startedAt => ?_)
    fun _ _ _ h => h.2
  refine Triple.bind (hkeep (hmark _)) (fun _ => ?_) fun _ _ _ h => h.2
  refine Triple.bind (Triple.attempt (Q := fun r w => match r with
    | .ok (.ok (n, _)) => Dispatching (some n) (some n) a.id w ∧ Holds thread n a.id w
    | .ok (.error _) => Dispatching none none a.id w
    | .error _ => Dispatched w) ((ownership_spawn hb hs ha hc hrc command startedAt).post ?_))
    (fun spawned => ?_) fun _ _ _ h => h
  · intro r w _ h
    cases r <;> exact h
  · cases spawned with
    | error e =>
        refine Triple.bind (hkeep (hmark none)) (fun _ => ?_) fun _ _ _ h => h.2
        exact Triple.throw fun _ _ h => h.2
    | ok spawned =>
        exact ownership_handOver hb hs ha hc hrc (childOf taskRun startedAt spawned.1) spawned.2

include hb hs ha hc hrc in
theorem ownership_dispatcher (config : Config) (a : TaskRunAttempt) :
    (ownership lib).Triple cond thread (Dispatching none none a.id)
      (handleQueuedTaskRunAttempt lib config a) fun _ => Dispatched := by
  refine Triple.bind (dispatching_uses hb hs ha hc hrc ((deriveNextStatus_silent config a).mono
    fun _ h => h.keepsCommands)) (fun status => ?_) fun _ _ _ h => h.2
  split
  · exact ownership_settle hb hs ha hc hrc .invalid
  · exact ownership_settle hb hs ha hc hrc .skipped
  · exact Triple.ret fun _ _ h => h.2
  · exact ownership_setToRunning hb hs ha hc hrc config
  · exact ownership_settle hb hs ha hc hrc .invalid

end Dispatcher

/-! ## The outline holds -/

theorem ownership_fresh : Owned .fresh where
  custody := custody_fresh
  up _ _ h := nomatch h
  held _ _ h := nomatch h
  status _ _ h := nomatch h

/-- Nobody else takes a child, and recovery settles attempts while nothing runs yet. -/
theorem ownership_others (hb : cond.Le (base lib).established) {t : Tid} (ht : ¬ HasChildren t)
    {o : Op} {w w' : World} {r : Result o} (hi : Owned w) (h : Performs cond t o w r w') :
    (ownership lib).pre t o w := by
  have hallowed := allowed_of hb h
  cases o with
  | spawn => exact absurd (.inl hallowed) ht
  | childrenRemove => exact absurd (.inr hallowed) ht
  | write q =>
      cases q
      case updateTaskRunAttempts f i =>
        intro status id hset hid n p x hp
        have hrunning := running_of hb h
        cases hallowed with
        | dropAttempt => exact absurd (.inl rfl) ht
        | markStarted => cases hset
        | startAttempt => exact absurd (.inl rfl) ht
        | settleAttempt => exact absurd (.inr rfl) ht
        | recoverAttempt =>
            obtain ⟨config, hstarting⟩ := hrunning
            obtain ⟨config', hup⟩ := hi.up n p hp
            rw [hup] at hstarting
            cases hstarting
        | wait => cases hset
      all_goals trivial
  | _ => trivial

theorem ownership_valid (hb : cond.Le (base lib).established)
    (hs : cond.Le (spawnsOnce lib).established) (ha : cond.Le (attempts lib).established)
    (hc : cond.Le (custody lib).established) (hrc : cond.Le (recordsCommands lib)) :
    (ownership lib).Valid cond where
  init := by
    rintro w rfl
    refine ⟨ownership_fresh, fun t => ?_⟩
    have hheld : ∀ t, HeldOnly t none .fresh := fun _ _ _ h => nomatch h
    have hqueued : QueuedOnly none .fresh := fun _ _ h => nomatch h
    cases t with
    | client n => trivial
    | service s => cases s <;> first
        | trivial
        | exact ⟨hheld _, hqueued⟩
        | exact hheld _
  step _ _ _ _ _ hi hpre hperf := owned_step hb hs hc hi hpre hperf
  env := by
    intro w w' kill hi hhappens
    refine ⟨owned_happens hrc hi hhappens, fun t hkill => ?_⟩
    obtain ⟨e, he, hcond⟩ := hhappens
    cases t with
    | client n => trivial
    | service s => exact absurd (external_service he hkill) (not_crash hrc hcond)
  idle t := by
    cases t with
    | client n => exact stable_true _
    | service s => cases s <;> first
        | exact stable_true _
        | exact HeldOnly.stable hb hrc (.inr rfl) none
        | exact (HeldOnly.stable hb hrc (.inl rfl) none).and (QueuedOnly.stable hb hs hc none)
  start := by
    have hothers : ∀ {t : Tid}, ¬ HasChildren t → ∀ {P : World → Prop} (p : Code Unit),
        (ownership lib).Triple cond t P p fun _ _ => True := by
      intro t ht P p
      refine Triple.pre (W := fun _ => True) ?_ fun _ _ _ => trivial
      exact Triple.of_pre fun o w r w' hi hperf => ownership_others hb ht hi hperf
    have hsilent : ∀ {t : Tid} (o : Op) (w : World), Silent o → (ownership lib).pre t o w :=
      fun o w ho => keepsCommands_pre ho.keepsCommands w
    refine start_triple (fun config fuel s => ?_) fun c r => hothers (by rintro (h | h) <;> cases h) _
    cases s with
    | taskRunAttemptDispatcher =>
        refine attemptAt_pass hb (meetsAttempts ha)
          (show AttemptFrom (.service .taskRunAttemptDispatcher) .queued from rfl)
          ((HeldOnly.stable hb hrc (.inl rfl) none).and (QueuedOnly.stable hb hs hc none))
          (fun _ _ _ _ h => h) (fun o w ho _ => hsilent o w ho)
          (fun a => (ownership_dispatcher hb hs ha hc hrc config a).pre fun _ _ h => ⟨h.2.1, h.1⟩)
          fun a => (TaskRunAttemptDispatcher.handles lib config a).mono fun o ho => ⟨ho.2, ?_⟩
        rintro rfl
        cases ho.1
    | taskRunAttemptMonitor =>
        exact attemptAt_pass hb (meetsAttempts ha) (by exact rfl)
          (HeldOnly.stable hb hrc (.inr rfl) none)
          (fun _ _ _ _ h => h) (fun o w ho _ => hsilent o w ho)
          (fun a => (ownership_monitor hb ha hc hrc config a).pre fun _ _ h => ⟨h.1, h.2.1⟩)
          (TaskRunAttemptMonitor.handle_on config)
    | _ => exact hothers (by rintro (h | h) <;> cases h) _

end Flowlite

import Flowlite.Logic.JobRuns

/-!
# Spawns

A command is spawned for an attempt at most once, whatever fails and however often
`serve` is restarted. `started_at` carries it: it is written before the spawn, so
an attempt that was spawned for reads as started as long as its row is there, and
it is taken back only by the pass that knows its spawn failed.
-/

namespace Flowlite

open Store Host Threads Crud Machine Outline

variable {lib : Library} {cond : (flowlite lib).Condition}

/-! ## Counting spawns -/

/-- The attempt an event of the log spawned a command for. -/
def Host.Event.spawned (e : Host.Event) : Option Nat :=
  match e.op, e.result with
  | .spawn taskRunAttemptId _ _, .ok _ => some taskRunAttemptId
  | _, _ => none

/-- How many commands were spawned for an attempt. -/
def Host.World.spawns (w : World) (id : Nat) : Nat :=
  w.log.countP fun e => e.spawned = some id

theorem spawned_eq {t : Tid} {o : Op} {r : Result o} {id : Nat}
    (h : (Host.Event.mk t o r).spawned = some id) :
    (∃ command at', o = .spawn id command at') ∧ Succeeded r := by
  unfold Host.Event.spawned at h
  dsimp only at h
  split at h
  · cases h
    exact ⟨⟨_, _, rfl⟩, _, rfl⟩
  · cases h

theorem spawns_performs {t : Tid} {o : Op} {w w' : World} {r : Result o}
    (h : Performs cond t o w r w') (id : Nat) :
    w'.spawns id = w.spawns id + if (Host.Event.mk t o r).spawned = some id then 1 else 0 := by
  unfold Host.World.spawns
  rw [log_performs h, List.countP_cons]
  simp

/-- What is no spawn of the attempt leaves its count. -/
theorem spawns_kept {t : Tid} {o : Op} {w w' : World} {r : Result o} {id : Nat}
    (h : Performs cond t o w r w') (ho : ∀ command at', o = .spawn id command at' → ¬ Succeeded r) :
    w'.spawns id = w.spawns id := by
  rw [spawns_performs h id, if_neg, Nat.add_zero]
  intro hspawned
  obtain ⟨⟨command, at', rfl⟩, hok⟩ := spawned_eq hspawned
  exact ho command at' rfl hok

/-! ## The outline -/

/-- The attempt reads as started, as long as it is there. -/
def ReadsStarted (id : Nat) (w : World) : Prop :=
  ∀ x, w.db.taskRunAttempts.find id = some x → x.startedAt.isSome = true

/-- The attempt has been inserted, and no command spawned for it. -/
def Unspawned (id : Nat) (w : World) : Prop :=
  w.spawns id = 0 ∧ id < w.db.taskRunAttempts.next

/-- A spawned attempt reads as started; one that is about to be does already, and
no command was ever spawned for it. -/
def spawnsOnce (lib : Library) : Outline (flowlite lib) where
  inv w := ∀ id, w.spawns id ≤ 1 ∧
    (0 < w.spawns id → id < w.db.taskRunAttempts.next ∧ ReadsStarted id w)
  pre _ o w :=
    match o with
    | .spawn id _ _ => Unspawned id w ∧ ReadsStarted id w
    | .write (.updateTaskRunAttempts f i) =>
        i.startedAt = some none → ∀ id, f.id = some id → Unspawned id w
    | _ => True
  idle _ _ := True

/-- Only the dispatcher writes `started_at`. -/
theorem startedAt_kept {t : Tid} {f : UpdateTaskRunAttemptsFilter}
    {i : UpdateTaskRunAttemptsInput} (h : Allowed t (.write (.updateTaskRunAttempts f i)))
    (ht : t ≠ .service .taskRunAttemptDispatcher) : i.startedAt = none := by
  cases h <;> first | rfl | exact absurd rfl ht

theorem readsStarted_stable (hb : cond.Le (base lib).established) (id : Nat) :
    (spawnsOnce lib).Stable cond (.service .taskRunAttemptDispatcher) fun w =>
      id < w.db.taskRunAttempts.next ∧ ReadsStarted id w := by
  rintro w w' hothers ⟨hid, hstarted⟩
  cases hothers with
  | @run u o r hu _ _ hpre hperf =>
      refine ⟨lt_of_lt_of_le hid (taskRunAttempts_next_le hperf), fun x' hx' => ?_⟩
      rcases taskRunAttempt_origin hperf hx' with hx | ⟨i, now, -, -, rfl, -⟩ |
        ⟨x, hx, f, i, rfl, -, hf, rfl⟩
      · exact hstarted x' hx
      · exact absurd hid (lt_irrefl _)
      · have := startedAt_kept (allowed_of hb hperf) hu
        simpa [UpdateTaskRunAttemptsInput.patch, this] using hstarted x hx
  | env _ _ _ hhappens =>
      unfold ReadsStarted
      rw [happens_db hhappens]
      exact ⟨hid, hstarted⟩

theorem unspawned_stable (hb : cond.Le (base lib).established) (id : Nat) :
    (spawnsOnce lib).Stable cond (.service .taskRunAttemptDispatcher) (Unspawned id) := by
  rintro w w' hothers ⟨hnone, hid⟩
  cases hothers with
  | @run u o r hu _ _ hpre hperf =>
      refine ⟨?_, lt_of_lt_of_le hid (taskRunAttempts_next_le hperf)⟩
      rw [spawns_kept hperf, hnone]
      rintro command at' rfl -
      exact hu (allowed_of hb hperf)
  | env _ _ _ hhappens =>
      refine ⟨?_, by rw [happens_db hhappens]; exact hid⟩
      unfold Host.World.spawns at hnone ⊢
      rw [log_happens hhappens]
      exact hnone

theorem spawnsOnce_step (hb : cond.Le (base lib).established) {t : Tid} {o : Op} {w w' : World}
    {r : Result o} (hi : (spawnsOnce lib).inv w) (hpre : (spawnsOnce lib).pre t o w)
    (hperf : Performs cond t o w r w') : (spawnsOnce lib).inv w' := by
  intro id
  by_cases hspawned : (Host.Event.mk t o r).spawned = some id
  · obtain ⟨⟨command, at', rfl⟩, -⟩ := spawned_eq hspawned
    obtain ⟨⟨hnone, hid⟩, hstarted⟩ := hpre
    have hcount : w'.spawns id = 1 := by
      rw [spawns_performs hperf id, if_pos hspawned, hnone]
    have hrows := taskRunAttempts_kept hperf fun h => h
    refine ⟨le_of_eq hcount, fun _ => ?_⟩
    unfold ReadsStarted
    rw [hrows]
    exact ⟨hid, hstarted⟩
  · have hcount : w'.spawns id = w.spawns id := by
      rw [spawns_performs hperf id, if_neg hspawned, Nat.add_zero]
    rw [hcount]
    refine ⟨(hi id).1, fun hpos => ?_⟩
    obtain ⟨hid, hstarted⟩ := (hi id).2 hpos
    refine ⟨lt_of_lt_of_le hid (taskRunAttempts_next_le hperf), fun x' hx' => ?_⟩
    rcases taskRunAttempt_origin hperf hx' with hx | ⟨i, now, -, -, rfl, -⟩ |
      ⟨x, hx, f, i, rfl, -, hf, rfl⟩
    · exact hstarted x' hx
    · exact absurd hid (lt_irrefl _)
    · cases hat : i.startedAt with
      | none => simpa [UpdateTaskRunAttemptsInput.patch, hat] using hstarted x hx
      | some startedAt =>
          cases startedAt with
          | some _ => simp [UpdateTaskRunAttemptsInput.patch, hat]
          | none =>
              -- `started_at` is only taken back where nothing was spawned
              obtain ⟨id', hid'⟩ := updateTaskRunAttempts_id (allowed_of hb hperf)
              have hsame := updateTaskRunAttemptsFilter_holds hid' hf
              have hkey : x.id = id := Table.key_of_find hx
              have hnone := (hpre hat id' hid').1
              rw [← hsame, hkey] at hnone
              omega

/-! ## The dispatcher -/

/-- No spawn, and `started_at` not taken back. -/
def KeepsSpawns : Op → Prop
  | .spawn _ _ _ => False
  | .write (.updateTaskRunAttempts _ i) => i.startedAt ≠ some none
  | _ => True

theorem keepsSpawns_pre {o : Op} (ho : KeepsSpawns o) (t : Tid) (w : World) :
    (spawnsOnce lib).pre t o w := by
  cases o with
  | spawn => exact ho.elim
  | write q =>
      cases q
      case updateTaskRunAttempts f i => exact fun hnone => absurd hnone ho
      all_goals trivial
  | _ => trivial

theorem Silent.keepsSpawns {o : Op} (h : Silent o) : KeepsSpawns o := by
  cases o <;> trivial

theorem unspawned_performs {t : Tid} {o : Op} {w w' : World} {r : Result o} {id : Nat}
    (ho : ∀ command at', o = .spawn id command at' → ¬ Succeeded r) (h : Unspawned id w)
    (hperf : Performs cond t o w r w') : Unspawned id w' :=
  ⟨by rw [spawns_kept hperf ho, h.1], lt_of_lt_of_le h.2 (taskRunAttempts_next_le hperf)⟩

theorem unspawned_uses (hb : cond.Le (base lib).established) {α : Type} {id : Nat} {p : Code α}
    (hp : p.Uses KeepsSpawns) :
    (spawnsOnce lib).Triple cond (.service .taskRunAttemptDispatcher) (Unspawned id) p
      fun _ => Unspawned id := by
  refine Triple.of_uses (unspawned_stable hb id) (hp.mono fun o ho w r w' _ hw hperf => ?_)
  refine ⟨keepsSpawns_pre ho _ _, fun _ => unspawned_performs ?_ hw hperf⟩
  rintro command at' rfl
  exact ho.elim

theorem spawnsOnce_uses {α : Type} {P : World → Prop} {p : Code α} (hp : p.Uses KeepsSpawns) :
    (spawnsOnce lib).Triple cond (.service .taskRunAttemptDispatcher) P p fun _ _ => True := by
  refine Triple.pre ?_ fun _ _ _ => trivial
  exact Triple.of_uses (stable_true _) (hp.mono fun o ho w r w' _ _ _ =>
    ⟨keepsSpawns_pre ho _ _, fun _ => trivial⟩)

theorem settle_keepsSpawns (a : TaskRunAttempt) (status : TaskRunAttemptStatus) :
    (TaskRunAttemptDispatcher.settle a status).Uses KeepsSpawns :=
  (now_silent.mono fun _ h => h.keepsSpawns).bind fun _ => uses_write nofun

/-- The command is spawned while the attempt reads as started, and what is written
after a spawn that failed is that it did not. -/
theorem spawnsOnce_setToRunning (hb : cond.Le (base lib).established) (config : Config)
    (a : TaskRunAttempt) :
    (spawnsOnce lib).Triple cond (.service .taskRunAttemptDispatcher) (Unspawned a.id)
      (TaskRunAttemptDispatcher.setToRunning lib config a) fun _ _ => True := by
  refine Triple.bind (unspawned_uses hb (TaskRunAttemptDispatcher.prepare_uses
    (fun _ h => h.1.keepsSpawns) (fun _ _ => trivial) lib config a))
    (fun (taskRun, command) => ?_) fun _ _ _ _ => trivial
  refine Triple.bind (unspawned_uses hb (now_silent.mono fun _ h => h.keepsSpawns))
    (fun startedAt => ?_) fun _ _ _ _ => trivial
  refine Triple.bind (R := fun r w => r = .ok () → Unspawned a.id w ∧ ReadsStarted a.id w) ?_
    (fun _ => ?_) fun _ _ _ _ => trivial
  · refine Triple.perform (unspawned_stable hb a.id) ?_ ?_
    · exact fun w r w' _ _ _ => keepsSpawns_pre (by nofun) _ _
    · rintro w r w' - hw hperf - rfl
      refine ⟨unspawned_performs (by nofun) hw hperf, fun x' hx' => ?_⟩
      obtain ⟨x, hx, rfl⟩ := updateTaskRunAttempts_row hperf hx'
      rfl
  refine Triple.bind (R := fun r w => ∀ e, r = .ok (.error e) → Unspawned a.id w) ?_
    (fun spawned => ?_) fun _ _ _ _ => trivial
  · refine Triple.attempt (Triple.perform (P := fun w => Unspawned a.id w ∧ ReadsStarted a.id w)
      ?_ ?_ ?_ |>.pre fun w _ h => h rfl)
    · intro w w' hothers h
      exact ⟨unspawned_stable hb a.id w w' hothers h.1,
        (readsStarted_stable hb a.id w w' hothers ⟨h.1.2, h.2⟩).2⟩
    · exact fun w r w' _ h _ => h
    · rintro w r w' - h hperf - e heq
      cases heq
      exact unspawned_performs (by rintro _ _ _ ⟨a, ha⟩; cases ha) h.1 hperf
  · cases spawned with
    | error e =>
        refine Triple.bind (R := fun _ _ => True) ?_ (fun _ => Triple.throw fun _ _ _ => trivial)
          fun _ _ _ _ => trivial
        refine Triple.perform (P := Unspawned a.id) (unspawned_stable hb a.id) ?_
          (fun _ _ _ _ _ _ _ => trivial) |>.pre fun w _ h => h e rfl
        rintro w r w' - hw - - id hid
        cases hid
        exact hw
    | ok child =>
        refine spawnsOnce_uses (Prog.Uses.bind ((Prog.uses_perform _).mpr trivial) fun _ => ?_)
        exact uses_write nofun

theorem spawnsOnce_handle (hb : cond.Le (base lib).established) (config : Config)
    (a : TaskRunAttempt) :
    (spawnsOnce lib).Triple cond (.service .taskRunAttemptDispatcher)
      (fun w => a.startedAt = none → Unspawned a.id w)
      (TaskRunAttemptDispatcher.handleQueuedTaskRunAttempt lib config a) fun _ _ => True := by
  cases hstarted : a.startedAt with
  | some startedAt =>
      have hderive : TaskRunAttemptDispatcher.deriveNextStatus config a = .ret .invalid := by
        simp [TaskRunAttemptDispatcher.deriveNextStatus, hstarted]
      unfold TaskRunAttemptDispatcher.handleQueuedTaskRunAttempt
      rw [hderive]
      exact spawnsOnce_uses (settle_keepsSpawns a .invalid)
  | none =>
      suffices h : (spawnsOnce lib).Triple cond (.service .taskRunAttemptDispatcher)
          (Unspawned a.id) (TaskRunAttemptDispatcher.handleQueuedTaskRunAttempt lib config a)
          fun _ _ => True from h.pre fun w _ h => h rfl
      refine Triple.bind (unspawned_uses hb ((TaskRunAttemptDispatcher.deriveNextStatus_silent
        config a).mono fun _ h => h.keepsSpawns)) (fun status => ?_) fun _ _ _ _ => trivial
      split
      · exact spawnsOnce_uses (settle_keepsSpawns a .invalid)
      · exact spawnsOnce_uses (settle_keepsSpawns a .skipped)
      · exact Triple.ret fun _ _ _ => trivial
      · exact spawnsOnce_setToRunning hb config a
      · exact spawnsOnce_uses (settle_keepsSpawns a .invalid)

theorem spawnsOnce_pass (hb : cond.Le (base lib).established) (config : Config) :
    (spawnsOnce lib).Triple cond (.service .taskRunAttemptDispatcher) (fun _ => True)
      (TaskRunAttemptDispatcher.poller lib config).pass fun _ _ => True := by
  refine Poller.pass_triple
    (K := fun (x : TaskRunAttempt) w => x.startedAt = none → Unspawned x.id w)
    (R := fun (x y : TaskRunAttempt) => x.id ≠ y.id) ?_
    (fun x => Stable.imp_const fun _ => unspawned_stable hb x.id)
    (fun x => (spawnsOnce_handle hb config x).pre fun _ _ h => h.2) (fun x y hxy => ?_)
  · refine Triple.selectTaskRunAttempts (O := spawnsOnce lib) (stable_true _)
      (fun _ _ _ => trivial) (fun _ _ => trivial) fun w r x hi _ hfind _ hstarted => ?_
    refine ⟨?_, Table.lt_next_of_find hfind⟩
    -- were it spawned for, it would read as started
    have hnone : w.spawns x.id = 0 := by
      by_contra hspawned
      have := ((hi x.id).2 (Nat.pos_of_ne_zero hspawned)).2 x hfind
      rw [hstarted] at this
      cases this
    simpa [Host.World.spawns, Host.Event.spawned] using hnone
  · refine (TaskRunAttemptDispatcher.handles lib config x).mono
      fun o ho w r w' _ _ _ hperf h hstarted => unspawned_performs ?_ (h hstarted) hperf
    rintro command at' rfl -
    exact hxy ho.2.symm

theorem spawnsOnce_valid (hb : cond.Le (base lib).established) :
    (spawnsOnce lib).Valid cond where
  init := by
    rintro w rfl
    exact ⟨fun id => ⟨Nat.zero_le _, fun h => absurd h (lt_irrefl _)⟩, fun _ => trivial⟩
  step _ _ _ _ _ hi hpre hperf := spawnsOnce_step hb hi hpre hperf
  env := by
    intro w w' kill hi hhappens
    refine ⟨fun id => ?_, fun _ _ => trivial⟩
    unfold ReadsStarted Host.World.spawns
    rw [happens_db hhappens, log_happens hhappens]
    exact hi id
  idle t := stable_true t
  start := by
    -- no other thread spawns, nor takes `started_at` back
    have hothers : ∀ {t : Tid}, t ≠ .service .taskRunAttemptDispatcher → ∀ p : Code Unit,
        (spawnsOnce lib).Triple cond t (fun _ => True) p fun _ _ => True := by
      intro t ht p
      refine Triple.of_pre fun o w r w' _ hperf => ?_
      have hallowed := allowed_of hb hperf
      refine keepsSpawns_pre ?_ t w
      cases o with
      | spawn => exact absurd hallowed ht
      | write q =>
          cases q
          case updateTaskRunAttempts f i =>
            intro hat
            rw [startedAt_kept hallowed ht] at hat
            cases hat
          all_goals trivial
      | _ => trivial
    refine start_triple (fun config fuel s => ?_) fun c r => hothers (by nofun) _
    refine Triple.pre ?_ fun _ _ _ => trivial
    cases s with
    | taskRunAttemptDispatcher => exact spawnsOnce_pass hb config
    | _ => exact hothers (by nofun) _

end Flowlite

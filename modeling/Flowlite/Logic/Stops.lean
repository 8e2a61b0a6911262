import Flowlite.Logic.Halts
import Flowlite.Logic.Spawns
import Flowlite.Logic.Tallies

/-!
# What a stop leaves to be done

`TaskRunAttemptDispatcher` asks whether a run is stopped once for every attempt, and spawns
at most one command before it asks again (`oneEach`). After a stop it is never told again that
the run is not stopped. So what it may still spawn of a stopped run is the attempt it had
in hand when the stop came.
-/

namespace Flowlite

open Store Host Threads Crud Machine Outline

variable {lib : Library} {cond : (flowlite lib).Condition} {O : Outline (flowlite lib)}

/-! ## What a question answers -/

section Steps

variable {t : Tid} {o : Op} {w w' : World} {r : Result o}

/-- A stop that is there is found. -/
theorem stopQuery_ne_nil {db : Database} {id : Nat}
    (h : ∃ s ∈ db.jobRunStops.rows, s.jobRunId = id) : (stopQuery id).run db ≠ [] := by
  obtain ⟨s, hs, rfl⟩ := h
  have hmem : s ∈ db.jobRunStops.rows.filter
      (SelectJobRunStopsFilter.holds { jobRunId := some s.jobRunId }) :=
    List.mem_filter.mpr ⟨hs, by simp [SelectJobRunStopsFilter.holds, clause]⟩
  show window (some 1) none _ ≠ []
  obtain ⟨first, rest, heq⟩ := List.exists_cons_of_ne_nil (List.ne_nil_of_mem hmem)
  rw [heq]
  simp [window]

/-- Nobody is told that a stopped run is not stopped. -/
theorem not_unstopped_of_stopped {id : Nat}
    (h : Performs cond t (.select (stopQuery id)) w (.ok []) w') : ¬ IsStopped w id := by
  intro hstopped
  rcases select_cases h with ⟨e, herror⟩ | hok
  · cases herror
  · exact stopQuery_ne_nil hstopped (Except.ok.inj hok).symm

/-- A question begins with nothing in hand. -/
theorem inHand_asked (h : Performs cond (.service .taskRunAttemptDispatcher) o w r w')
    (ho : AsksStop o) : w'.inHand = [] := by
  unfold Host.World.inHand
  rw [log_performs h, List.filter_cons]
  simp only [decide_true, if_true, List.takeWhile_cons, asksStop_iff.mpr ho, Bool.not_true,
    Bool.false_eq_true, if_false]

/-! ## One command for one question -/

/-- The dispatcher has spawned nothing since it last asked. -/
def Host.World.Unspent (w : World) : Prop := ∀ e ∈ w.inHand, e.spawned = none

/-- No command is spawned. -/
def SpawnsNone : Op → Prop
  | .spawn _ _ _ => False
  | _ => True

theorem Silent.spawnsNone {o : Op} (h : Silent o) : SpawnsNone o := by
  cases o <;> trivial

theorem SpawnsNone.spawned (h : SpawnsNone o) (t : Tid) (r : Result o) :
    (Host.Event.mk t o r).spawned = none := by
  cases o <;> first | exact h.elim | rfl

theorem unspent_other (h : Performs cond t o w r w') (ht : t ≠ .service .taskRunAttemptDispatcher)
    (hw : w.Unspent) : w'.Unspent := by
  unfold Host.World.Unspent
  rwa [inHand_other h ht]

theorem unspent_own (h : Performs cond (.service .taskRunAttemptDispatcher) o w r w')
    (ho : SpawnsNone o) (hw : AsksStop o ∨ w.Unspent) : w'.Unspent := by
  intro e he
  by_cases hasks : AsksStop o
  · rw [inHand_asked h hasks] at he
    cases he
  · rw [inHand_own h hasks] at he
    rcases List.mem_cons.mp he with rfl | hold
    · exact ho.spawned _ _
    · exact (hw.resolve_left hasks) e hold

end Steps

/-- A command is spawned only where none was since the last question. -/
def oneEach (lib : Library) : Outline (flowlite lib) where
  inv _ := True
  pre _ o w :=
    match o with
    | .spawn _ _ _ => w.Unspent
    | _ => True
  idle _ _ := True

theorem SpawnsNone.pre {o : Op} (h : SpawnsNone o) (t : Tid) (w : World) :
    (oneEach lib).pre t o w := by
  cases o <;> first | exact h.elim | trivial

theorem unspent_stable : O.Stable cond (.service .taskRunAttemptDispatcher) World.Unspent := by
  intro w w' hothers hw
  cases hothers with
  | run hu _ _ _ hperf => exact unspent_other hperf hu hw
  | env _ _ _ hhappens =>
      unfold Host.World.Unspent
      rwa [inHand_happens hhappens]

/-- Code that spawns nothing leaves nothing spent. -/
theorem unspent_uses {α : Type} {p : Code α} (hp : p.Uses SpawnsNone) :
    (oneEach lib).Triple cond (.service .taskRunAttemptDispatcher) World.Unspent p
      fun _ => World.Unspent :=
  Triple.of_uses unspent_stable (hp.mono fun _ ho _ _ _ _ hw h =>
    ⟨ho.pre _ _, fun _ => unspent_own h ho (.inr hw)⟩)

theorem spawnsNone_uses {α : Type} {t : Tid} {p : Code α} (hp : p.Uses SpawnsNone) :
    (oneEach lib).Triple cond t (fun _ => True) p fun _ _ => True :=
  Triple.permanent (.const True) (hp.mono fun _ ho w _ _ => ho.pre _ w)

theorem unspent_asked (id : Nat) :
    (oneEach lib).Triple cond (.service .taskRunAttemptDispatcher) (fun _ => True)
      (isJobRunStopped id) fun _ => World.Unspent := by
  have hselect : (oneEach lib).Triple cond (.service .taskRunAttemptDispatcher) (fun _ => True)
      (select (stopQuery id)) fun _ => World.Unspent :=
    Triple.perform (stable_true _) (fun _ _ _ _ _ _ => trivial)
      fun _ _ _ _ _ hperf _ => unspent_own hperf trivial (.inl trivial)
  have hrow : (oneEach lib).Triple cond (.service .taskRunAttemptDispatcher) (fun _ => True)
      (selectJobRunStop id) fun _ => World.Unspent :=
    Triple.bind hselect (fun _ => Triple.ret fun _ _ h => h) fun _ _ _ h => h
  exact Triple.bind hrow (fun _ => Triple.ret fun _ _ h => h) fun _ _ _ h => h

theorem unspent_derived (config : Config) (a : TaskRunAttempt) :
    (oneEach lib).Triple cond (.service .taskRunAttemptDispatcher) (fun _ => True)
      (TaskRunAttemptDispatcher.deriveNextStatus config a) fun r w =>
        r = .ok .running → w.Unspent := by
  unfold TaskRunAttemptDispatcher.deriveNextStatus
  split
  · exact Triple.ret fun _ _ _ => nofun
  · refine Triple.bind (unspent_asked _) (fun isStopped => ?_) fun _ _ _ _ => nofun
    split
    · exact Triple.ret fun _ _ _ => nofun
    · have hqueued := TaskRunAttemptDispatcher.shouldStayQueued_reads config a
      refine Triple.bind (unspent_uses (hqueued.mono fun _ h => h.1.spawnsNone)) (fun _ => ?_)
        fun _ _ _ _ => nofun
      exact Triple.ret fun _ _ h _ => h

theorem oneEach_setToRunning (config : Config) (a : TaskRunAttempt) :
    (oneEach lib).Triple cond (.service .taskRunAttemptDispatcher) World.Unspent
      (TaskRunAttemptDispatcher.setToRunning lib config a) fun _ _ => True := by
  have hend : ∀ {α : Type} {p : Code α}, p.Uses SpawnsNone →
      (oneEach lib).Triple cond (.service .taskRunAttemptDispatcher) World.Unspent p
        fun _ _ => True := fun hp => (spawnsNone_uses hp).pre fun _ _ _ => trivial
  have hprepare := TaskRunAttemptDispatcher.prepare_uses (P := SpawnsNone)
    (fun _ h => h.1.spawnsNone) (fun _ _ => trivial) lib config a
  have hupdate : ∀ startedAt,
      (TaskRunAttemptDispatcher.updateStartedAt a startedAt).Uses SpawnsNone :=
    fun _ => uses_op trivial
  refine Triple.bind (unspent_uses hprepare) (fun (taskRun, command) => ?_) fun _ _ _ _ => trivial
  refine Triple.bind (unspent_uses (now_silent.mono fun _ h => h.spawnsNone))
    (fun startedAt => ?_) fun _ _ _ _ => trivial
  refine Triple.bind (unspent_uses (hupdate _)) (fun _ => ?_) fun _ _ _ _ => trivial
  have hspawn : (oneEach lib).Triple cond (.service .taskRunAttemptDispatcher) World.Unspent
      (Crud.perform (.spawn a.id command startedAt)) fun _ _ => True :=
    Triple.perform unspent_stable (fun _ _ _ _ h _ => h) fun _ _ _ _ _ _ _ => trivial
  refine Triple.attempt_bind hspawn fun spawned => ?_
  split
  · exact spawnsNone_uses ((hupdate _).bind fun _ => Prog.uses_throw _)
  · exact spawnsNone_uses (Prog.Uses.bind (uses_op trivial) fun _ => uses_op trivial)

theorem oneEach_dispatcher (config : Config) (a : TaskRunAttempt) :
    (oneEach lib).Triple cond (.service .taskRunAttemptDispatcher) (fun _ => True)
      (TaskRunAttemptDispatcher.handleQueuedTaskRunAttempt lib config a) fun _ _ => True := by
  have hsettle : ∀ status, (oneEach lib).Triple cond (.service .taskRunAttemptDispatcher)
      (fun _ => True) (TaskRunAttemptDispatcher.settle a status) fun _ _ => True := fun status =>
    spawnsNone_uses ((now_silent.mono fun _ h => h.spawnsNone).bind fun _ => uses_op trivial)
  refine Triple.bind (unspent_derived config a) (fun status => ?_) fun _ _ _ _ => trivial
  split
  · exact (hsettle .invalid).pre fun _ _ _ => trivial
  · exact (hsettle .skipped).pre fun _ _ _ => trivial
  · exact Triple.ret fun _ _ _ => trivial
  · exact (oneEach_setToRunning config a).pre fun _ _ h => h rfl
  · exact (hsettle .invalid).pre fun _ _ _ => trivial

theorem oneEach_valid (hb : cond.Le (base lib).established) : (oneEach lib).Valid cond where
  init _ _ := ⟨trivial, fun _ => trivial⟩
  step _ _ _ _ _ _ _ _ := trivial
  env _ _ _ _ _ := ⟨trivial, fun _ _ => trivial⟩
  idle t := stable_true t
  start := by
    -- nobody else spawns a command
    have hothers : ∀ {t : Tid}, t ≠ .service .taskRunAttemptDispatcher → ∀ p : Code Unit,
        (oneEach lib).Triple cond t (fun _ => True) p fun _ _ => True := by
      intro t ht p
      refine Triple.of_pre fun o w r w' _ hperf => ?_
      have hallowed := allowed_of hb hperf
      cases o with
      | spawn id command startedAt => exact absurd hallowed ht
      | _ => trivial
    refine start_triple (fun config fuel s => ?_) fun c r => hothers (by nofun) _
    refine Triple.pre ?_ fun _ _ _ => trivial
    cases s with
    | taskRunAttemptDispatcher =>
        exact Poller.pass_each (spawnsNone_uses ((selectTaskRunAttempts_silent _ _).mono
          fun _ h => h.spawnsNone)) fun a => oneEach_dispatcher config a
    | _ => exact hothers (by nofun) _

end Flowlite

import Flowlite.Logic.Halts

/-!
# The gate to Running

`JobRunDispatcher` starts a run in two updates: its task runs are released, and then the
run itself is set to running. `gate` is the outline of a system in which the second always
follows the first: what was released is started, and is not skipped.
-/

namespace Flowlite

open Store Host Threads Crud Machine Outline

variable {lib : Library} {cond : (flowlite lib).Condition} {O : Outline (flowlite lib)}

/-! ## The run that is being started -/

/-- A write of `JobRunDispatcher` that went through. -/
def Host.Event.dispatches (e : Host.Event) : Bool :=
  match e.thread, e.op, e.result with
  | .service .jobRunDispatcher, .write _, .ok _ => true
  | _, _, _ => false

/-- The run whose task runs `JobRunDispatcher` has released and whose status it has
not written yet. -/
def Host.World.releasing (w : World) : Option Nat :=
  (w.log.find? Host.Event.dispatches).bind Host.Event.releases

/-- A start that has released the task runs of a run always comes to write its status. -/
def startsReleased (lib : Library) : (flowlite lib).Condition where
  step t o _ r _ :=
    match t, o, r with
    | .service .jobRunDispatcher, .write (.updateJobRuns _ i), .error _ =>
        i.status ≠ some .running
    | _, _, _ => True
  env e w _ :=
    match e with
    | .crash => w.releasing = none
    | _ => True

instance : (startsReleased lib).Checked where
  step t o w r w' := by
    rcases t with s | n
    case service =>
      rcases s
      case jobRunDispatcher =>
        rcases o with _ | q
        case write =>
          rcases q
          case updateJobRuns f i => rcases r <;> (dsimp only [startsReleased]; infer_instance)
          all_goals exact isTrue trivial
        all_goals exact isTrue trivial
      all_goals exact isTrue trivial
    case client => exact isTrue trivial
  env e w w' := by
    rcases e <;> (dsimp only [startsReleased]; infer_instance)

section Steps

variable {t : Tid} {o : Op} {w w' : World} {r : Result o}

/-- What an update that went through made of the run it names. -/
theorem updateJobRuns_row {id : Nat} {i : UpdateJobRunsInput} {a : Unit}
    (h : Performs cond t (.write (.updateJobRuns { id := some id } i)) w (.ok a) w')
    {x' : JobRun} (hx' : w'.db.jobRuns.find id = some x') :
    ∃ x, w.db.jobRuns.find id = some x ∧ x' = i.patch.apply x := by
  obtain ⟨now, hrun⟩ := write_ok h
  simp only [Write.run, Option.some.injEq, Prod.mk.injEq, true_and] at hrun
  rw [← hrun, Database.updateJobRuns, Table.find_update] at hx'
  obtain ⟨x, hx, rfl⟩ := Option.map_eq_some_iff.mp hx'
  have hkey : x.id = id := Table.key_of_find hx
  exact ⟨x, hx, by simp [UpdateJobRunsFilter.holds, hkey]⟩

/-! ## What a step does to `releasing` -/

theorem releasing_log (h : Performs cond t o w r w') :
    w'.releasing = if (Host.Event.mk t o r).dispatches then (Host.Event.mk t o r).releases
      else w.releasing := by
  unfold Host.World.releasing
  rw [log_performs h, List.find?_cons]
  cases (Host.Event.mk t o r).dispatches <;> rfl

theorem releasing_happens {kill : Tid → Bool} (h : Happens cond w w' kill) :
    w'.releasing = w.releasing := by
  unfold Host.World.releasing
  rw [log_happens h]

theorem releasing_silent {o : Op} {r : Result o} (ho : Silent o) (w : World) :
    ({ w with log := ⟨t, o, r⟩ :: w.log } : World).releasing = w.releasing := by
  have hdispatches : (Host.Event.mk t o r).dispatches = false := by
    cases o <;> first | exact ho.elim | skip
    all_goals
      unfold Host.Event.dispatches
      dsimp only
      split
      · rename_i heq _
        cases heq
      · rfl
  unfold Host.World.releasing
  rw [List.find?_cons, hdispatches]

/-- A step releases a run, or ends what was released before, or has nothing to do
with either. -/
theorem releasing_cases (hb : cond.Le (base lib).established) (h : Performs cond t o w r w') :
    (∃ id, t = .service .jobRunDispatcher ∧
        o = .write (.updateTaskRuns { jobRunId := some id, status := some .planned }
          { status := some .waiting }) ∧
        w'.releasing = some id ∧ (Host.Event.mk t o r).releases = some id) ∨
      (Host.Event.mk t o r).releases = none ∧
        (w'.releasing = w.releasing ∧ (t = .service .jobRunDispatcher → w'.db = w.db) ∨
          t = .service .jobRunDispatcher ∧ (∃ q, o = .write q) ∧ Succeeded r ∧
            w'.releasing = none) := by
  rw [releasing_log h]
  cases hreleases : (Host.Event.mk t o r).releases with
  | some id =>
      obtain ⟨f, i, a, rfl, hi, hf, hr⟩ := releases_event hreleases
      cases hr
      cases allowed_of hb h with
      | releaseTaskRuns =>
          cases hf
          exact .inl ⟨id, rfl, rfl, rfl, rfl⟩
      | endTaskRuns _ hs | dropTaskRun hs => rcases hs with rfl | rfl <;> cases hi
      | settleTaskRun hs _ =>
          cases hi
          cases hs
      | startTaskRun => cases hi
  | none =>
      refine .inr ⟨rfl, ?_⟩
      cases hdispatches : (Host.Event.mk t o r).dispatches with
      | false =>
          refine .inl ⟨rfl, ?_⟩
          rintro rfl
          rcases db_cases h with hdb | ⟨⟨a, rfl⟩, q, now, b, rfl, -⟩
          · exact hdb
          · cases hdispatches
      | true =>
          unfold Host.Event.dispatches at hdispatches
          dsimp only at hdispatches
          split at hdispatches
          · exact .inr ⟨rfl, ⟨_, rfl⟩, ⟨_, rfl⟩, rfl⟩
          · cases hdispatches

/-- Nobody but the dispatcher changes what it is releasing. -/
theorem releasing_others (hb : cond.Le (base lib).established) (h : Performs cond t o w r w')
    (ht : t ≠ .service .jobRunDispatcher) : w'.releasing = w.releasing := by
  rcases releasing_cases hb h with ⟨id, hdispatcher, -⟩ | ⟨-, ⟨hkept, -⟩ | ⟨hdispatcher, -⟩⟩
  · exact absurd hdispatcher ht
  · exact hkept
  · exact absurd hdispatcher ht

end Steps

/-! ## The outline -/

/-- The statuses of a run that has been started. -/
def Store.JobRunStatus.hasStarted : JobRunStatus → Bool
  | .running | .succeeded | .failed | .aborted | .timedOut | .invalid => true
  | .scheduled | .queued | .skipped | .deleted => false

/-- What is being released is still queued, and what has been released is started. -/
structure ReleasedStarts (w : World) : Prop where
  queued : ∀ id, w.releasing = some id → JobRunAt (.service .jobRunDispatcher) id w
  started : ∀ id, w.Released id → w.releasing = some id ∨ JobRunIn JobRunStatus.hasStarted id w

/-- The dispatcher writes a run's status right after it has released its task runs, and
releases nothing else in between. -/
def gate (lib : Library) : Outline (flowlite lib) where
  inv := ReleasedStarts
  pre t o w :=
    match t, o with
    | .service .jobRunDispatcher, .write (.updateTaskRuns _ _) => w.releasing = none
    | .service .jobRunDispatcher, .write (.updateJobRuns f i) =>
        w.releasing = if i.status = some .running then f.id else none
    | _, _ => True
  idle t w := t = .service .jobRunDispatcher → w.releasing = none

theorem hasStarted_kept (before after : JobRunStatus) (h : JobRunMove before after)
    (hstarted : before.hasStarted = true) : after.hasStarted = true := by
  cases h with
  | release hs => rcases hs with rfl | rfl <;> cases hstarted
  | drop hs _ => rcases hs with rfl | rfl | rfl <;> cases hstarted
  | start => cases hstarted
  | settle hfinished hskipped hdeleted =>
      cases after <;> first
        | rfl
        | exact absurd rfl hskipped
        | exact absurd rfl hdeleted
        | cases hfinished
  | delete => cases hstarted

theorem releasedStarts_performs (hb : cond.Le (base lib).established)
    (hj : cond.Le (jobRuns lib).established) (hh : cond.Le (halts lib).established) {t : Tid} {o : Op} {w w' : World} {r : Result o}
    (hi : ReleasedStarts w) (hpre : (gate lib).pre t o w) (h : Performs cond t o w r w') :
    ReleasedStarts w' where
  queued id hid := by
    rcases releasing_cases hb h with ⟨id', rfl, rfl, hreleasing, -⟩ |
      ⟨-, ⟨hkept, hdb⟩ | ⟨-, -, -, hnone⟩⟩
    · rw [hreleasing] at hid
      cases hid
      unfold JobRunAt
      rw [jobRuns_kept h (by nofun)]
      exact ((hh.1 _ _ _ _ _ h.2).2.1 id rfl).1
    · rw [hkept] at hid
      by_cases ht : t = .service .jobRunDispatcher
      · unfold JobRunAt
        rw [hdb ht]
        exact hi.queued id hid
      · exact jobRunAt_stable _ id w w'
          (.run ht trivial trivial (hj.1 _ _ _ _ _ h.2).2.1 h) (hi.queued id hid)
    · rw [hnone] at hid
      cases hid
  started id hid := by
    obtain ⟨e, he, hreleased⟩ := hid
    rw [log_performs h] at he
    have hkeeps : JobRunIn JobRunStatus.hasStarted id w →
        JobRunIn JobRunStatus.hasStarted id w' := jobRunIn_performs hb hj hasStarted_kept h
    rcases releasing_cases hb h with ⟨id', rfl, rfl, hreleasing, hevent⟩ | ⟨hevent, hkept⟩
    · rcases List.mem_cons.mp he with rfl | hold
      · rw [hevent] at hreleased
        cases hreleased
        exact .inl hreleasing
      · rcases hi.started id ⟨e, hold, hreleased⟩ with hbefore | hstarted
        · rw [show w.releasing = none from hpre] at hbefore
          cases hbefore
        · exact .inr (hkeeps hstarted)
    · rcases List.mem_cons.mp he with rfl | hold
      · rw [hevent] at hreleased
        cases hreleased
      · rcases hi.started id ⟨e, hold, hreleased⟩ with hbefore | hstarted
        · rcases hkept with ⟨hkept, -⟩ | ⟨rfl, ⟨q, rfl⟩, ⟨a, rfl⟩, -⟩
          · exact .inl (hkept.trans hbefore)
          · -- the dispatcher has written the status of the run it released
            right
            cases allowed_of hb h with
            | endTaskRuns | releaseTaskRuns =>
                rw [show w.releasing = none from hpre] at hbefore
                cases hbefore
            | endJobRun _ hs =>
                rcases hs with rfl | rfl <;> exact absurd (hbefore.symm.trans hpre) nofun
            | startJobRun =>
                have hown := hbefore.symm.trans hpre
                cases hown
                refine ⟨lt_of_lt_of_le (hi.queued _ hbefore).1 (jobRuns_next_le h),
                  fun x' hx' => ?_⟩
                obtain ⟨x, -, rfl⟩ := updateJobRuns_row h hx'
                rfl
            | submitTask ht | submitNotification ht => rcases ht with ht | ⟨_, ht⟩ <;> cases ht
            | stopChild ht => rcases ht with ht | ht <;> cases ht
        · exact .inr (hkeeps hstarted)

/-! ## The dispatcher -/

theorem releasing_stable (hb : cond.Le (base lib).established) (id : Option Nat) :
    O.Stable cond (.service .jobRunDispatcher) fun w => w.releasing = id := by
  intro w w' hothers hreleasing
  cases hothers with
  | run hu _ _ _ hperf => rw [releasing_others hb hperf hu, hreleasing]
  | env _ _ _ hhappens => rw [releasing_happens hhappens, hreleasing]

/-- A step of the dispatcher that releases nothing, and starts nothing. -/
def StaysAtRest (o : Op) : Prop :=
  (∀ f i, o = .write (.updateTaskRuns f i) → i.status ≠ some .waiting) ∧
    ∀ f i, o = .write (.updateJobRuns f i) → i.status ≠ some .running

theorem Silent.staysAtRest {o : Op} (h : Silent o) : StaysAtRest o :=
  ⟨fun _ _ => fun heq => absurd heq (silent_not_write h _),
    fun _ _ => fun heq => absurd heq (silent_not_write h _)⟩

theorem gate_rests (hb : cond.Le (base lib).established) {α : Type} {p : Code α}
    (hp : p.Uses StaysAtRest) :
    (gate lib).Triple cond (.service .jobRunDispatcher) (fun w => w.releasing = none) p
      fun _ w => w.releasing = none := by
  refine Triple.of_uses (releasing_stable hb none) (hp.mono fun o ho w r w' _ hw hperf =>
    ⟨?_, fun _ => ?_⟩)
  · unfold gate
    dsimp only
    split
    · exact hw
    · rw [if_neg (ho.2 _ _ rfl)]
      exact hw
    · trivial
  · rcases releasing_cases hb hperf with ⟨id, -, rfl, -⟩ | ⟨-, ⟨hkept, -⟩ | ⟨-, -, -, hnone⟩⟩
    · exact absurd rfl (ho.1 _ _ rfl)
    · exact hkept.trans hw
    · exact hnone

theorem settleUnstarted_rests (ts : TaskRunStatus) (js : JobRunStatus) (hts : ts ≠ .waiting)
    (hjs : js ≠ .running) (id : Nat) : (settleUnstarted ts js id).Uses StaysAtRest := by
  refine (now_silent.mono fun o ho => ho.staysAtRest).bind fun now => Prog.Uses.bind
    (uses_write ⟨fun f i heq => ?_, fun _ _ heq => (nomatch heq)⟩)
    fun _ => uses_write ⟨fun _ _ heq => (nomatch heq), fun f i heq => ?_⟩
  · cases heq
    exact fun h => hts (Option.some.inj h)
  · cases heq
    exact fun h => hjs (Option.some.inj h)

/-- From the release of its task runs to its own status, a run is the one being released. -/
theorem gate_starts (hc : cond.Le (startsReleased lib)) (hb : cond.Le (base lib).established)
    (config : Config) (x : JobRun) :
    (gate lib).Triple cond (.service .jobRunDispatcher) (fun w => w.releasing = none)
      (JobRunDispatcher.setToRunning config x) fun _ w => w.releasing = none := by
  have hrelease : (gate lib).Triple cond (.service .jobRunDispatcher)
      (fun w => w.releasing = none)
      (updateTaskRuns { jobRunId := some x.id, status := some .planned }
        { status := some .waiting }) fun r w =>
          (r = .ok () → w.releasing = some x.id) ∧ ∀ e, r = .error e → w.releasing = none := by
    refine Triple.perform (releasing_stable hb _) (fun w _ _ _ h _ => h)
      fun w r w' _ h hperf _ => ?_
    have hreleasing := releasing_log hperf
    cases r with
    | ok a => exact ⟨fun _ => hreleasing, fun e he => (by cases he)⟩
    | error e => exact ⟨fun he => (by cases he), fun _ _ => hreleasing.trans h⟩
  have hstart : ∀ now, (gate lib).Triple cond (.service .jobRunDispatcher)
      (fun w => w.releasing = some x.id)
      (updateJobRuns { id := some x.id }
        { status := some .running, startedAt := some (some now) })
      fun _ w => w.releasing = none := by
    intro now
    refine Triple.perform (releasing_stable hb _) (fun w _ _ _ h _ => h)
      fun w r w' _ h hperf _ => ?_
    have hreleasing := releasing_log hperf
    cases r with
    | ok a => exact hreleasing
    | error e => exact absurd rfl (hc.1 _ _ _ _ _ hperf.2)
  refine Triple.bind (gate_rests hb (createJobRunDir_uses (fun o ho => ho.staysAtRest)
    (fun _ => ⟨fun _ _ heq => (by cases heq), fun _ _ heq => (by cases heq)⟩) _ _)) (fun dir => ?_)
    fun _ _ _ h => h
  refine Triple.bind hrelease (fun _ => Triple.pre ?_ fun w _ h => h.1 rfl) fun e _ _ h => h.2 e rfl
  refine Triple.bind (Triple.now (releasing_stable hb _)
    (fun w o r ho h => (releasing_silent ho w).trans h) fun o w ho _ => ?_)
    (fun now => (hstart now).pre fun _ _ h => h.1) fun e w _ h => absurd rfl (h.2 e)
  unfold gate
  dsimp only
  split <;> first | exact ho.elim | trivial

theorem gate_dispatcher (hc : cond.Le (startsReleased lib)) (hb : cond.Le (base lib).established)
    (config : Config) (x : JobRun) :
    (gate lib).Triple cond (.service .jobRunDispatcher) (fun w => w.releasing = none)
      (JobRunDispatcher.handleQueuedJobRun config x) fun _ w => w.releasing = none := by
  refine Triple.bind (gate_rests hb ((jobRunDispatcher_derives config x).mono
    fun o ho => ho.staysAtRest)) (fun status => ?_) fun _ _ _ h => h
  split
  · exact gate_rests hb (settleUnstarted_rests .skipped .skipped nofun nofun x.id)
  · exact Triple.ret fun _ _ h => h
  · exact gate_starts hc hb config x
  · exact gate_rests hb (settleUnstarted_rests .invalid .invalid nofun nofun x.id)

theorem gate_valid (hc : cond.Le (startsReleased lib)) (hb : cond.Le (base lib).established)
    (hj : cond.Le (jobRuns lib).established) (hh : cond.Le (halts lib).established) :
    (gate lib).Valid cond where
  init w hw := by
    have hw : w = .fresh := hw
    subst hw
    refine ⟨⟨nofun, ?_⟩, fun _ _ => rfl⟩
    rintro id ⟨e, he, -⟩
    exact absurd he List.not_mem_nil
  step _ _ _ _ _ hi hpre h := releasedStarts_performs hb hj hh hi hpre h
  env w w' kill hi h := by
    have hreleasing := releasing_happens h
    refine ⟨⟨fun id hid => ?_, fun id hid => ?_⟩, fun t hkill ht => ?_⟩
    · unfold JobRunAt
      rw [happens_db h]
      exact hi.queued id (hreleasing ▸ hid)
    · unfold Host.World.Released at hid
      rw [log_happens h] at hid
      rw [hreleasing]
      exact (hi.started id hid).imp_right (jobRunIn_happens h)
    · subst ht
      obtain ⟨e, he, hce⟩ := h
      have hcrash := external_service he hkill
      subst hcrash
      rw [hreleasing]
      exact hc.2 _ _ _ hce
  idle t := by
    intro w w' hothers hidle ht
    subst ht
    exact releasing_stable hb none w w' hothers (hidle rfl)
  start := by
    have hothers : ∀ {t : Tid} {P : World → Prop}, t ≠ .service .jobRunDispatcher →
        ∀ p : Code Unit, (gate lib).Triple cond t P p
          fun _ w => t = .service .jobRunDispatcher → w.releasing = none := by
      intro t P ht p
      refine ((Triple.of_pre fun o w r w' _ hperf => ?_).pre fun _ _ _ => trivial).post
        fun _ _ _ _ h => absurd h ht
      unfold gate
      dsimp only
      split <;> first | exact absurd rfl ht | trivial
    refine start_triple (fun config fuel s => ?_) fun c r => hothers (by nofun) _
    by_cases hs : s = .jobRunDispatcher
    · subst hs
      have hpass : (gate lib).Triple cond (.service .jobRunDispatcher)
          (fun w => w.releasing = none) (JobRunDispatcher.poller config).pass
          fun _ w => w.releasing = none :=
        Poller.pass_each (gate_rests hb ((selectJobRuns_silent _).mono
          fun o ho => ho.staysAtRest)) fun x => gate_dispatcher hc hb config x
      exact hpass.conseq (fun _ _ h => h.1 rfl) fun _ _ _ h _ => h
    · exact hothers (fun h => hs (Tid.service.inj h)) _

end Flowlite

import Flowlite.Logic.Announcements

/-!
# Rows nobody wants

A run that ended otherwise than a notification asks for leaves its row open until the
service comes to it. What the service does then is told by the history: which open rows it
selected, which run it read for each, and what it did next. `closings` is the outline that
goes through a pass with it, and says that an update of a row is the only one there ever is.
-/

namespace Flowlite

open Store Host Threads Crud Machine Outline

variable {lib : Library} {cond : (flowlite lib).Condition} {O : Outline (flowlite lib)}

/-! ## The pass of the service, as the history tells it -/

/-- How far the latest pass of `NotificationService` has come. -/
structure Host.NotificationPass where
  /-- The open rows it has selected, and read no run for yet. -/
  waiting : List JobRunNotification
  /-- The row in hand, the run of which was read as ended otherwise. -/
  owed : Option Nat

/-- Before the first pass of a serve process. -/
def Host.NotificationPass.fresh : NotificationPass := ⟨[], none⟩

/-- The run has ended, and not as the notification asks. -/
def Store.JobRunNotification.isMissed (n : JobRunNotification) (x : JobRun) : Bool :=
  x.status.isFinished && !Notifications.wants n.notifyOn x.status

def Host.NotificationPass.after (p : NotificationPass) (e : Host.Event) : NotificationPass :=
  match e.thread, e.op, e.result with
  | .service .notifications, .select (.jobRunNotifications _), .ok rows => ⟨rows, none⟩
  | .service .notifications, .select (.jobRuns _), .ok runs =>
      ⟨p.waiting.tail,
        p.waiting.head?.bind fun n => if runs.head?.any n.isMissed then some n.id else none⟩
  | .service .notifications, .select (.jobRuns _), .error _ => ⟨p.waiting.tail, none⟩
  | .service .notifications, .write (.updateJobRunNotification _ _), _ => ⟨p.waiting, none⟩
  | _, .startServices, _ => .fresh
  | _, _, _ => p

def Host.notificationPass (log : List Host.Event) : NotificationPass :=
  log.foldr (fun e p => p.after e) .fresh

/-- Closes the row as one nobody needs. -/
def closesRow (id : Nat) : Op := .write (.updateJobRunNotification id { status := some .skipped })

/-- What the service may do behind this history: close the row it owes that before anything
else, read the run of the row that is next, and ask for open rows once it is through. -/
structure InTheirTurn (before : List Host.Event) (o : Op) : Prop where
  closes : ∀ id, (notificationPass before).owed = some id → o = closesRow id
  reads : ∀ q, o = .select (.jobRuns q) → ∃ n rest,
    (notificationPass before).waiting = n :: rest ∧ q.filter = { id := some n.jobRunId }
  asks : ∀ f, o = .select (.jobRunNotifications f) →
    f = { status := some .pending } ∧ (notificationPass before).waiting = []

/-- The row was updated. -/
def Updated (id : Nat) (log : List Host.Event) : Prop :=
  ∃ t i, ⟨t, .write (.updateJobRunNotification id i), .ok ()⟩ ∈ log

/-- A row that nothing was made of so far. -/
def Untouched (id : Nat) (w : World) : Prop :=
  id < w.db.jobRunNotifications.next ∧ ¬ Updated id w.log

/-- The service goes through its rows in their turn, and a row reads what was made of it. -/
structure Closings (w : World) : Prop where
  inTurn : ∀ after e before, w.log = after ++ e :: before → e.thread = .service .notifications →
    InTheirTurn before e.op
  reads : ∀ t id i, ⟨t, .write (.updateJobRunNotification id i), .ok ()⟩ ∈ w.log →
    id < w.db.jobRunNotifications.next ∧ ∃ s, i.status = some s ∧ s ≠ .pending ∧
      ∀ x, w.db.jobRunNotifications.find id = some x → x.status = s

/-- The service is through with its rows, or has none of a serve process that is gone. -/
def closings (lib : Library) : Outline (flowlite lib) where
  inv := Closings
  pre t o w := t = .service .notifications → InTheirTurn w.log o ∧
    ∀ id i, o = .write (.updateJobRunNotification id i) →
      (∃ s, i.status = some s ∧ s ≠ .pending) ∧ Untouched id w
  idle t w := t = .service .notifications → ∀ config, w.serve = .up config →
    notificationPass w.log = .fresh

section Steps

variable {t : Tid} {o : Op} {w w' : World} {r : Result o}

theorem notificationPass_performs (h : Performs cond t o w r w') :
    notificationPass w'.log = (notificationPass w.log).after ⟨t, o, r⟩ := by
  unfold notificationPass
  rw [log_performs h, List.foldr_cons]

/-- The operations a pass is told by. -/
def PagesRows : Op → Prop
  | .select (.jobRuns _) | .select (.jobRunNotifications _) | .startServices
  | .write (.updateJobRunNotification _ _) => True
  | _ => False

theorem notificationPass_kept (ho : ¬ PagesRows o) (log : List Host.Event) :
    notificationPass (⟨t, o, r⟩ :: log) = notificationPass log := by
  unfold notificationPass
  rw [List.foldr_cons]
  unfold Host.NotificationPass.after
  dsimp only
  split <;> first | rfl | exact absurd trivial ho

theorem notificationPass_others (ht : t ≠ .service .notifications) (ho : o ≠ .startServices)
    (log : List Host.Event) : notificationPass (⟨t, o, r⟩ :: log) = notificationPass log := by
  unfold notificationPass
  rw [List.foldr_cons]
  unfold Host.NotificationPass.after
  dsimp only
  split <;> first | rfl | exact absurd rfl ht | exact absurd rfl ho

/-- An operation that is none of those is in turn, where no row is owed. -/
theorem inTheirTurn_of_not_pages {log : List Host.Event}
    (hnone : (notificationPass log).owed = none) (ho : ¬ PagesRows o) : InTheirTurn log o where
  closes id hid := by
    rw [hnone] at hid
    cases hid
  reads q hq := absurd (hq ▸ trivial) ho
  asks f hf := absurd (hf ▸ trivial) ho

theorem untouched_performs (h : Performs cond t o w r w') {id : Nat}
    (ho : ∀ i, o ≠ .write (.updateJobRunNotification id i)) (hw : Untouched id w) :
    Untouched id w' := by
  refine ⟨lt_of_lt_of_le hw.1 (jobRunNotifications_next_le h), ?_⟩
  rintro ⟨u, i, hmem⟩
  rw [log_performs h] at hmem
  rcases List.mem_cons.mp hmem with heq | hmem
  · cases heq
    exact ho i rfl
  · exact hw.2 ⟨u, i, hmem⟩

theorem closings_performs (hb : cond.Le (base lib).established) (hi : Closings w)
    (hpre : (closings lib).pre t o w) (h : Performs cond t o w r w') : Closings w' := by
  refine ⟨fun after e before hlog ht => ?_, fun u id i hmem => ?_⟩
  · rw [log_performs h] at hlog
    cases after with
    | nil =>
        obtain ⟨rfl, rfl⟩ := List.cons.inj hlog
        exact (hpre ht).1
    | cons e' after => exact hi.inTurn after e before (List.cons.inj hlog).2 ht
  · have hnext := jobRunNotifications_next_le h
    rw [log_performs h] at hmem
    rcases List.mem_cons.mp hmem with heq | hold
    · -- the row reads what the update of this step made of it
      cases heq
      have ht := notifies_thread (allowed_of hb h) (show Notifies _ from trivial)
      obtain ⟨⟨s, hs, hne⟩, hid, -⟩ := (hpre ht).2 id i rfl
      refine ⟨lt_of_lt_of_le hid hnext, s, hs, hne, fun x' hx' => ?_⟩
      obtain ⟨x, -, rfl⟩ := updateJobRunNotification_row h hx'
      simp [UpdateJobRunNotificationsInput.patch, hs]
    · obtain ⟨hid, s, hs, hne, hreads⟩ := hi.reads u id i hold
      refine ⟨lt_of_lt_of_le hid hnext, s, hs, hne, fun x' hx' => ?_⟩
      rcases jobRunNotification_origin h hx' with hx | ⟨_, _, -, -, hnew, -⟩ | ⟨x, j, hx, rfl, -, -⟩
      · exact hreads x' hx
      · exact absurd hid (by omega)
      · -- there is no second update of a row
        have ht := notifies_thread (allowed_of hb h) (show Notifies _ from trivial)
        exact absurd ⟨u, i, hold⟩ ((hpre ht).2 id j rfl).2.2

theorem closings_happens {kill : Tid → Bool} (hi : Closings w) (h : Happens cond w w' kill) :
    Closings w' := by
  have hlog := log_happens h
  have hdb := happens_db h
  exact ⟨by rw [hlog]; exact hi.inTurn, by rw [hlog, hdb]; exact hi.reads⟩

end Steps

/-! ## One pass -/

namespace Notifications

/-- The service has come this far: `hand` is the row in hand, and `rest` is to come. -/
structure Page (config : Config) (hand rest : List JobRunNotification) (owed : Option Nat)
    (w : World) : Prop where
  serve : w.serve = .up config
  pass : notificationPass w.log = ⟨rest, owed⟩
  untouched : ∀ y ∈ hand ++ rest, Untouched y.id w
  distinct : (hand ++ rest).Pairwise fun x y => x.id ≠ y.id

variable {config : Config} {n : JobRunNotification} {hand rest : List JobRunNotification}
  {owed : Option Nat} {w w' : World}

/-- The row in hand has been dealt with. -/
theorem Page.drop (h : Page config [n] rest owed w) : Page config [] rest owed w :=
  ⟨h.serve, h.pass, fun y hy => h.untouched y (List.mem_cons_of_mem n hy),
    (List.pairwise_cons.mp h.distinct).2⟩

theorem page_performs {o : Op} {r : Result o} (ho : ¬ PagesRows o)
    (hperf : Performs cond thread o w r w') (h : Page config hand rest owed w) :
    Page config hand rest owed w' where
  serve := by
    rcases serve_cases hperf with heq | ⟨rfl, -⟩
    · exact heq.trans h.serve
    · exact absurd trivial ho
  pass := by
    rw [log_performs hperf, notificationPass_kept ho]
    exact h.pass
  untouched y hy := untouched_performs hperf (fun i hi => ho (hi ▸ trivial)) (h.untouched y hy)
  distinct := h.distinct

theorem page_stable (hb : cond.Le (base lib).established) :
    O.Stable cond thread (Page config hand rest owed) := by
  intro w w' hothers h
  have hserve := ServedBy.stable hb config thread w w' hothers h.serve
  cases hothers with
  | run hu _ _ _ hperf =>
      refine ⟨hserve, ?_, fun y hy => ?_, h.distinct⟩
      · rw [log_performs hperf, notificationPass_others hu (not_started hperf h.serve)]
        exact h.pass
      · refine untouched_performs hperf ?_ (h.untouched y hy)
        rintro i rfl
        exact hu (notifies_thread (allowed_of hb hperf) trivial)
  | env _ _ _ hhappens =>
      refine ⟨hserve, by rw [log_happens hhappens]; exact h.pass, fun y hy => ?_, h.distinct⟩
      unfold Untouched
      rw [log_happens hhappens, happens_db hhappens]
      exact h.untouched y hy

/-- What tells nothing of a pass leaves the page as it is. -/
theorem page_uses (hb : cond.Le (base lib).established) {α : Type} {p : Code α}
    (hp : p.Uses fun o => ¬ PagesRows o) :
    (closings lib).Triple cond thread (Page config hand rest none) p
      fun _ => Page config hand rest none :=
  Triple.of_uses (page_stable hb) (hp.mono fun _ ho _ _ _ _ h hperf =>
    ⟨fun _ => ⟨inTheirTurn_of_not_pages (congrArg NotificationPass.owed h.pass) ho,
      fun _ _ hi => absurd (hi ▸ trivial) ho⟩, fun _ => page_performs ho hperf h⟩)

/-- The row in hand is updated, as it is owed if it is. -/
theorem closings_record (hb : cond.Le (base lib).established) {i : UpdateJobRunNotificationsInput}
    (hstatus : ∃ s, i.status = some s ∧ s ≠ .pending)
    (howed : ∀ id, owed = some id → Op.write (.updateJobRunNotification n.id i) = closesRow id) :
    (closings lib).Triple cond thread (Page config [n] rest owed) (record n i)
      fun _ => Page config [] rest none := by
  refine Triple.perform (page_stable hb) (fun w _ _ _ h _ _ => ⟨⟨fun id hid => ?_, fun q hq => ?_,
    fun f hf => ?_⟩, fun id j hj => ?_⟩)
    fun w r w' _ h hperf _ => ⟨?_, ?_, fun y hy => ?_, h.drop.distinct⟩
  · rw [h.pass] at hid
    exact howed id hid
  · cases hq
  · cases hf
  · cases hj
    exact ⟨hstatus, h.untouched n List.mem_cons_self⟩
  · exact ServedBy.kept hperf nofun (t := thread) h.serve
  · rw [notificationPass_performs hperf, h.pass]
    rfl
  · refine untouched_performs hperf (fun j hj => ?_) (h.drop.untouched y hy)
    simp only [Op.write.injEq, Write.updateJobRunNotification.injEq] at hj
    exact (List.pairwise_cons.mp h.distinct).1 y hy hj.1

/-- The run of the next row is read. -/
theorem closings_read (hb : cond.Le (base lib).established) :
    (closings lib).Triple cond thread (Page config [] (n :: rest) none)
      (selectJobRun { id := some n.jobRunId }) fun r => match r with
        | .ok found => Page config [n] rest (if found.any n.isMissed then some n.id else none)
        | .error _ => Page config [n] rest none := by
  refine Triple.bind (R := fun r => match r with
      | .ok (runs : List JobRun) =>
          Page config [n] rest (if runs.head?.any n.isMissed then some n.id else none)
      | .error _ => Page config [n] rest none)
    (Triple.perform (page_stable hb) (fun w _ _ _ h _ _ => ⟨⟨fun id hid => ?_, fun q hq => ?_,
      fun f hf => ?_⟩, fun id i hi => ?_⟩) fun w r w' _ h hperf _ => ?_)
    (fun runs => Triple.ret fun _ _ h => h) fun _ _ _ h => h
  · rw [h.pass] at hid
    cases hid
  · cases hq
    exact ⟨n, rest, congrArg NotificationPass.waiting h.pass, rfl⟩
  · cases hf
  · cases hi
  · have hserve : w'.serve = .up config := ServedBy.kept hperf nofun (t := thread) h.serve
    have huntouched : ∀ y ∈ [n] ++ rest, Untouched y.id w' := fun y hy =>
      untouched_performs hperf nofun (h.untouched y hy)
    have hpass : notificationPass w'.log = NotificationPass.after ⟨n :: rest, none⟩
        (Host.Event.mk thread
          (.select (.jobRuns { filter := { id := some n.jobRunId }, limit := some 1 })) r) := by
      rw [← h.pass]
      exact notificationPass_performs hperf
    cases r with
    | ok runs => exact ⟨hserve, hpass, huntouched, h.distinct⟩
    | error e => exact ⟨hserve, hpass, huntouched, h.distinct⟩

/-- What is sent is recorded, and no row is owed meanwhile. -/
theorem closings_deliver (hb : cond.Le (base lib).established) (jobRun : JobRun) :
    (closings lib).Triple cond thread (Page config [n] rest none) (do
      let taskRuns ← selectTaskRuns { jobRunId := some jobRun.id }
      let failures ← Prog.collect
        (taskRuns.filter fun t => t.status = .failed || t.status = .timedOut) getFailure
      match ← (Crud.perform (.sendNotification n n.channel n.recipients
          { jobRun, taskRuns, failures })).attempt with
      | .error error =>
          record n { status := some .failed, error := some error.text }
          Prog.throw error
      | .ok _ =>
          let now ← now
          record n { status := some .sent, sentAt := some (some now) })
      fun _ => Page config [] rest none := by
  have hfailure : ∀ r : TaskRun, (getFailure r).Uses fun o => ¬ PagesRows o := by
    intro r
    refine Prog.Uses.bind (uses_select id) fun attempts => ?_
    split
    · trivial
    · exact Prog.Uses.bind (uses_select id) fun _ => trivial
  refine Triple.bind (page_uses hb ((Prog.uses_perform _).mpr id)) (fun taskRuns => ?_)
    fun _ _ _ h => h.drop
  refine Triple.bind (page_uses hb (Prog.Uses.collect fun r _ => hfailure r)) (fun failures => ?_)
    fun _ _ _ h => h.drop
  refine Triple.attempt_bind (page_uses hb ((Prog.uses_perform _).mpr id)) fun sent => ?_
  cases sent with
  | error error =>
      exact Triple.bind (closings_record hb ⟨.failed, rfl, nofun⟩ nofun)
        (fun _ => Triple.throw fun _ _ h => h) fun _ _ _ h => h
  | ok _ =>
      exact Triple.bind (page_uses hb ((Prog.uses_perform _).mpr id))
        (fun now => closings_record hb ⟨.sent, rfl, nofun⟩ nofun) fun _ _ _ h => h.drop

/-- One open row: its run is read, and it is closed, sent about or left open. -/
theorem closings_handle (hb : cond.Le (base lib).established) :
    (closings lib).Triple cond thread (Page config [] (n :: rest) none)
      (handleOpenNotification n) fun _ => Page config [] rest none := by
  have hread : (closings lib).Triple cond thread (Page config [] (n :: rest) none)
      (Crud.getJobRun n.jobRunId) fun r => match r with
        | .ok x => Page config [n] rest (if n.isMissed x then some n.id else none)
        | .error _ => Page config [n] rest none := by
    refine Triple.bind (closings_read hb) (fun found => ?_) fun _ _ _ h => h
    cases found with
    | none => exact Triple.throw fun _ _ h => h
    | some x => exact Triple.ret fun _ _ h => h
  refine Triple.bind hread (fun x => ?_) fun _ _ _ h => h.drop
  by_cases hfinished : x.status.isFinished = true
  · by_cases hwants : wants n.notifyOn x.status = true
    · have hnone : n.isMissed x = false := by simp [JobRunNotification.isMissed, hwants]
      simp only [hfinished, hwants, hnone, Bool.not_true, Bool.false_eq_true, if_false]
      exact closings_deliver hb x
    · have hmissed : n.isMissed x = true := by simp [JobRunNotification.isMissed, hfinished, hwants]
      simp only [hfinished, hwants, hmissed, Bool.not_true, Bool.false_eq_true, if_false,
        Bool.not_false, if_true]
      refine closings_record hb ⟨.skipped, rfl, nofun⟩ fun id hid => ?_
      cases hid
      rfl
  · have hnone : n.isMissed x = false := by simp [JobRunNotification.isMissed, hfinished]
    simp only [hfinished, hnone, Bool.not_false, if_true, Bool.false_eq_true, if_false]
    exact Triple.ret fun _ _ h => h.drop

/-- One pass of the service. -/
theorem closings_pass (hb : cond.Le (base lib).established) (config : Config) :
    (closings lib).Triple cond thread (Page config [] [] none) poller.pass
      fun _ => Page config [] [] none := by
  refine Triple.bind (R := fun (r : Except Err (List JobRunNotification)) =>
      Page config [] (r.toOption.getD []) none)
    (Triple.perform (page_stable hb) (fun w _ _ _ h _ _ => ⟨⟨fun id hid => ?_, fun q hq => ?_,
      fun f hf => ?_⟩, fun id i hi => ?_⟩) fun w r w' hi h hperf _ => ?_) (fun rows => ?_)
    fun _ _ _ h => h
  · rw [h.pass] at hid
    cases hid
  · cases hq
  · cases hf
    exact ⟨rfl, congrArg NotificationPass.waiting h.pass⟩
  · cases hi
  · have hserve : w'.serve = .up config := ServedBy.kept hperf (by rintro ⟨⟩) (t := thread) h.serve
    have hpass : notificationPass w'.log = NotificationPass.after .fresh (Host.Event.mk thread
        (.select (.jobRunNotifications { status := some .pending })) r) := by
      have hfresh : notificationPass w.log = .fresh := h.pass
      rw [← hfresh]
      exact notificationPass_performs hperf
    cases r with
    | error e => exact ⟨hserve, hpass, fun y hy => absurd hy List.not_mem_nil, .nil⟩
    | ok rows =>
        rcases select_cases hperf with ⟨e, he⟩ | hrows
        · cases he
        have hrows : rows = w.db.selectJobRunNotifications { status := some .pending } :=
          Except.ok.inj hrows
        refine ⟨hserve, hpass, fun y hy => ?_, ?_⟩
        · -- an open row reads as it was written
          rw [List.nil_append, hrows] at hy
          obtain ⟨hrow, hholds⟩ := List.mem_filter.mp hy
          have hpending : y.status = .pending := by
            simpa [SelectJobRunNotificationsFilter.holds] using hholds
          refine untouched_performs hperf (by rintro i ⟨⟩)
            ⟨Table.lt_next_of_find (Table.find_of_mem hrow), ?_⟩
          rintro ⟨u, i, hmem⟩
          obtain ⟨-, s, -, hne, hreads⟩ := hi.reads u y.id i hmem
          exact hne ((hreads y (Table.find_of_mem hrow)).symm.trans hpending)
        · rw [List.nil_append, hrows]
          exact (w.db.jobRunNotifications.ordered.filter _).imp fun hlt => ne_of_lt hlt
  · have hbody : ∀ n rest, (closings lib).Triple cond thread (Page config [] (n :: rest) none)
        ((handleOpenNotification n).attempt.bind fun _ => .ret ())
        fun r w => (∀ e, r ≠ .error e) ∧ Page config [] rest none w :=
      fun n rest => Triple.attempt_bind (closings_handle hb) fun _ =>
        Triple.ret fun _ _ h => ⟨by rintro e ⟨⟩, h⟩
    induction rows with
    | nil => exact Triple.ret fun _ _ h => h
    | cons n rest ih =>
        exact (hbody n rest).bind (fun _ => ih.pre fun _ _ h => h.2) fun e _ _ h =>
          absurd rfl (h.1 e)

end Notifications

theorem closings_valid (hb : cond.Le (base lib).established) : (closings lib).Valid cond where
  init := by
    rintro w rfl
    refine ⟨⟨fun after e before hlog => ?_, fun t id i hmem => absurd hmem List.not_mem_nil⟩,
      fun _ _ _ _ => rfl⟩
    cases after <;> cases hlog
  step _ _ _ _ _ hi hpre hperf := closings_performs hb hi hpre hperf
  env := by
    intro w w' kill hi hhappens
    refine ⟨closings_happens hi hhappens, fun t ht hthread config hserve => ?_⟩
    subst hthread
    -- a crash ends the serve process too
    obtain ⟨e, he, -⟩ := hhappens
    obtain rfl := external_service he ht
    have hdown : w'.serve = .down := external_crash_serve he
    rw [hdown] at hserve
    cases hserve
  idle t := by
    intro w w' hothers hidle hthread config hserve
    cases hothers with
    | run hu _ _ _ hperf =>
        rcases serve_cases hperf with heq | ⟨rfl, -⟩
        · have hserve : w.serve = .up config := heq.symm.trans hserve
          rw [log_performs hperf,
            notificationPass_others (hthread ▸ hu) (not_started hperf hserve)]
          exact hidle hthread config hserve
        · have hrecovery : _ = Tid.service .recovery := allowed_of hb hperf
          rw [notificationPass_performs hperf, hrecovery]
          rfl
    | env hkill _ _ hhappens =>
        rw [log_happens hhappens]
        obtain ⟨e, he, -⟩ := hhappens
        rcases external_serve he with heq | ⟨-, config', hstarting⟩ | ⟨-, hdown, -⟩
        · exact hidle hthread config (heq.symm.trans hserve)
        · rw [hstarting] at hserve
          cases hserve
        · rw [hdown] at hserve
          cases hserve
  start := by
    have hothers : ∀ {t : Tid}, t ≠ .service .notifications → ∀ (P : World → Prop) (p : Code Unit),
        (closings lib).Triple cond t P p fun _ => (closings lib).idle t := by
      intro t ht P p
      exact (Triple.of_pre fun o w r w' _ hperf hthread => absurd hthread ht).conseq
        (fun _ _ _ => trivial) fun _ _ _ _ hthread => absurd hthread ht
    refine start_triple_served (fun config fuel s => ?_) fun c r => hothers (by nofun) _ _
    by_cases hs : s = .notifications
    · subst hs
      refine (Notifications.closings_pass hb config).conseq (fun w _ h => ?_)
        fun _ w _ h _ config' hserve => h.pass
      exact ⟨h.2, h.1 rfl config h.2, fun y hy => absurd hy List.not_mem_nil, .nil⟩
    · exact hothers (by simpa using hs) _ _

end Flowlite

import Flowlite.Logic.Slots

/-!
# The order in which queued runs are started

`JobRunDispatcher` goes through the queued runs oldest first, and asks about the slot of
each one when its turn comes. `turns` is the outline that says what that is worth: as
long as no slot is freed between two of these questions, and none of them fails, no run
is started past an older one.
-/

namespace Flowlite

open Store Host Threads Crud Machine Outline

variable {lib : Library} {cond : (flowlite lib).Condition} {O : Outline (flowlite lib)}

/-! ## The pass of the dispatcher, as the history tells it -/

/-- How far the latest pass of `JobRunDispatcher` has come. -/
structure Host.DispatchPass where
  /-- The queued runs it has selected. -/
  selected : List JobRun
  /-- The run in hand. -/
  current : Option Nat
  /-- The run in hand is not stopped, and has yet to be asked a slot for. -/
  asking : Bool
  /-- The running runs it has counted, by job, the latest count first. -/
  counted : List (String × Nat)

/-- Before the first pass of a serve process. -/
def Host.DispatchPass.fresh : DispatchPass where
  selected := []
  current := none
  asking := false
  counted := []

def Host.DispatchPass.after (p : DispatchPass) (e : Host.Event) : DispatchPass :=
  match e.thread, e.op, e.result with
  | .service .jobRunDispatcher, .select (.jobRuns q), .ok rows =>
      match q.filter.jobId with
      | none => { DispatchPass.fresh with selected := rows }
      | some jobId => { p with asking := false, counted := (jobId, rows.length) :: p.counted }
  | .service .jobRunDispatcher, .select (.jobRuns _), .error _ => { p with asking := false }
  | .service .jobRunDispatcher, .selectMem, .error _ => { p with asking := false }
  | .service .jobRunDispatcher, .select (.jobRunStops f _), .ok stops =>
      { p with current := f.jobRunId, asking := stops.isEmpty }
  | .service .jobRunDispatcher, .select (.jobRunStops f _), .error _ =>
      { p with current := f.jobRunId, asking := false }
  | _, .startServices, _ => .fresh
  | _, _, _ => p

def Host.World.dispatchPass (w : World) : DispatchPass :=
  w.log.foldr (fun e p => p.after e) .fresh

/-- The slots of its job are still to be counted for this run. -/
def Host.DispatchPass.Awaits (p : DispatchPass) (x : JobRun) : Prop :=
  ∀ id ∈ p.current, id < x.id ∨ id = x.id ∧ p.asking = true

/-- The limit of a job in the configuration that is served. -/
def Host.World.maxParallelRuns (w : World) (jobId : String) : Nat :=
  match w.serve with
  | .up config => ((config.jobs.find? fun j => j.jobId = jobId).map (·.maxParallelRuns)).getD 0
  | _ => 0

/-- The pass has counted no slot of the job as free. -/
def Host.World.FoundFull (w : World) (jobId : String) : Prop :=
  ∃ n, (jobId, n) ∈ w.dispatchPass.counted ∧ 0 < w.maxParallelRuns jobId ∧
    w.maxParallelRuns jobId ≤ n

instance (p : DispatchPass) (x : JobRun) : Decidable (p.Awaits x) := by
  unfold Host.DispatchPass.Awaits
  infer_instance

instance (w : World) (jobId : String) : Decidable (w.FoundFull jobId) :=
  decidable_of_iff (∃ p ∈ w.dispatchPass.counted, p.1 = jobId ∧ 0 < w.maxParallelRuns jobId ∧
    w.maxParallelRuns jobId ≤ p.2) ⟨fun ⟨p, hp, hjob, hpos, hle⟩ => ⟨p.2, hjob ▸ hp, hpos, hle⟩,
      fun ⟨n, hn, hpos, hle⟩ => ⟨(jobId, n), hn, rfl, hpos, hle⟩⟩

/-- While a run that was selected waits to be asked a slot for, a job whose slots were
found taken keeps them taken, and nothing fails that is done for an older run of the job. -/
def keepsTurn (lib : Library) : (flowlite lib).Condition where
  step t _ w r w' :=
    (∀ x ∈ w.dispatchPass.selected, w.dispatchPass.Awaits x → w.FoundFull x.jobId →
      w.maxParallelRuns x.jobId ≤ w'.runningRuns x.jobId) ∧
    (t = .service .jobRunDispatcher → r.toBool = false → ∀ x ∈ w'.dispatchPass.selected,
      w'.dispatchPass.current = some x.id → ¬ IsStopped w' x.id →
        ∀ y ∈ w'.dispatchPass.selected, x.id < y.id → y.jobId ≠ x.jobId)
  env _ _ _ := True

instance : (keepsTurn lib).Checked where
  step t o w r w' := by
    dsimp only [keepsTurn]
    infer_instance
  env _ _ _ := isTrue trivial

section Steps

variable {t : Tid} {o : Op} {w w' : World} {r : Result o}

theorem dispatchPass_performs (h : Performs cond t o w r w') :
    w'.dispatchPass = w.dispatchPass.after ⟨t, o, r⟩ := by
  unfold Host.World.dispatchPass
  rw [log_performs h, List.foldr_cons]

theorem dispatchPass_others (h : Performs cond t o w r w') (ht : t ≠ .service .jobRunDispatcher)
    (ho : o ≠ .startServices) : w'.dispatchPass = w.dispatchPass := by
  rw [dispatchPass_performs h]
  unfold Host.DispatchPass.after
  dsimp only
  split <;> first | rfl | exact absurd rfl ht | exact absurd rfl ho

theorem dispatchPass_happens {kill : Tid → Bool} (h : Happens cond w w' kill) :
    w'.dispatchPass = w.dispatchPass := by
  unfold Host.World.dispatchPass
  rw [log_happens h]

/-- The reads the dispatcher's pass is made of. -/
def TurnsPage : Op → Prop
  | .select _ | .selectMem | .startServices => True
  | _ => False

theorem dispatchPass_kept (h : Performs cond t o w r w') (ho : ¬ TurnsPage o) :
    w'.dispatchPass = w.dispatchPass := by
  rw [dispatchPass_performs h]
  unfold Host.DispatchPass.after
  dsimp only
  split <;> first | rfl | exact absurd trivial ho

theorem maxParallelRuns_up {config : Config} (h : w.serve = .up config) (jobId : String) :
    w.maxParallelRuns jobId =
      ((config.jobs.find? fun j => j.jobId = jobId).map (·.maxParallelRuns)).getD 0 := by
  unfold Host.World.maxParallelRuns
  rw [h]

end Steps

/-! ## The outline -/

/-- What the dispatcher knows of a run it has selected. -/
def QueuedRow (x : JobRun) (w : World) : Prop :=
  JobRunAt (.service .jobRunDispatcher) x.id w ∧ KnownJobRun x w

theorem queuedRow_stable (hj : cond.Le (jobRuns lib).established) (x : JobRun) :
    O.Stable cond (.service .jobRunDispatcher) (QueuedRow x) :=
  (jobRunAt_stays hj _ x.id).and (knownJobRun_stable _ x)

/-- The statuses of a run that is not to be started (again). -/
def Store.JobRunStatus.isPastQueue : JobRunStatus → Bool
  | .running | .succeeded | .failed | .skipped | .aborted | .timedOut | .invalid => true
  | .scheduled | .queued | .deleted => false

theorem isPastQueue_kept (before after : JobRunStatus) (h : JobRunMove before after)
    (hpast : before.isPastQueue = true) : after.isPastQueue = true := by
  cases h with
  | release hs => rcases hs with rfl | rfl <;> cases hpast
  | drop _ hs => rcases hs with rfl | rfl <;> rfl
  | start => rfl
  | settle hfinished _ hdeleted =>
      cases after <;> first | rfl | exact absurd rfl hdeleted | cases hfinished
  | delete => cases hpast

/-- The run with this id has been started or dropped, as long as it is there. -/
def PastQueue : Nat → World → Prop := JobRunIn JobRunStatus.isPastQueue

/-- The run is out of the way of younger ones: it has left the queue, or is to leave it. -/
def OutOfTheWay (id : Nat) (w : World) : Prop :=
  id < w.db.jobRuns.next ∧ (IsStopped w id ∨ PastQueue id w)

/-- Every older run of the job that the pass has selected is out of the way. -/
def InTurn (w : World) (x : JobRun) : Prop :=
  ∀ y ∈ w.dispatchPass.selected, y.id < x.id → y.jobId = x.jobId → OutOfTheWay y.id w

/-- A run is set to running in its turn. -/
def turns (lib : Library) : Outline (flowlite lib) where
  inv _ := True
  pre t o w :=
    match t, o with
    | .service .jobRunDispatcher, .write (.updateJobRuns f i) =>
        i.status = some .running → ∀ x ∈ w.db.jobRuns.rows, f.id = some x.id → InTurn w x
    | _, _ => True
  idle _ _ := True

/-! ## One pass -/

/-- The dispatcher has come this far in its pass. -/
structure Page (config : Config) (done rest : List JobRun) (w : World) : Prop where
  serve : w.serve = .up config
  selected : w.dispatchPass.selected = done ++ rest
  ordered : (done ++ rest).Pairwise fun x y => x.id < y.id
  next : ∀ id ∈ w.dispatchPass.current, ∀ y ∈ rest, id < y.id

/-- The job's slots were found taken, and still are. -/
def Taken (jobId : String) (w : World) : Prop :=
  w.FoundFull jobId ∧ w.maxParallelRuns jobId ≤ w.runningRuns jobId

/-- An older run of the same job is out of the way, or has found no slot. -/
def Older (done rest : List JobRun) (w : World) : Prop :=
  ∀ x ∈ done, ∀ y ∈ rest, x.jobId = y.jobId → OutOfTheWay x.id w ∨ Taken y.jobId w

/-- A run is in hand: its turn has come, and it has a slot if it was counted for one. -/
structure InHand (config : Config) (done : List JobRun) (x : JobRun) (rest : List JobRun)
    (counted : Bool) (w : World) : Prop where
  page : Page config (done ++ [x]) rest w
  current : w.dispatchPass.current = some x.id
  row : QueuedRow x w
  older : Older done rest w
  self : if counted then ∀ y ∈ done, y.jobId = x.jobId → OutOfTheWay y.id w
    else w.dispatchPass.asking = true ∧ Older done [x] w

/-- The run has been dealt with. -/
def DealtWith (config : Config) (done : List JobRun) (x : JobRun) (rest : List JobRun)
    (w : World) : Prop :=
  Page config (done ++ [x]) rest w ∧ Older (done ++ [x]) rest w

section Steps

variable {config : Config} {done rest : List JobRun} {x : JobRun} {t : Tid} {o : Op}
  {w w' : World} {r : Result o}

theorem page_kept (hserve : w'.serve = w.serve) (hpage : w'.dispatchPass = w.dispatchPass)
    (h : Page config done rest w) : Page config done rest w' where
  serve := hserve.trans h.serve
  selected := hpage ▸ h.selected
  ordered := h.ordered
  next := hpage ▸ h.next

theorem outOfTheWay_performs (hb : cond.Le (base lib).established)
    (hj : cond.Le (jobRuns lib).established) {id : Nat} (h : Performs cond t o w r w')
    (hout : OutOfTheWay id w) : OutOfTheWay id w' := by
  obtain ⟨hid, hout⟩ := hout
  have hid' := lt_of_lt_of_le hid (jobRuns_next_le h)
  rcases hout with hstopped | hpast
  · rcases isStopped_fate h hstopped with hremoved | hstopped'
    · refine ⟨hid', .inr ⟨hid', fun x hx => ?_⟩⟩
      rw [(hremoved.gone h).1] at hx
      cases hx
    · exact ⟨hid', .inl hstopped'⟩
  · exact ⟨hid', .inr (jobRunIn_performs hb hj isPastQueue_kept h hpast)⟩

theorem outOfTheWay_happens {kill : Tid → Bool} {id : Nat} (h : Happens cond w w' kill)
    (hout : OutOfTheWay id w) : OutOfTheWay id w' := by
  unfold OutOfTheWay IsStopped PastQueue JobRunIn
  rwa [happens_db h]

/-- Slots that are taken stay taken while somebody waits to be asked one for. -/
theorem taken_performs (hc : cond.Le (keepsTurn lib)) (h : Performs cond t o w r w')
    (hserve : w'.serve = w.serve)
    (hcounted : w.dispatchPass.counted ⊆ w'.dispatchPass.counted) {y : JobRun}
    (hy : y ∈ w.dispatchPass.selected) (hawaits : w.dispatchPass.Awaits y)
    (htaken : Taken y.jobId w) : Taken y.jobId w' := by
  have hmax : w'.maxParallelRuns y.jobId = w.maxParallelRuns y.jobId := by
    unfold Host.World.maxParallelRuns
    rw [hserve]
  obtain ⟨hfull, -⟩ := htaken
  have hrunning := (hc.1 _ _ _ _ _ h.2).1 y hy hawaits hfull
  obtain ⟨n, hn, hpos, hle⟩ := hfull
  exact ⟨⟨n, hcounted hn, hmax ▸ hpos, hmax ▸ hle⟩, hmax ▸ hrunning⟩

theorem olderRuns_performs (hc : cond.Le (keepsTurn lib)) (hb : cond.Le (base lib).established)
    (hj : cond.Le (jobRuns lib).established) (h : Performs cond t o w r w')
    (hserve : w'.serve = w.serve)
    (hcounted : w.dispatchPass.counted ⊆ w'.dispatchPass.counted)
    (hrest : ∀ y ∈ rest, y ∈ w.dispatchPass.selected ∧ w.dispatchPass.Awaits y)
    (holder : Older done rest w) : Older done rest w' := by
  intro x hx y hy hjob
  rcases holder x hx y hy hjob with hout | htaken
  · exact .inl (outOfTheWay_performs hb hj h hout)
  · exact .inr (taken_performs hc h hserve hcounted (hrest y hy).1 (hrest y hy).2 htaken)

theorem older_happens {kill : Tid → Bool} (h : Happens cond w w' kill)
    (hserve : w'.serve = w.serve) (holder : Older done rest w) : Older done rest w' := by
  intro x hx y hy hjob
  refine (holder x hx y hy hjob).imp (outOfTheWay_happens h) fun htaken => ?_
  unfold Taken Host.World.FoundFull Host.World.maxParallelRuns Host.World.runningRuns
  rw [dispatchPass_happens h, hserve, happens_db h]
  exact htaken

/-- Whoever is yet to come waits to be asked a slot for. -/
theorem Page.awaits (h : Page config done rest w) {y : JobRun} (hy : y ∈ rest) :
    y ∈ w.dispatchPass.selected ∧ w.dispatchPass.Awaits y :=
  ⟨h.selected ▸ List.mem_append_right done hy, fun id hid => .inl (h.next id hid y hy)⟩

theorem InHand.awaits (h : InHand config done x rest false w) :
    x ∈ w.dispatchPass.selected ∧ w.dispatchPass.Awaits x := by
  refine ⟨h.page.selected ▸ by simp, fun id hid => ?_⟩
  rw [h.current] at hid
  cases hid
  exact .inr ⟨rfl, h.self.1⟩

/-- What fails for a run that is not stopped leaves no younger run of its job to come. -/
theorem older_of_error (hc : cond.Le (keepsTurn lib))
    {e : Err} (h : Performs cond (.service .jobRunDispatcher) o w (.error e) w')
    (hpage : Page config (done ++ [x]) rest w') (hcurrent : w'.dispatchPass.current = some x.id)
    (hx : x.id < w'.db.jobRuns.next) (holder : Older done rest w') :
    Older (done ++ [x]) rest w' := by
  intro z hz y hy hjob
  rcases List.mem_append.mp hz with hz | hz
  · exact holder z hz y hy hjob
  · obtain rfl := List.mem_singleton.mp hz
    by_cases hstopped : IsStopped w' z.id
    · exact .inl ⟨hx, .inl hstopped⟩
    · have hlt := (List.pairwise_append.mp hpage.ordered).2.2 z (by simp) y hy
      have hne := (hc.1 _ _ _ _ _ h.2).2 rfl rfl z (hpage.selected ▸ by simp) hcurrent hstopped y
        (hpage.awaits hy).1 hlt
      exact absurd hjob.symm hne

end Steps

section Stable

variable {config : Config} {done rest : List JobRun} {x : JobRun}

/-- The others leave the dispatcher its page. -/
theorem page_others (hb : cond.Le (base lib).established) {w w' : World}
    (hothers : O.Others cond (.service .jobRunDispatcher) w w') (hserve : w.serve = .up config) :
    w'.serve = w.serve ∧ w'.dispatchPass = w.dispatchPass := by
  have hserve' := ServedBy.stable hb config (.service .jobRunDispatcher) w w' hothers hserve
  have hserve' : w'.serve = .up config := hserve'
  refine ⟨hserve'.trans hserve.symm, ?_⟩
  cases hothers with
  | run hu _ _ _ hperf => exact dispatchPass_others hperf hu (not_started hperf hserve)
  | env _ _ _ hhappens => exact dispatchPass_happens hhappens

theorem page_stable (hb : cond.Le (base lib).established) :
    O.Stable cond (.service .jobRunDispatcher) (Page config done rest) := by
  intro w w' hothers h
  obtain ⟨hserve, hpage⟩ := page_others hb hothers h.serve
  exact page_kept hserve hpage h

theorem older_others (hc : cond.Le (keepsTurn lib)) (hb : cond.Le (base lib).established)
    (hj : cond.Le (jobRuns lib).established) {w w' : World}
    (hothers : O.Others cond (.service .jobRunDispatcher) w w') (hserve : w.serve = .up config)
    (hrest : ∀ y ∈ rest, y ∈ w.dispatchPass.selected ∧ w.dispatchPass.Awaits y)
    (h : Older done rest w) : Older done rest w' := by
  obtain ⟨hserve', hpage⟩ := page_others hb hothers hserve
  cases hothers with
  | run hu _ _ _ hperf =>
      exact olderRuns_performs hc hb hj hperf hserve' (by rw [hpage]; exact List.Subset.refl _) hrest h
  | env _ _ _ hhappens => exact older_happens hhappens hserve' h

theorem outOfTheWay_stable (hb : cond.Le (base lib).established)
    (hj : cond.Le (jobRuns lib).established) (t : Tid) (id : Nat) :
    O.Stable cond t (OutOfTheWay id) := by
  intro w w' hothers h
  cases hothers with
  | run _ _ _ _ hperf => exact outOfTheWay_performs hb hj hperf h
  | env _ _ _ hhappens => exact outOfTheWay_happens hhappens h

theorem pageOlder_stable (hc : cond.Le (keepsTurn lib)) (hb : cond.Le (base lib).established)
    (hj : cond.Le (jobRuns lib).established) {all : List JobRun} :
    O.Stable cond (.service .jobRunDispatcher)
      fun w => Page config all rest w ∧ Older done rest w := by
  rintro w w' hothers ⟨hpage, holder⟩
  exact ⟨page_stable hb w w' hothers hpage,
    older_others hc hb hj hothers hpage.serve (fun y hy => hpage.awaits hy) holder⟩

theorem inHand_stable (hc : cond.Le (keepsTurn lib)) (hb : cond.Le (base lib).established)
    (hj : cond.Le (jobRuns lib).established) (counted : Bool) :
    O.Stable cond (.service .jobRunDispatcher) (InHand config done x rest counted) := by
  intro w w' hothers h
  obtain ⟨hserve, hpage⟩ := page_others hb hothers h.page.serve
  refine ⟨page_kept hserve hpage h.page, hpage ▸ h.current,
    queuedRow_stable hj x w w' hothers h.row,
    older_others hc hb hj hothers h.page.serve (fun y hy => h.page.awaits hy) h.older, ?_⟩
  cases counted with
  | true => exact fun y hy hjob => outOfTheWay_stable hb hj _ y.id w w' hothers (h.self y hy hjob)
  | false =>
      refine ⟨hpage ▸ h.self.1, older_others hc hb hj hothers h.page.serve (fun y hy => ?_) h.self.2⟩
      rw [List.mem_singleton.mp hy]
      exact h.awaits

end Stable

/-! ### The operations of the dispatcher -/

section Dispatcher

variable {config : Config} {done rest : List JobRun} {x : JobRun}

/-- An operation on the way to the run's own status: the run stays in hand, or it has
been dealt with because the operation failed. -/
theorem inHand_perform (hc : cond.Le (keepsTurn lib)) (hb : cond.Le (base lib).established)
    (hj : cond.Le (jobRuns lib).established) {o : Op} (hpage : ¬ TurnsPage o)
    (hrows : ¬ WritesJobRuns o) (counted : Bool) :
    (turns lib).Triple cond (.service .jobRunDispatcher) (InHand config done x rest counted)
      (Crud.perform o) fun r w => match r with
        | .ok _ => InHand config done x rest counted w
        | .error _ => DealtWith config done x rest w := by
  refine Triple.perform (inHand_stable hc hb hj counted) (fun w r w' _ _ _ => ?_)
    fun w r w' _ h hperf _ => ?_
  · cases o with
    | write q =>
        cases q with
        | updateJobRuns f i => exact absurd trivial hrows
        | _ => trivial
    | _ => trivial
  have hpage' := dispatchPass_kept hperf hpage
  have hserve : w'.serve = w.serve := by
    rcases serve_cases hperf with heq | ⟨rfl, -⟩
    · exact heq
    · exact absurd trivial hpage
  have hcounted : w.dispatchPass.counted ⊆ w'.dispatchPass.counted := by
    rw [hpage']
    exact List.Subset.refl _
  have hkept := page_kept hserve hpage' h.page
  have hcurrent : w'.dispatchPass.current = some x.id := hpage' ▸ h.current
  have holder := olderRuns_performs hc hb hj hperf hserve hcounted
    (fun y hy => h.page.awaits hy) h.older
  have hrow : QueuedRow x w' := by
    unfold QueuedRow JobRunAt KnownJobRun
    rw [jobRuns_kept hperf hrows]
    exact h.row
  cases r with
  | error e => exact ⟨hkept, older_of_error hc hperf hkept hcurrent hrow.1.1 holder⟩
  | ok a =>
      refine ⟨hkept, hcurrent, hrow, holder, ?_⟩
      cases counted with
      | true => exact fun y hy hjob => outOfTheWay_performs hb hj hperf (h.self y hy hjob)
      | false =>
          refine ⟨hpage' ▸ h.self.1, olderRuns_performs hc hb hj hperf hserve hcounted
            (fun y hy => ?_) h.self.2⟩
          rw [List.mem_singleton.mp hy]
          exact h.awaits

/-- Everything the dispatcher does to a run that has been dealt with leaves it so. -/
theorem dealtWith_uses (hc : cond.Le (keepsTurn lib)) (hb : cond.Le (base lib).established)
    (hj : cond.Le (jobRuns lib).established) {α : Type} {p : Code α}
    (hp : p.Uses fun o : Op => ¬ TurnsPage o ∧
      ∀ f i, o = .write (.updateJobRuns f i) → i.status ≠ some .running) :
    (turns lib).Triple cond (.service .jobRunDispatcher) (DealtWith config done x rest) p
      fun _ => DealtWith config done x rest := by
  refine Triple.of_uses (pageOlder_stable hc hb hj) (hp.mono fun o ho w r w' _ h hperf =>
    ⟨?_, fun _ => ?_⟩)
  · cases o with
    | write q =>
        cases q with
        | updateJobRuns f i => exact fun hi => absurd hi (ho.2 f i rfl)
        | _ => trivial
    | _ => trivial
  · have hpage' := dispatchPass_kept hperf ho.1
    have hserve : w'.serve = w.serve := by
      rcases serve_cases hperf with heq | ⟨rfl, -⟩
      · exact heq
      · exact absurd trivial ho.1
    refine ⟨page_kept hserve hpage' h.1, olderRuns_performs hc hb hj hperf hserve ?_
      (fun y hy => h.1.awaits hy) h.2⟩
    rw [hpage']
    exact List.Subset.refl _

theorem stopQuery_answer {t : Tid} {id : Nat} {w w' : World} {stop : JobRunStop}
    {stops : List JobRunStop}
    (h : Performs cond t (.select (stopQuery id)) w (.ok (stop :: stops)) w') :
    IsStopped w id := by
  rcases select_cases h with ⟨e, he⟩ | hrows
  · cases he
  · have hrows : stop :: stops = w.db.selectJobRunStops { jobRunId := some id } (some 1) :=
      Except.ok.inj hrows
    have hmem : stop ∈ w.db.selectJobRunStops { jobRunId := some id } (some 1) :=
      hrows ▸ List.mem_cons_self ..
    have hmem := List.mem_filter.mp ((window_sublist _ _ _).mem hmem)
    exact ⟨stop, hmem.1, by simpa [SelectJobRunStopsFilter.holds] using hmem.2⟩

/-- The run in hand is asked whether it is stopped. -/
theorem takeInHand_triple (hc : cond.Le (keepsTurn lib)) (hb : cond.Le (base lib).established)
    (hj : cond.Le (jobRuns lib).established) :
    (turns lib).Triple cond (.service .jobRunDispatcher)
      (fun w => (Page config done (x :: rest) w ∧ Older done (x :: rest) w) ∧ QueuedRow x w)
      (isJobRunStopped x.id) fun r w => match r with
        | .ok false => InHand config done x rest false w
        | .ok true | .error _ => DealtWith config done x rest w := by
  have hselect : (turns lib).Triple cond (.service .jobRunDispatcher)
      (fun w => (Page config done (x :: rest) w ∧ Older done (x :: rest) w) ∧ QueuedRow x w)
      (selectJobRunStop x.id) fun r w => match r with
        | .ok none => InHand config done x rest false w
        | .ok (some _) | .error _ => DealtWith config done x rest w := by
    refine Triple.bind (R := fun (r : Except Err (List JobRunStop)) w => match r with
        | .ok [] => InHand config done x rest false w
        | .ok (_ :: _) | .error _ => DealtWith config done x rest w)
      (Triple.perform ((pageOlder_stable hc hb hj).and (queuedRow_stable hj x))
        (fun _ _ _ _ _ _ => trivial) fun w r w' _ h hperf _ => ?_)
      (fun stops => Triple.ret fun w _ h => ?_) fun e w _ h => h
    · obtain ⟨⟨hpage, holder⟩, hrow⟩ := h
      have hdb : w'.db = w.db := db_of_not_write hperf fun q => nofun
      have hserve : w'.serve = w.serve := by
        rcases serve_cases hperf with heq | ⟨hstart, -⟩
        · exact heq
        · cases hstart
      have hpass := dispatchPass_performs hperf
      have hcurrent : w'.dispatchPass.current = some x.id := by
        rw [hpass]
        cases r <;> rfl
      have hselected : w'.dispatchPass.selected = w.dispatchPass.selected := by
        rw [hpass]
        cases r <;> rfl
      have hcounted : w'.dispatchPass.counted = w.dispatchPass.counted := by
        rw [hpass]
        cases r <;> rfl
      have hordered : (done ++ [x] ++ rest).Pairwise fun x y => x.id < y.id := by
        simpa using hpage.ordered
      have hpage' : Page config (done ++ [x]) rest w' := by
        refine ⟨hserve.trans hpage.serve, ?_, hordered, fun id hid y hy => ?_⟩
        · rw [hselected, hpage.selected]
          simp
        · rw [hcurrent] at hid
          cases hid
          exact (List.pairwise_append.mp hordered).2.2 x (by simp) y hy
      have holder' : Older done (x :: rest) w' :=
        olderRuns_performs hc hb hj hperf hserve (by rw [hcounted]; exact List.Subset.refl _)
          (fun y hy => hpage.awaits hy) holder
      have hrow' : QueuedRow x w' := by
        unfold QueuedRow JobRunAt KnownJobRun
        rw [hdb]
        exact hrow
      have hrest : Older done rest w' := fun z hz y hy => holder' z hz y (List.mem_cons_of_mem x hy)
      cases r with
      | error e => exact ⟨hpage', older_of_error hc hperf hpage' hcurrent hrow'.1.1 hrest⟩
      | ok stops =>
          cases stops with
          | nil =>
              refine ⟨hpage', hcurrent, hrow', hrest, ?_, fun z hz y hy => ?_⟩
              · rw [hpass]
                rfl
              · rw [List.mem_singleton.mp hy]
                exact holder' z hz x (List.mem_cons_self ..)
          | cons stop stops =>
              refine ⟨hpage', fun z hz y hy hjob => ?_⟩
              rcases List.mem_append.mp hz with hz | hz
              · exact hrest z hz y hy hjob
              · obtain rfl := List.mem_singleton.mp hz
                refine .inl ⟨hrow'.1.1, .inl ?_⟩
                unfold IsStopped
                rw [hdb]
                exact stopQuery_answer hperf
    · cases stops with
      | nil => exact h
      | cons stop stops => exact h
  refine Triple.bind hselect (fun stop => Triple.ret fun w _ h => ?_) fun e w _ h => h
  cases stop with
  | none => exact h
  | some stop => exact h

/-- The slots of the job are counted for the run in hand. -/
theorem countSlots_triple (hc : cond.Le (keepsTurn lib)) (hb : cond.Le (base lib).established)
    (hj : cond.Le (jobRuns lib).established) {job : Job}
    (hjob : config.jobs.find? (fun j => j.jobId = x.jobId) = some job)
    (hpos : 0 < job.maxParallelRuns) :
    (turns lib).Triple cond (.service .jobRunDispatcher) (InHand config done x rest false)
      (selectJobRuns { filter := { jobId := some x.jobId, status := some .running } })
      fun r w => match r with
        | .ok rows => if rows.length ≥ job.maxParallelRuns then DealtWith config done x rest w
            else InHand config done x rest true w
        | .error _ => DealtWith config done x rest w := by
  refine Triple.perform (inHand_stable hc hb hj false) (fun _ _ _ _ _ _ => trivial)
    fun w r w' _ h hperf _ => ?_
  have hdb : w'.db = w.db := db_of_not_write hperf fun q => nofun
  have hserve : w'.serve = w.serve := by
    rcases serve_cases hperf with heq | ⟨hstart, -⟩
    · exact heq
    · cases hstart
  have hpass := dispatchPass_performs hperf
  have hcurrent : w'.dispatchPass.current = some x.id := by
    rw [hpass, ← h.current]
    cases r <;> rfl
  have hselected : w'.dispatchPass.selected = w.dispatchPass.selected := by
    rw [hpass]
    cases r <;> rfl
  have hcounted : w.dispatchPass.counted ⊆ w'.dispatchPass.counted := by
    rw [hpass]
    cases r with
    | ok rows => exact List.subset_cons_self _ _
    | error e => exact List.Subset.refl _
  have hpage' : Page config (done ++ [x]) rest w' := by
    refine ⟨hserve.trans h.page.serve, hselected.trans h.page.selected, h.page.ordered, ?_⟩
    intro id hid y hy
    rw [hcurrent] at hid
    exact h.page.next id (h.current.trans hid) y hy
  have holder := olderRuns_performs hc hb hj hperf hserve hcounted
    (fun y hy => h.page.awaits hy) h.older
  have hself : Older done [x] w' := olderRuns_performs hc hb hj hperf hserve hcounted (fun y hy => by
    rw [List.mem_singleton.mp hy]
    exact h.awaits) h.self.2
  have hrow' : QueuedRow x w' := by
    unfold QueuedRow JobRunAt KnownJobRun
    rw [hdb]
    exact h.row
  have hmax : w'.maxParallelRuns x.jobId = job.maxParallelRuns := by
    rw [maxParallelRuns_up hpage'.serve, hjob]
    rfl
  cases r with
  | error e => exact ⟨hpage', older_of_error hc hperf hpage' hcurrent hrow'.1.1 holder⟩
  | ok rows =>
      have hrows : w'.runningRuns x.jobId = rows.length := by
        rcases select_cases hperf with ⟨e, he⟩ | heq
        · cases he
        · have hrows : rows = w.db.selectJobRuns
              { filter := { jobId := some x.jobId, status := some .running } } :=
            Except.ok.inj heq
          rw [hrows, ← runningRuns_selected, Host.World.runningRuns, hdb]
          rfl
      show if rows.length ≥ job.maxParallelRuns then _ else _
      by_cases hfull : rows.length ≥ job.maxParallelRuns
      · rw [if_pos hfull]
        -- the job has no slot for the run, and will have none for a younger one
        have htaken : Taken x.jobId w' := by
          refine ⟨⟨rows.length, ?_, hmax ▸ hpos, hmax ▸ hfull⟩, ?_⟩
          · rw [hpass]
            exact List.mem_cons_self ..
          · rw [hmax, hrows]
            exact hfull
        refine ⟨hpage', fun z hz y hy hzy => ?_⟩
        rcases List.mem_append.mp hz with hz | hz
        · exact holder z hz y hy hzy
        · obtain rfl := List.mem_singleton.mp hz
          exact .inr (hzy ▸ htaken)
      · rw [if_neg hfull]
        refine ⟨hpage', hcurrent, hrow', holder, fun y hy hyjob => ?_⟩
        rcases hself y hy x (List.mem_singleton.mpr rfl) hyjob with hout | htaken
        · exact hout
        · have := htaken.2
          rw [hmax, hrows] at this
          exact absurd this hfull

/-- Whether the run in hand may be started. -/
theorem askSlot_triple (hc : cond.Le (keepsTurn lib)) (hb : cond.Le (base lib).established)
    (hj : cond.Le (jobRuns lib).established) :
    (turns lib).Triple cond (.service .jobRunDispatcher) (InHand config done x rest false)
      (isJobAtMaxParallelRuns config x.jobId) fun r w => match r with
        | .ok false => InHand config done x rest true w
        | .ok true | .error _ => DealtWith config done x rest w := by
  have hjob : (turns lib).Triple cond (.service .jobRunDispatcher)
      (InHand config done x rest false) (selectJob config x.jobId) fun r w => match r with
        | .ok found => InHand config done x rest false w ∧
            found = config.jobs.find? fun j => j.jobId = x.jobId
        | .error _ => DealtWith config done x rest w := by
    refine Triple.bind (R := fun (r : Except Err Unit) w => match r with
        | .ok _ => InHand config done x rest false w
        | .error _ => DealtWith config done x rest w)
      (Triple.perform (inHand_stable hc hb hj false) (fun _ _ _ _ _ _ => trivial)
        fun w r w' _ h hperf _ => ?_)
      (fun _ => Triple.ret fun w _ h => ⟨h, rfl⟩) fun e w _ h => h
    have hsame := silent_performs (o := .selectMem) trivial hperf
    have hdb : w'.db = w.db := by rw [hsame]
    have hserve : w'.serve = w.serve := by rw [hsame]
    have hpass := dispatchPass_performs hperf
    cases r with
    | ok a =>
        have hpage' : w'.dispatchPass = w.dispatchPass := hpass
        refine ⟨page_kept hserve hpage' h.page, hpage' ▸ h.current, ?_, ?_, ?_⟩
        · unfold QueuedRow JobRunAt KnownJobRun
          rw [hdb]
          exact h.row
        · exact olderRuns_performs hc hb hj hperf hserve (by rw [hpage']; exact List.Subset.refl _)
            (fun y hy => h.page.awaits hy) h.older
        · refine ⟨hpage' ▸ h.self.1, olderRuns_performs hc hb hj hperf hserve
            (by rw [hpage']; exact List.Subset.refl _) (fun y hy => ?_) h.self.2⟩
          rw [List.mem_singleton.mp hy]
          exact h.awaits
    | error e =>
        have hcurrent : w'.dispatchPass.current = some x.id := by
          rw [hpass]
          exact h.current
        have hpage' : Page config (done ++ [x]) rest w' := by
          refine ⟨hserve.trans h.page.serve, ?_, h.page.ordered, ?_⟩
          · rw [hpass]
            exact h.page.selected
          · rw [hpass]
            exact h.page.next
        refine ⟨hpage', older_of_error hc hperf hpage' hcurrent (hdb ▸ h.row.1.1) ?_⟩
        exact olderRuns_performs hc hb hj hperf hserve (by rw [hpass]; exact List.Subset.refl _)
          (fun y hy => h.page.awaits hy) h.older
  -- a run of a job without a limit has its slot
  have hunlimited : ∀ w, InHand config done x rest false w → w.maxParallelRuns x.jobId = 0 →
      InHand config done x rest true w := by
    intro w h hzero
    refine ⟨h.page, h.current, h.row, h.older, fun y hy hyjob => ?_⟩
    rcases h.self.2 y hy x (List.mem_singleton.mpr rfl) hyjob with hout | ⟨⟨n, -, hpos, -⟩, -⟩
    · exact hout
    · omega
  refine Triple.bind hjob (fun found => ?_) fun e w _ h => h
  refine Triple.of_fact (fun w _ h => h.2) fun hfound => Triple.pre ?_ fun w _ h => h.1
  cases found with
  | none =>
      refine Triple.ret fun w _ h => hunlimited w h ?_
      rw [maxParallelRuns_up h.page.serve, ← hfound]
      rfl
  | some job =>
      by_cases hzero : job.maxParallelRuns = 0
      · simp only [hzero, if_true]
        refine Triple.ret fun w _ h => hunlimited w h ?_
        rw [maxParallelRuns_up h.page.serve, ← hfound]
        exact hzero
      · simp only [hzero, if_false]
        refine Triple.bind (countSlots_triple hc hb hj hfound.symm (Nat.pos_of_ne_zero hzero))
          (fun rows => Triple.ret fun w _ h => ?_) fun e w _ h => h
        by_cases hfull : rows.length ≥ job.maxParallelRuns
        · simp only [hfull, if_true] at h
          simpa only [hfull, decide_true] using h
        · simp only [hfull, if_false] at h
          simpa only [hfull, decide_false] using h

/-- The run in hand is started, in its turn. -/
theorem turns_setToRunning (hc : cond.Le (keepsTurn lib)) (hb : cond.Le (base lib).established)
    (hj : cond.Le (jobRuns lib).established) :
    (turns lib).Triple cond (.service .jobRunDispatcher) (InHand config done x rest true)
      (JobRunDispatcher.setToRunning config x) fun _ => DealtWith config done x rest := by
  have hother : ∀ {o : Op}, ¬ TurnsPage o → ¬ WritesJobRuns o →
      (turns lib).Triple cond (.service .jobRunDispatcher) (InHand config done x rest true)
        (Crud.perform o) fun r w => match r with
          | .ok _ => InHand config done x rest true w
          | .error _ => DealtWith config done x rest w :=
    fun hpage hrows => inHand_perform hc hb hj hpage hrows true
  have hdir : (turns lib).Triple cond (.service .jobRunDispatcher) (InHand config done x rest true)
      (createJobRunDir config x.id) fun r w => match r with
        | .ok _ => InHand config done x rest true w
        | .error _ => DealtWith config done x rest w := by
    have hmake := fun path => hother (o := .createDirAll path) id id
    have hcanonical := hother (o := .canonicalize config.app.dataDir) id id
    refine Triple.bind (R := fun r w => match r with
        | .ok _ => InHand config done x rest true w
        | .error _ => DealtWith config done x rest w)
      (Triple.bind hcanonical (fun _ => Triple.ret fun w _ h => h) fun e w _ h => h)
      (fun dir => ?_) fun e w _ h => h
    refine Triple.bind (hmake _) (fun _ => ?_) fun e w _ h => h
    exact Triple.bind (hmake _) (fun _ => Triple.ret fun w _ h => h) fun e w _ h => h
  refine Triple.bind hdir (fun dir => ?_) fun e w _ h => h
  refine Triple.bind (hother id id) (fun _ => ?_) fun e w _ h => h
  refine Triple.bind (hother id id) (fun now => ?_) fun e w _ h => h
  refine Triple.perform (inHand_stable hc hb hj true) (fun w r w' _ h _ => ?_)
    fun w r w' _ h hperf _ => ?_
  · intro _ y hy hid z hz hlt hzjob
    have hid : x.id = y.id := Option.some.inj hid
    have hfind := Table.find_of_mem hy
    have hjob : y.jobId = x.jobId := by
      rw [h.row.2.2 y (by rw [hid]; exact hfind)]
    rw [h.page.selected] at hz
    have hordered := h.page.ordered
    -- the selected runs before this one are those that are done with
    have hdone : z ∈ done := by
      rcases List.mem_append.mp hz with hz | hz
      · rcases List.mem_append.mp hz with hz | hz
        · exact hz
        · rw [List.mem_singleton.mp hz, hid] at hlt
          exact absurd hlt (lt_irrefl _)
      · have := (List.pairwise_append.mp hordered).2.2 x (by simp) z hz
        omega
    exact h.self z hdone (hzjob.trans hjob)
  · have hpage' := dispatchPass_kept hperf id
    have hserve : w'.serve = w.serve := by
      rcases serve_cases hperf with heq | ⟨hstart, -⟩
      · exact heq
      · cases hstart
    have hkept := page_kept hserve hpage' h.page
    have holder := olderRuns_performs hc hb hj hperf hserve
      (by rw [hpage']; exact List.Subset.refl _) (fun y hy => h.page.awaits hy) h.older
    have hnext := lt_of_lt_of_le h.row.1.1 (jobRuns_next_le hperf)
    refine ⟨hkept, ?_⟩
    cases r with
    | error e => exact older_of_error hc hperf hkept (hpage' ▸ h.current) hnext holder
    | ok a =>
        intro z hz y hy hzy
        rcases List.mem_append.mp hz with hz | hz
        · exact holder z hz y hy hzy
        · obtain rfl := List.mem_singleton.mp hz
          refine .inl ⟨hnext, .inr ⟨hnext, fun x' hx' => ?_⟩⟩
          obtain ⟨z', -, rfl⟩ := updateJobRuns_row hperf hx'
          rfl

theorem turns_settleUnstarted {ts : TaskRunStatus} {js : JobRunStatus} (hjs : js ≠ .running)
    (jobRunId : Nat) : (settleUnstarted ts js jobRunId).Uses fun o : Op => ¬ TurnsPage o ∧
      ∀ f i, o = .write (.updateJobRuns f i) → i.status ≠ some .running := by
  refine Prog.Uses.bind ((Prog.uses_perform _).mpr ⟨id, fun f i heq => by cases heq⟩) fun now =>
    (uses_write ⟨id, fun f i heq => by cases heq⟩).bind fun _ => uses_write ⟨id, fun f i heq => ?_⟩
  cases heq
  exact fun h => hjs (Option.some.inj h)

/-- One run of the pass. -/
theorem turns_handle (hc : cond.Le (keepsTurn lib)) (hb : cond.Le (base lib).established)
    (hj : cond.Le (jobRuns lib).established) :
    (turns lib).Triple cond (.service .jobRunDispatcher)
      (fun w => (Page config done (x :: rest) w ∧ Older done (x :: rest) w) ∧ QueuedRow x w)
      (JobRunDispatcher.handleQueuedJobRun config x) fun _ => DealtWith config done x rest := by
  have hderive : (turns lib).Triple cond (.service .jobRunDispatcher)
      (fun w => (Page config done (x :: rest) w ∧ Older done (x :: rest) w) ∧ QueuedRow x w)
      (JobRunDispatcher.deriveNextStatus config x) fun r w => match r with
        | .ok .running => InHand config done x rest true w
        | .ok .skipped | .ok .queued | .error _ => DealtWith config done x rest w
        | .ok _ => False := by
    refine Triple.bind (takeInHand_triple hc hb hj) (fun isStopped => ?_) fun e w _ h => h
    cases isStopped with
    | true => exact Triple.ret fun w _ h => h
    | false =>
        refine Triple.bind (askSlot_triple hc hb hj) (fun isAtMax => ?_) fun e w _ h => h
        cases isAtMax with
        | true => exact Triple.ret fun w _ h => h
        | false => exact Triple.ret fun w _ h => h
  refine Triple.bind hderive (fun status => ?_) fun e w _ h => h
  cases status with
  | skipped => exact dealtWith_uses hc hb hj (turns_settleUnstarted (by nofun) x.id)
  | queued => exact Triple.ret fun w _ h => h
  | running => exact turns_setToRunning hc hb hj
  | _ => exact Triple.of_fact (fun w _ h => h) fun h => h.elim

/-- One pass of the dispatcher. -/
theorem turns_pass (hc : cond.Le (keepsTurn lib)) (hb : cond.Le (base lib).established)
    (hj : cond.Le (jobRuns lib).established) :
    (turns lib).Triple cond (.service .jobRunDispatcher) (fun w => w.serve = .up config)
      (JobRunDispatcher.poller config).pass fun _ _ => True := by
  have hserved : (turns lib).Stable cond (.service .jobRunDispatcher) fun w => w.serve = .up config :=
    ServedBy.stable hb config (.service .jobRunDispatcher)
  refine Triple.bind (R := fun (r : Except Err (List JobRun)) w => ∀ rows, r = .ok rows →
      (Page config [] rows w ∧ Older [] rows w) ∧ ∀ y ∈ rows, QueuedRow y w)
    (Triple.perform hserved (fun _ _ _ _ _ _ => trivial) fun w r w' _ h hperf _ => ?_)
    (fun rows => ?_) fun _ _ _ _ => trivial
  · rintro rows rfl
    have hsame := silent_performs (o := .select _) trivial hperf
    rcases select_cases hperf with ⟨e, he⟩ | hrows
    · cases he
    have hrows : rows = w.db.selectJobRuns { filter := { status := some .queued }, sort := some .id } :=
      Except.ok.inj hrows
    have hpass := dispatchPass_performs hperf
    refine ⟨⟨⟨by rw [hsame]; exact h, ?_, ?_, ?_⟩, fun x hx => absurd hx List.not_mem_nil⟩,
      fun y hy => ?_⟩
    · rw [hpass]
      rfl
    · rw [hrows, List.nil_append]
      refine ((w.db.jobRuns.ordered.filter _).sublist (window_sublist _ _ _)).imp fun hlt => hlt
    · rw [hpass]
      exact fun id hid => nomatch hid
    · rw [hrows] at hy
      obtain ⟨hfind, hholds⟩ := Database.mem_selectJobRuns hy
      rw [hsame]
      refine ⟨⟨Table.lt_next_of_find hfind, fun z hz => ?_⟩,
        ⟨Table.lt_next_of_find hfind, fun z hz => ?_⟩⟩
      · cases hfind.symm.trans hz
        exact selectJobRuns_status hholds
      · cases hfind.symm.trans hz
        rfl
  · -- the runs that are still to come are still queued
    have hloop : ∀ rest done, (turns lib).Triple cond (.service .jobRunDispatcher)
        (fun w => (Page config done rest w ∧ Older done rest w) ∧ ∀ y ∈ rest, QueuedRow y w)
        (Prog.forEach rest fun row =>
          (JobRunDispatcher.handleQueuedJobRun config row).attempt.bind fun _ => .ret ())
        fun _ _ => True := by
      intro rest
      induction rest with
      | nil => exact fun done => Triple.ret fun _ _ _ => trivial
      | cons x rest ih =>
          intro done
          refine Triple.of_fact (F := ∀ y ∈ rest, x.id ≠ y.id) (fun w _ h y hy => ?_) fun hne => ?_
          · have hlt := (List.pairwise_append.mp h.1.1.ordered).2.1
            exact ne_of_lt ((List.pairwise_cons.mp hlt).1 y hy)
          have hothers := Prog.Uses.all fun y : { y // y ∈ rest } =>
            (jobRunAt_frame (u := .service .jobRunDispatcher) hb (hne y y.2)
              (jobRunDispatcher_handles config x))
          have hhandle : (turns lib).Triple cond (.service .jobRunDispatcher)
              (fun w => (Page config done (x :: rest) w ∧ Older done (x :: rest) w) ∧
                QueuedRow x w) (JobRunDispatcher.handleQueuedJobRun config x)
              fun _ => DealtWith config done x rest := turns_handle hc hb hj
          have hkept := hhandle.frame (F := fun w => ∀ y : { y // y ∈ rest }, QueuedRow y w)
            (Stable.all fun y => queuedRow_stable hj y.1)
            (hothers.mono fun o ho w r w' _ _ _ hperf hy y =>
              ⟨ho y w r w' trivial trivial (hj.1 _ _ _ _ _ hperf.2).2.1 hperf (hy y).1,
                knownJobRun_performs hperf (hy y).2⟩)
          have hbody : (turns lib).Triple cond (.service .jobRunDispatcher)
              (fun w => (Page config done (x :: rest) w ∧ Older done (x :: rest) w) ∧
                ∀ y ∈ x :: rest, QueuedRow y w)
              ((JobRunDispatcher.handleQueuedJobRun config x).attempt.bind fun _ => .ret ())
              fun _ w => (Page config (done ++ [x]) rest w ∧ Older (done ++ [x]) rest w) ∧
                ∀ y ∈ rest, QueuedRow y w := by
            refine Triple.attempt_bind (hkept.pre fun w _ h => ?_) fun r => Triple.ret fun w _ h => ?_
            · exact ⟨⟨h.1, h.2 x (List.mem_cons_self ..)⟩,
                fun y => h.2 y (List.mem_cons_of_mem x y.2)⟩
            · exact ⟨h.1, fun y hy => h.2 ⟨y, hy⟩⟩
          exact hbody.bind (fun _ => ih (done ++ [x])) fun _ _ _ _ => trivial
    exact (hloop rows []).pre fun w _ h => h rows rfl

end Dispatcher

theorem turns_valid (hc : cond.Le (keepsTurn lib)) (hb : cond.Le (base lib).established)
    (hj : cond.Le (jobRuns lib).established) : (turns lib).Valid cond where
  init _ _ := ⟨trivial, fun _ => trivial⟩
  step _ _ _ _ _ _ _ _ := trivial
  env _ _ _ _ _ := ⟨trivial, fun _ _ => trivial⟩
  idle t := stable_true t
  start := by
    have hothers : ∀ {t : Tid} {P : World → Prop}, t ≠ .service .jobRunDispatcher →
        ∀ p : Code Unit, (turns lib).Triple cond t P p fun _ _ => True := by
      intro t P ht p
      refine (Triple.of_pre fun o w r w' _ hperf => ?_).pre fun _ _ _ => trivial
      unfold turns
      dsimp only
      split
      · exact absurd rfl ht
      · trivial
    refine start_triple_served (fun config fuel s => ?_) fun c r => hothers (by nofun) _
    by_cases hs : s = .jobRunDispatcher
    · subst hs
      exact (turns_pass hc hb hj).pre fun w _ h => h.2
    · exact hothers (fun h => hs (Tid.service.inj h)) _

end Flowlite

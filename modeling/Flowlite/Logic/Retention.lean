import Flowlite.Logic.JobRuns
import Flowlite.Logic.Descendants

/-!
# Retention

A run that is selected for deletion has finished and owes nothing, and stays so. What
goes with it is another matter: its descendants are looked for once before the delete
and once more by the delete itself, the first time for their status alone. `retention`
is the outline that says what the service knows when it deletes, in the runs in which
no run gets below a finished one while the service is looking (`sealsFinished`).
-/

namespace Flowlite

open Store Host Threads Crud Machine Outline Relation

variable {lib : Library} {cond : (flowlite lib).Condition} {counted : Bool}

/-! ## Retention in the log -/

/-- How many runs the retention pass that began last has deleted. -/
def deletedInPass : List Host.Event → Nat
  | [] => 0
  | e :: rest =>
      match e.op, e.result with
      | .select (.jobRunJobIds _), _ =>
          if e.thread = .service .retention then 0 else deletedInPass rest
      | .write (.deleteJobRunsWithChildren _), .ok ids => ids.length + deletedInPass rest
      | _, _ => deletedInPass rest

/-- The last thing retention did was to ask for the runs below some run. -/
def looksBelow : List Host.Event → Bool
  | [] => false
  | e :: rest =>
      if e.thread = .service .retention then
        match e.op with
        | .select (.jobRuns q) => q.filter.parentJobRunId.isSome
        | _ => false
      else looksBelow rest

/-- `max_deletes_per_pass` of the server that is up. -/
def Host.World.deleteCap (w : World) : Nat :=
  match w.serve with
  | .up config => config.app.maxDeletesPerPass
  | _ => 0

/-! ## Conditions -/

/-- No run is submitted below a finished one while retention looks for those, and no
notification is added to a finished run. -/
def sealsFinished (lib : Library) : (flowlite lib).Condition where
  step _ o w r _ :=
    match o, r with
    | .write (.insertJobRun i _ _), .ok _ => looksBelow w.log = true →
        ∀ x ∈ (i.parentTaskRunAttemptId.bind w.db.taskRunAttempts.find).bind
          fun a => w.db.jobRuns.find a.jobRunId, x.status.isFinished = false
    | .write (.insertJobRunNotification i), .ok _ =>
        ∀ x ∈ w.db.jobRuns.find i.jobRunId, x.status.isFinished = false
    | _, _ => True
  env _ _ _ := True

instance : (sealsFinished lib).Checked where
  step t o w r w' := by
    rcases o with _ | q
    case write =>
      rcases q
      case insertJobRun i tasks n => rcases r <;> (dsimp only [sealsFinished]; infer_instance)
      case insertJobRunNotification i => rcases r <;> (dsimp only [sealsFinished]; infer_instance)
      all_goals exact isTrue trivial
    all_goals exact isTrue trivial
  env _ _ _ := isTrue trivial

/-- Where retention deletes a run, no run below it owes a notification; and if the runs a
pass deletes are counted and there is a cap, no run is below it. -/
def deletesAlone (lib : Library) (counted : Bool) : (flowlite lib).Condition where
  step _ o w r _ :=
    match o, r with
    | .write (.deleteJobRunsWithChildren f), .ok _ => ∀ top ∈ f.id,
        (∀ n ∈ w.db.jobRunNotifications.rows, n.status = .pending →
          w.db.isBelow top n.jobRunId = false) ∧
        (counted = true → 0 < w.deleteCap →
          ∀ x ∈ w.db.jobRuns.rows, w.db.isBelow top x.id = false)
    | _, _ => True
  env _ _ _ := True

instance (counted : Bool) : (deletesAlone lib counted).Checked where
  step t o w r w' := by
    rcases o with _ | q
    case write =>
      rcases q
      case deleteJobRunsWithChildren f => rcases r <;> (dsimp only [deletesAlone]; infer_instance)
      all_goals exact isTrue trivial
    all_goals exact isTrue trivial
  env _ _ _ := isTrue trivial

/-! ## What has settled stays settled -/

/-- The run has finished, as far as it is still there. -/
def HasFinished (id : Nat) (w : World) : Prop :=
  id < w.db.jobRuns.next ∧ ∀ x, w.db.jobRuns.find id = some x → x.status.isFinished = true

/-- The run has finished, and everything it owed has been tried. -/
def HasSettled (id : Nat) (w : World) : Prop :=
  HasFinished id w ∧
    ∀ n ∈ w.db.jobRunNotifications.rows, n.jobRunId = id → n.status ≠ .pending

theorem hasFinished_of_find {w : World} {x : JobRun} (hx : w.db.jobRuns.find x.id = some x)
    (hfinished : x.status.isFinished = true) : HasFinished x.id w :=
  ⟨Table.lt_next_of_find hx, fun y hy => by cases hx.symm.trans hy; exact hfinished⟩

section Steps

variable {t : Tid} {o : Op} {w w' : World} {r : Result o}

theorem hasFinished_performs (hs : cond.Le (sparesDeleted lib))
    (hj : cond.Le (jobRuns lib).established) (h : Performs cond t o w r w') {id : Nat}
    (hid : HasFinished id w) : HasFinished id w' := by
  refine ⟨lt_of_lt_of_le hid.1 (jobRuns_next_le h), fun x' hx' => ?_⟩
  cases hx : w.db.jobRuns.find id with
  | none =>
      rcases jobRun_origin h hx' with hsame | ⟨i, tasks, n, now, -, -, hnext, -⟩ | ⟨x, hx₁, -⟩
      · rw [hx] at hsame
        cases hsame
      · exact absurd hid.1 (by rw [hnext]; exact lt_irrefl _)
      · rw [hx] at hx₁
        cases hx₁
  | some x =>
      have his : JobRunIs id x.status w := ⟨hid.1, fun y hy => by cases hx.symm.trans hy; rfl⟩
      have hkept := jobRunIs_performs hj (hid.2 x hx) (fun _ => hs) his h
      rw [hkept.2 x' hx']
      exact hid.2 x hx

theorem hasSettled_performs (hb : cond.Le (base lib).established)
    (hs : cond.Le (sparesDeleted lib)) (hj : cond.Le (jobRuns lib).established)
    (hf : cond.Le (sealsFinished lib)) (h : Performs cond t o w r w') {id : Nat}
    (hid : HasSettled id w) : HasSettled id w' := by
  refine ⟨hasFinished_performs hs hj h hid.1, fun n' hn' hrun hpending => ?_⟩
  rcases jobRunNotification_origin h (Table.find_of_mem hn') with hn |
    ⟨i, now, rfl, ⟨a, rfl⟩, -, hjob, hnew⟩ | ⟨n, i, hn, rfl, -, hnew⟩
  · exact hid.2 n' (Table.mem_of_find hn) hrun hpending
  · -- nothing is added to a finished run
    have hrun' : i.jobRunId = id := by
      rw [hnew] at hrun
      exact hrun
    obtain ⟨x, hx⟩ := Option.isSome_iff_exists.mp hjob
    have hunfinished : x.status.isFinished = false := hf.1 _ _ _ _ _ h.2 x hx
    rw [hrun'] at hx
    rw [hid.1.2 x hx] at hunfinished
    cases hunfinished
  · -- a record opens no row
    have hopens : i.status ≠ some .pending := by
      cases allowed_of hb h with
      | notify hopens => exact hopens
    rw [hnew] at hrun hpending
    refine hid.2 n (Table.mem_of_find hn) hrun ?_
    cases hstatus : i.status with
    | none => simpa [UpdateJobRunNotificationsInput.patch, hstatus] using hpending
    | some status =>
        rw [hstatus] at hopens
        simp only [UpdateJobRunNotificationsInput.patch, hstatus, assign_some] at hpending
        rw [hpending] at hopens
        exact absurd rfl hopens

end Steps

theorem hasSettled_happens {w w' : World} {kill : Tid → Bool} (h : Happens cond w w' kill)
    {id : Nat} (hid : HasSettled id w) : HasSettled id w' := by
  unfold HasSettled HasFinished
  rw [happens_db h]
  exact hid

theorem hasSettled_stable {O : Outline (flowlite lib)} (hb : cond.Le (base lib).established)
    (hs : cond.Le (sparesDeleted lib)) (hj : cond.Le (jobRuns lib).established)
    (hf : cond.Le (sealsFinished lib)) (t : Tid) (id : Nat) :
    O.Stable cond t (HasSettled id) := by
  intro w w' hothers hid
  cases hothers with
  | run _ _ _ _ hperf => exact hasSettled_performs hb hs hj hf hperf hid
  | env _ _ _ hhappens => exact hasSettled_happens hhappens hid

/-! ## What is below a run -/

section Below

variable {t : Tid} {o : Op} {w w' : World} {r : Result o}

/-- A parent after a step was the parent before it, or that of the run it inserted. -/
theorem parentJobRun_origin (hl : Linked w.db) (h : Performs cond t o w r w') {id parent : Nat}
    (hparent : w'.db.parentJobRun id = some parent) :
    w.db.parentJobRun id = some parent ∨
      ∃ i tasks n, o = .write (.insertJobRun i tasks n) ∧ Succeeded r ∧ id = w.db.jobRuns.next ∧
        ∃ x ∈ (i.parentTaskRunAttemptId.bind w.db.taskRunAttempts.find).bind
          fun a => w.db.jobRuns.find a.jobRunId, x.id = parent := by
  obtain ⟨x', a', hx', hxa', ha', hrun⟩ := Database.parentJobRun_eq.mp hparent
  -- the attempt was there before, if the run names one that was
  have hattempt : (w.db.taskRunAttempts.find a'.id).isSome = true →
      ∃ a, w.db.taskRunAttempts.find a'.id = some a ∧ a.id = a'.id ∧ a.jobRunId = parent := by
    intro hsome
    rcases taskRunAttempt_origin h ha' with ha | ⟨i, now, -, -, hnext, -⟩ | ⟨a, ha, f, i, -, -, -, hnew⟩
    · exact ⟨a', ha, rfl, hrun⟩
    · rw [hnext, Table.find_eq_none_of_le (le_refl _)] at hsome
      cases hsome
    · have hkept : a'.jobRunId = a.jobRunId := by
        rw [hnew]
        rfl
      exact ⟨a, ha, Table.key_of_find ha, hkept ▸ hrun⟩
  have hold : ∀ x, w.db.jobRuns.find id = some x →
      x.parentTaskRunAttemptId = x'.parentTaskRunAttemptId →
      w.db.parentJobRun id = some parent := by
    intro x hx hsame
    rw [hxa'] at hsame
    obtain ⟨a, ha, hid, hjob⟩ := hattempt (hl.attempt_of_jobRun x (Table.mem_of_find hx) _ hsame)
    exact Database.parentJobRun_eq.mpr ⟨x, a, hx, by rw [hsame, hid], by rw [hid]; exact ha, hjob⟩
  rcases jobRun_origin h hx' with hx | ⟨i, tasks, n, now, rfl, hok, hnext, hnew⟩ |
    ⟨x, hx, ⟨f, i, -, -, -, hnew⟩ | ⟨now, -, -, -, hnew⟩⟩
  · exact .inl (hold x' hx rfl)
  · have hsubmitted : i.parentTaskRunAttemptId = some a'.id := by
      rw [← hxa', hnew]
      rfl
    obtain ⟨a, ha, hid, hjob⟩ := hattempt (insertJobRun_parent hok h _ hsubmitted)
    obtain ⟨x, hx⟩ := Option.isSome_iff_exists.mp
      (hl.jobRun_of_attempt a (Table.mem_of_find ha))
    refine .inr ⟨i, tasks, n, rfl, hok, hnext, x, ?_, (Table.key_of_find hx).trans hjob⟩
    rw [hsubmitted]
    simp [ha, hx]
  · exact .inl (hold x hx (by rw [hnew]; rfl))
  · exact .inl (hold x hx (by rw [hnew]))

theorem older_performs (hl : Linked w.db) (h : Performs cond t o w r w') (holder : w.db.Older) :
    w'.db.Older := by
  intro id parent hparent
  rcases parentJobRun_origin hl h hparent with hold | ⟨i, tasks, n, -, -, rfl, x, hx, rfl⟩
  · exact holder id parent hold
  · obtain ⟨a, -, hx⟩ := Option.bind_eq_some_iff.mp hx
    have hlt := Table.lt_next_of_find hx
    rw [← Table.key_of_find hx] at hlt
    exact hlt

end Below

/-- How far the search below a run has come: the runs below those on the stack are yet
to be found. -/
structure Searched (top : Nat) (stack : List Nat) (found : List JobRun) (w : World) : Prop where
  begun : looksBelow w.log = true ∨ stack = [top] ∧ found = []
  finished : ∀ x ∈ found, x.status.isFinished = true → HasFinished x.id w
  closed : (∀ x ∈ found, x.status.isFinished = true) →
    ∀ parent, parent = top ∨ parent ∈ found.map (·.id) → parent ∉ stack →
      ∀ id, w.db.parentJobRun id = some parent → id ∈ found.map (·.id)

theorem searched_start (top : Nat) (w : World) : Searched top [top] [] w where
  begun := .inr ⟨rfl, rfl⟩
  finished _ h := absurd h List.not_mem_nil
  closed _ parent hparent hstack := by
    rcases hparent with rfl | hparent
    · exact absurd (List.mem_singleton_self _) hstack
    · exact absurd hparent List.not_mem_nil

/-- Everything below a run has finished, once it has all been found so. -/
theorem Searched.below {top : Nat} {found : List JobRun} {w : World}
    (h : Searched top [] found w) (hfound : ∀ x ∈ found, x.status.isFinished = true) {id : Nat}
    (hbelow : w.db.Below top id) : HasFinished id w := by
  have hmem : id ∈ found.map (·.id) := by
    induction hbelow with
    | single hparent => exact h.closed hfound top (.inl rfl) List.not_mem_nil _ hparent
    | tail _ hparent ih => exact h.closed hfound _ (.inr ih) List.not_mem_nil _ hparent
  obtain ⟨x, hx, rfl⟩ := List.mem_map.mp hmem
  exact h.finished x hx (hfound x hx)

section Searching

variable {t : Tid} {o : Op} {w w' : World} {r : Result o}

theorem searched_performs (hb : cond.Le (base lib).established)
    (hs : cond.Le (sparesDeleted lib)) (hj : cond.Le (jobRuns lib).established)
    (hf : cond.Le (sealsFinished lib)) (ht : t ≠ .service .retention)
    (h : Performs cond t o w r w') {top : Nat} {stack : List Nat} {found : List JobRun}
    (htop : HasFinished top w) (hw : Searched top stack found w) :
    Searched top stack found w' where
  begun := by
    rw [log_performs h]
    refine hw.begun.imp_left fun hbegun => ?_
    unfold looksBelow
    rw [if_neg ht]
    exact hbegun
  finished x hx hfinished := hasFinished_performs hs hj h (hw.finished x hx hfinished)
  closed hfound parent hparent hstack id hid := by
    rcases parentJobRun_origin (linked_of hb h).1 h hid with hold |
      ⟨i, tasks, n, rfl, ⟨a, rfl⟩, -, x, hx, rfl⟩
    · exact hw.closed hfound parent hparent hstack id hold
    · -- a run submitted while the service looks is below none that has finished
      obtain ⟨b, -, hfind⟩ := Option.bind_eq_some_iff.mp hx
      have hkey : x.id = b.jobRunId := Table.key_of_find hfind
      rw [← hkey] at hfind
      rcases hw.begun with hbegun | ⟨rfl, rfl⟩
      · have hunfinished : x.status.isFinished = false := hf.1 _ _ _ _ _ h.2 hbegun x hx
        have hfinished : HasFinished x.id w := by
          rcases hparent with htop' | hmem
          · rw [htop']
            exact htop
          · obtain ⟨y, hy, hyx⟩ := List.mem_map.mp hmem
            rw [← hyx]
            exact hw.finished y hy (hfound y hy)
        rw [hfinished.2 x hfind] at hunfinished
        cases hunfinished
      · rcases hparent with hparent | hparent
        · exact absurd (List.mem_singleton.mpr hparent) hstack
        · exact absurd hparent List.not_mem_nil

/-- One more run's children are found. -/
theorem searched_select {top parent : Nat} {stack : List Nat} {found : List JobRun}
    {r : Result (.select (.jobRuns { filter := { parentJobRunId := some parent }, sort := some .id }))}
    (hw : Searched top (parent :: stack) found w) :
    let children := w.db.selectJobRuns
      { filter := { parentJobRunId := some parent }, sort := some .id }
    Searched top ((children.map (·.id)).reverse ++ stack) (found ++ children)
      { w with log := ⟨.service .retention, _, r⟩ :: w.log } := by
  intro children
  refine ⟨.inl rfl, fun x hx hfinished => ?_, fun hfound z hz hstack id hid => ?_⟩
  · rcases List.mem_append.mp hx with hx | hx
    · exact hw.finished x hx hfinished
    · exact hasFinished_of_find (Database.mem_selectJobRuns hx).1 hfinished
  · rw [List.map_append, List.mem_append] at hz ⊢
    by_cases hz' : z = parent
    · subst hz'
      obtain ⟨x, hx, hxid⟩ := Database.select_of_parentJobRun hid
      exact .inr (List.mem_map.mpr ⟨x, hx, hxid⟩)
    have hnot : z ∉ children.map (·.id) := fun hmem =>
      hstack (List.mem_append_left _ (List.mem_reverse.mpr hmem))
    refine .inl (hw.closed (fun x hx => hfound x (List.mem_append_left _ hx)) z ?_ ?_ id hid)
    · rcases hz with rfl | hz | hz
      · exact .inl rfl
      · exact .inr hz
      · exact absurd hz hnot
    · intro hmem
      rcases List.mem_cons.mp hmem with heq | hmem
      · exact hz' heq
      · exact hstack (List.mem_append_right _ hmem)

end Searching

/-! ## The outline -/

/-- A run that is deleted has settled, everything below it has finished, and the pass
has not used up its cap, if that is `counted`. -/
def retention (lib : Library) (counted : Bool) : Outline (flowlite lib) where
  inv w := w.db.Older
  pre _ o w := ∀ f, o = .write (.deleteJobRunsWithChildren f) → ∃ top, f = { id := some top } ∧
    HasSettled top w ∧ (∀ id, w.db.Below top id → HasFinished id w) ∧
    (counted = true → 0 < w.deleteCap → deletedInPass w.log < w.deleteCap)
  idle _ _ := True

/-- The operation that deletes. -/
def Deletes : Op → Prop
  | .write (.deleteJobRunsWithChildren _) => True
  | _ => False

theorem not_deletes_pre {t : Tid} {o : Op} (ho : ¬ Deletes o) (w : World) :
    (retention lib counted).pre t o w := by
  rintro f rfl
  exact absurd trivial ho

theorem Silent.not_deletes {o : Op} (h : Silent o) : ¬ Deletes o := by
  cases o <;> first | exact id | exact h.elim

theorem deletes_thread {t : Tid} {o : Op} (h : Allowed t o) (ho : Deletes o) :
    t = .service .retention := by
  cases o with
  | write q =>
      cases q
      case deleteJobRunsWithChildren f =>
        cases h
        rfl
      all_goals exact ho.elim
  | _ => exact ho.elim

/-- What deletes nothing adds nothing to the count. -/
theorem deletedInPass_le {e : Host.Event} (ho : ¬ Deletes e.op) (log : List Host.Event) :
    deletedInPass (e :: log) ≤ deletedInPass log := by
  obtain ⟨t, o, r⟩ := e
  cases o with
  | select q =>
      cases q with
      | jobRunJobIds f =>
          show (if t = .service .retention then 0 else deletedInPass log) ≤ deletedInPass log
          split
          · exact Nat.zero_le _
          · exact le_refl _
      | _ => exact le_refl _
  | write q =>
      cases q
      case deleteJobRunsWithChildren f => exact absurd trivial ho
      all_goals exact le_refl _
  | _ => exact le_refl _

namespace Retention

abbrev thread : Tid := .service .retention

/-- The pass may still delete `n` runs. -/
def Room (counted : Bool) (config : Config) (n : Nat) (w : World) : Prop :=
  w.serve = .up config ∧ (counted = true → 0 < config.app.maxDeletesPerPass →
    deletedInPass w.log + n ≤ config.app.maxDeletesPerPass)

theorem Room.log {config : Config} {n : Nat} {w : World} {e : Host.Event}
    (ho : ¬ Deletes e.op) (h : Room counted config n w) :
    Room counted config n { w with log := e :: w.log } :=
  ⟨h.1, fun hcounted hcap =>
    le_trans (Nat.add_le_add_right (deletedInPass_le ho _) n) (h.2 hcounted hcap)⟩

theorem Room.weaken {config : Config} {n m : Nat} {w : World} (h : Room counted config n w)
    (hm : 0 < config.app.maxDeletesPerPass → m ≤ n) : Room counted config m w :=
  ⟨h.1, fun hcounted hcap =>
    le_trans (Nat.add_le_add_left (hm hcap) _) (h.2 hcounted hcap)⟩

theorem Room.performs {t : Tid} {o : Op} {w w' : World} {r : Result o} {config : Config} {n : Nat}
    (h : Performs cond t o w r w') (ho : ¬ Deletes o) (hserve : w'.serve = .up config)
    (hroom : Room counted config n w) : Room counted config n w' := by
  refine ⟨hserve, fun hcounted hcap => ?_⟩
  rw [log_performs h]
  exact le_trans (Nat.add_le_add_right (deletedInPass_le ho _) n) (hroom.2 hcounted hcap)

theorem room_stable {O : Outline (flowlite lib)} (hb : cond.Le (base lib).established)
    (config : Config) (n : Nat) : O.Stable cond thread (Room counted config n) := by
  intro w w' hothers h
  have hserve : ServedBy config thread w' := ServedBy.stable hb config thread w w' hothers h.1
  cases hothers with
  | run hu _ _ _ hperf =>
      exact h.performs hperf (fun ho => hu (deletes_thread (allowed_of hb hperf) ho)) hserve
  | env _ _ _ hhappens =>
      refine ⟨hserve, ?_⟩
      rw [log_happens hhappens]
      exact h.2

/-! ### Selecting -/

section Select

variable (hb : cond.Le (base lib).established) (hs : cond.Le (sparesDeleted lib))
  (hj : cond.Le (jobRuns lib).established) (hf : cond.Le (sealsFinished lib))

/-- What a pass has selected: runs that have settled. -/
def Selected (counted : Bool) (config : Config) (n : Nat) (ids : List Nat) (w : World) : Prop :=
  Room counted config n w ∧ ∀ id ∈ ids, HasSettled id w

theorem selected_log {config : Config} {n : Nat} {ids : List Nat} (w : World) (o : Op)
    (r : Result o) (ho : Silent o) (h : Selected counted config n ids w) :
    Selected counted config n ids { w with log := ⟨thread, o, r⟩ :: w.log } :=
  ⟨h.1.log (e := ⟨thread, o, r⟩) ho.not_deletes, h.2⟩

include hb hs hj hf

theorem selected_stable (config : Config) (n : Nat) (ids : List Nat) :
    (retention lib counted).Stable cond thread (Selected counted config n ids) := by
  intro w w' hothers h
  exact ⟨room_stable hb config n w w' hothers h.1, fun id hid =>
    hasSettled_stable hb hs hj hf thread id w w' hothers (h.2 id hid)⟩

theorem retention_silent {α : Type} {p : Code α} {config : Config} {n : Nat} {ids : List Nat}
    (hp : p.Uses Silent) :
    (retention lib counted).Triple cond thread (Selected counted config n ids) p
      fun _ => Selected counted config n ids :=
  Triple.silent hp (selected_stable hb hs hj hf config n ids) selected_log
    fun _ w ho _ => not_deletes_pre ho.not_deletes w

omit hb hs hj hf in
theorem finishedJobRunsFilter_finished {jobId : Option String} {db : Database} {x : JobRun}
    (h : (finishedJobRunsFilter jobId).holds db x = true) : x.status.isFinished = true := by
  have hstatus : x.status ∈ [JobRunStatus.succeeded, .failed, .skipped, .aborted, .timedOut,
      .invalid, .deleted] := by
    simp only [finishedJobRunsFilter, SelectJobRunsFilter.holds, clause_some, clause_none,
      Bool.and_true, Bool.and_eq_true, List.contains_iff_mem] at h
    exact h.2
  cases hx : x.status <;> first | rfl | (rw [hx] at hstatus; simp at hstatus)

omit hb hs hj hf in
theorem selectJobRuns_length (db : Database) (q : SelectJobRuns) {n : Int}
    (hq : q.limit = some n) (hn : 0 ≤ n) : (db.selectJobRuns q).length ≤ n.toNat := by
  unfold Database.selectJobRuns window
  rw [hq]
  dsimp only
  rw [if_neg (by omega)]
  exact List.length_take_le ..

/-- A window of finished runs, without those that owe a notification at the moment
that is asked. -/
theorem retention_selectDeletable (config : Config) (n : Nat) (ids : List Nat)
    (jobId : Option String) (sort : DeletableSort) (offset limit : Option Nat) :
    (retention lib counted).Triple cond thread (Selected counted config n ids)
      (selectDeletableJobRuns jobId sort offset limit) fun r w => Selected counted config n ids w ∧
        ∀ more, r = .ok more → (∀ id ∈ more, HasSettled id w) ∧
          ∀ l, limit = some l → more.length ≤ l := by
  have hstable : (retention lib counted).Stable cond thread (Selected counted config n ids) :=
    selected_stable hb hs hj hf config n ids
  refine Triple.bind (R := fun r w => Selected counted config n ids w ∧ ∀ window, r = .ok window →
      ∀ l, limit = some l → ∃ m : Int, window.2 = some m ∧ 0 ≤ m ∧ m ≤ l) ?_ (fun window => ?_)
    fun _ _ _ h => ⟨h.1, by nofun⟩
  · cases sort with
    | newestFirst =>
        refine Triple.bind (retention_silent hb hs hj hf (uses_select trivial)) (fun matched => ?_)
          fun _ _ _ h => ⟨h, by nofun⟩
        refine Triple.ret fun w _ h => ⟨h, ?_⟩
        rintro window heq l rfl
        cases heq
        exact ⟨min (l : Int) (max ((matched : Int) - (offset.getD 0 : Nat)) 0), rfl, by omega,
          min_le_left ..⟩
    | oldestFirst =>
        refine Triple.ret fun w _ h => ⟨h, ?_⟩
        rintro window heq l rfl
        cases heq
        exact ⟨l, rfl, Int.natCast_nonneg l, le_refl _⟩
  obtain ⟨windowOffset, windowLimit⟩ := window
  refine Triple.of_fact (F := ∀ l, limit = some l → ∃ m : Int, windowLimit = some m ∧ 0 ≤ m ∧ m ≤ l)
    (fun w _ h => h.2 _ rfl) fun hlimit => ?_
  refine Triple.bind (R := fun r w => Selected counted config n ids w ∧ ∀ runs, r = .ok runs →
      (∀ x ∈ runs, HasFinished x.id w) ∧ ∀ l, limit = some l → runs.length ≤ l) ?_
    (fun runs => ?_) fun _ _ _ h => ⟨h.1, by nofun⟩
  · refine (Triple.select
      (q := .jobRuns ⟨finishedJobRunsFilter jobId, some .id, windowLimit, windowOffset⟩)
      (Q := fun (runs : List JobRun) w => (∀ x ∈ runs, HasFinished x.id w) ∧
        ∀ l, limit = some l → runs.length ≤ l) hstable (fun w r h => selected_log w _ r trivial h)
      (fun w _ => not_deletes_pre (by exact id) w) fun w _ _ => ⟨fun x hx => ?_, fun l hl => ?_⟩).pre
      fun _ _ h => h.1
    · obtain ⟨hfind, hholds⟩ := Database.mem_selectJobRuns hx
      exact hasFinished_of_find (w := w) hfind (finishedJobRunsFilter_finished hholds)
    · obtain ⟨m, hm, hpos, hle⟩ := hlimit l hl
      have hlength := selectJobRuns_length w.db ⟨finishedJobRunsFilter jobId,
        some .id, windowLimit, windowOffset⟩ hm hpos
      exact le_trans hlength (by omega)
  refine Triple.of_fact (F := ∀ l, limit = some l → runs.length ≤ l)
    (fun w _ h => (h.2 runs rfl).2) fun hlength => ?_
  have hfinished : (retention lib counted).Stable cond thread fun w =>
      Selected counted config n ids w ∧ ∀ x ∈ runs, HasFinished x.id w := by
    intro w w' hothers h
    refine ⟨hstable w w' hothers h.1, fun x hx => ?_⟩
    cases hothers with
    | run _ _ _ _ hperf => exact hasFinished_performs hs hj hperf (h.2 x hx)
    | env _ _ _ hhappens =>
        unfold HasFinished
        rw [happens_db hhappens]
        exact h.2 x hx
  refine Triple.bind ((Triple.select (q := .jobRunNotifications { status := some .pending })
    (Q := fun pending w => ∀ x ∈ runs, (!(pending.any fun n => n.jobRunId = x.id)) = true →
      HasSettled x.id w) hfinished (fun w r h => ⟨selected_log w _ r trivial h.1, h.2⟩)
    (fun w _ => not_deletes_pre (by exact id) w) fun w _ h x hx hnone => ?_).pre
    fun w _ h => ⟨h.1, (h.2 runs rfl).1⟩) (fun pending => ?_) fun _ _ _ h => ⟨h.1.1, by nofun⟩
  · refine ⟨h.2 x hx, fun n hn hrun hpending => ?_⟩
    have hmem : n ∈ w.db.selectJobRunNotifications { status := some .pending } :=
      List.mem_filter.mpr ⟨hn, by simp [SelectJobRunNotificationsFilter.holds, hpending]⟩
    rw [Bool.not_eq_true', List.any_eq_false] at hnone
    exact hnone n hmem (decide_eq_true hrun)
  · refine Triple.ret fun w _ h => ⟨h.1.1, ?_⟩
    rintro more heq
    cases heq
    refine ⟨fun id hid => ?_, fun l hl => ?_⟩
    · obtain ⟨hid, hnone⟩ := List.mem_filter.mp hid
      obtain ⟨x, hx, rfl⟩ := List.mem_map.mp hid
      exact h.2 pending rfl x hx hnone
    · refine le_trans (List.length_filter_le ..) ?_
      rw [List.length_map]
      exact hlength l hl

omit hb hs hj hf in
theorem remainingBudget_some {budget selected : Nat} (h : 0 < budget) :
    remainingBudget budget selected = some (budget - selected) := by
  unfold remainingBudget
  rw [if_neg (by omega)]

theorem retention_selectPerJob (config : Config) (n : Nat) (jobIds : List String)
    (ids : List Nat)
    (hids : 0 < config.app.maxDeletesPerPass → ids.length ≤ config.app.maxDeletesPerPass) :
    (retention lib counted).Triple cond thread (Selected counted config n ids)
      (selectPerJobCandidates config ids jobIds) fun r w => Room counted config n w ∧
        ∀ all, r = .ok all → (∀ id ∈ all, HasSettled id w) ∧
          (0 < config.app.maxDeletesPerPass → all.length ≤ config.app.maxDeletesPerPass) := by
  induction jobIds generalizing ids with
  | nil =>
      refine Triple.ret fun w _ h => ⟨h.1, ?_⟩
      rintro all heq
      cases heq
      exact ⟨h.2, hids⟩
  | cons jobId rest ih =>
      refine Triple.bind (retention_silent hb hs hj hf (selectJob_silent config jobId))
        (fun job => ?_) fun _ _ _ h => ⟨h.1, by nofun⟩
      have hstep : ∀ keepRuns : Nat, (retention lib counted).Triple cond thread
          (Selected counted config n ids)
          (if keepRuns = 0 then selectPerJobCandidates config ids rest
          else do
            let candidates ← selectDeletableJobRuns (some jobId) .newestFirst (some keepRuns)
              (remainingBudget config.app.maxDeletesPerPass ids.length)
            selectPerJobCandidates config (ids ++ candidates) rest)
          fun r w => Room counted config n w ∧ ∀ all, r = .ok all → (∀ id ∈ all, HasSettled id w) ∧
            (0 < config.app.maxDeletesPerPass → all.length ≤ config.app.maxDeletesPerPass) := by
        intro keepRuns
        split
        · exact ih ids hids
        refine Triple.bind (retention_selectDeletable hb hs hj hf config n ids _ _ _ _)
          (fun candidates => ?_) fun _ _ _ h => ⟨h.1.1, by nofun⟩
        refine Triple.of_fact (F := 0 < config.app.maxDeletesPerPass →
          (ids ++ candidates).length ≤ config.app.maxDeletesPerPass) (fun w _ h hcap => ?_)
          fun hmore => (ih (ids ++ candidates) hmore).pre fun w _ h => ⟨h.1.1, fun id hid => ?_⟩
        · have hle := (h.2 candidates rfl).2 _ (remainingBudget_some hcap)
          have hlength := hids hcap
          rw [List.length_append]
          omega
        · rcases List.mem_append.mp hid with hid | hid
          · exact h.1.2 id hid
          · exact (h.2 candidates rfl).1 id hid
      exact hstep _

theorem retention_selectGlobal (config : Config) (n : Nat) (ids : List Nat) :
    (retention lib counted).Triple cond thread (Selected counted config n ids)
      (selectGlobalOverflowCandidates config ids) fun r w => Selected counted config n ids w ∧
        ∀ more, r = .ok more → (∀ id ∈ more, HasSettled id w) ∧
          (0 < config.app.maxDeletesPerPass →
            more.length ≤ config.app.maxDeletesPerPass - ids.length) := by
  have hnone : ∀ w, Selected counted config n ids w → Selected counted config n ids w ∧
      ∀ more, (.ok [] : Except Err (List Nat)) = .ok more → (∀ id ∈ more, HasSettled id w) ∧
        (0 < config.app.maxDeletesPerPass →
          more.length ≤ config.app.maxDeletesPerPass - ids.length) := by
    intro w h
    refine ⟨h, fun more heq => ?_⟩
    cases heq
    exact ⟨fun _ h => absurd h List.not_mem_nil, fun _ => Nat.zero_le _⟩
  unfold selectGlobalOverflowCandidates
  split
  · exact Triple.ret fun w _ h => hnone w h
  refine Triple.bind (retention_silent hb hs hj hf countFinishedJobRuns_silent) (fun finished => ?_)
    fun _ _ _ h => ⟨h, by nofun⟩
  dsimp only
  split
  · exact Triple.ret fun w _ h => hnone w h
  refine Triple.bind (retention_selectDeletable hb hs hj hf config n ids _ _ _ _)
    (fun candidates => Triple.ret fun w _ h => ⟨h.1, ?_⟩) fun _ _ _ h => ⟨h.1, by nofun⟩
  rintro more heq
  cases heq
  obtain ⟨hsettled, hlength⟩ := h.2 candidates rfl
  refine ⟨fun id hid => hsettled id (List.mem_filter.mp hid).1, fun hcap => ?_⟩
  refine le_trans (List.length_filter_le ..) (le_trans (hlength _ rfl) ?_)
  rw [remainingBudget_some hcap]
  exact min_le_right ..

/-- What a pass selects has settled, and fits its cap. -/
theorem retention_selectRows (config : Config) :
    (retention lib counted).Triple cond thread (fun w : World => w.serve = .up config)
      (selectRows config)
      fun r w => ∀ rows, r = .ok rows → Selected counted config rows.length rows w := by
  refine Triple.bind (R := fun _ => Selected counted config config.app.maxDeletesPerPass []) ?_
    (fun jobIds => ?_) fun _ _ _ _ => by nofun
  · refine Triple.perform (P := fun w : World => w.serve = .up config)
      (fun w w' hothers h =>
        ServedBy.stable (O := retention lib counted) hb config thread w w' hothers h)
      (fun w _ _ _ _ _ => not_deletes_pre (o := .select _) id w) fun w r w' _ h hperf _ => ?_
    have hserve : ServedBy config thread w' := ServedBy.kept hperf (by nofun) (t := thread) h
    refine ⟨⟨hserve, fun _ _ => ?_⟩, fun _ h => absurd h List.not_mem_nil⟩
    -- the count starts here
    rw [log_performs hperf]
    exact le_of_eq (Nat.zero_add _)
  refine Triple.bind (retention_selectPerJob hb hs hj hf config _ jobIds [] fun _ => Nat.zero_le _)
    (fun perJobIds => ?_) fun _ _ _ _ => by nofun
  refine Triple.of_fact (F := 0 < config.app.maxDeletesPerPass →
    perJobIds.length ≤ config.app.maxDeletesPerPass) (fun w _ h => (h.2 perJobIds rfl).2)
    fun hperJob => ?_
  refine Triple.bind ((retention_selectGlobal hb hs hj hf config _ perJobIds).pre
    fun w _ h => ⟨h.1, (h.2 perJobIds rfl).1⟩) (fun globalIds => Triple.ret fun w _ h => ?_)
    fun _ _ _ _ => by nofun
  rintro rows heq
  cases heq
  obtain ⟨hsettled, hlength⟩ := h.2 globalIds rfl
  refine ⟨h.1.1.weaken fun hcap => ?_, fun id hid => ?_⟩
  · have hglobal := hlength hcap
    have hperJob := hperJob hcap
    rw [List.length_append]
    omega
  · rcases List.mem_append.mp hid with hid | hid
    · exact h.1.2 id hid
    · exact hsettled id hid

/-! ### Deleting -/

theorem searched_stable {top : Nat} {stack : List Nat} {found : List JobRun} :
    (retention lib counted).Stable cond thread fun w =>
      HasSettled top w ∧ Searched top stack found w := by
  intro w w' hothers h
  refine ⟨hasSettled_stable hb hs hj hf thread top w w' hothers h.1, ?_⟩
  cases hothers with
  | run hu _ _ _ hperf => exact searched_performs hb hs hj hf hu hperf h.1.1 h.2
  | env _ _ _ hhappens =>
      have hdb := happens_db hhappens
      refine ⟨?_, fun x hx hfinished => ?_, ?_⟩
      · rw [log_happens hhappens]
        exact h.2.begun
      · unfold HasFinished
        rw [hdb]
        exact h.2.finished x hx hfinished
      · rw [hdb]
        exact h.2.closed

theorem retention_search (config : Config) (n top fuel : Nat) (stack : List Nat)
    (found : List JobRun) :
    (retention lib counted).Triple cond thread
      (fun w => Room counted config n w ∧ HasSettled top w ∧ Searched top stack found w)
      (selectJobRunDescendants fuel stack found) fun r w => Room counted config n w ∧
        ∀ descendants, r = .ok descendants →
          HasSettled top w ∧ Searched top [] descendants w := by
  induction fuel generalizing stack found with
  | zero =>
      cases stack with
      | nil =>
          refine Triple.ret fun w _ h => ⟨h.1, ?_⟩
          rintro descendants heq
          cases heq
          exact h.2
      | cons parent rest => exact Triple.throw fun w _ h => ⟨h.1, by nofun⟩
  | succ fuel ih =>
      cases stack with
      | nil =>
          refine Triple.ret fun w _ h => ⟨h.1, ?_⟩
          rintro descendants heq
          cases heq
          exact h.2
      | cons parent rest =>
          refine Triple.bind (R := fun r w => Room counted config n w ∧
            ∀ children, r = .ok children → HasSettled top w ∧ Searched top (((children : List JobRun).map (·.id)).reverse ++ rest)
              (found ++ children) w) ?_
            (fun children => (ih _ _).pre fun w _ h => ⟨h.1, h.2 children rfl⟩)
            fun _ _ _ h => ⟨h.1, by nofun⟩
          refine Triple.perform ((room_stable hb config n).and (searched_stable hb hs hj hf))
            (fun w _ _ _ _ _ => not_deletes_pre (by exact id) w) fun w r w' _ h hperf _ => ?_
          have hw' := silent_performs (o := .select _) trivial hperf
          rw [hw']
          refine ⟨h.1.log (by exact id), ?_⟩
          rintro children rfl
          rcases select_cases hperf with ⟨e, he⟩ | ha
          · cases he
          · cases ha
            exact ⟨h.2.1, searched_select h.2.2⟩

variable (hd : cond.Le (deletesAlone lib counted))

include hd

/-- A run that is deleted uses up one place of the cap. -/
theorem retention_delete (config : Config) (n top : Nat) (found : List JobRun)
    (hfound : ∀ x ∈ found, x.status.isFinished = true) :
    (retention lib counted).Triple cond thread
      (fun w => Room counted config (n + 1) w ∧ HasSettled top w ∧ Searched top [] found w)
      (write (.deleteJobRunsWithChildren { id := some top })) fun _ => Room counted config n := by
  refine Triple.perform ((room_stable hb config _).and (searched_stable hb hs hj hf)) ?_ ?_
  · rintro w r w' _ ⟨hroom, hsettled, hsearched⟩ - f heq
    cases heq
    refine ⟨top, rfl, hsettled, fun id => hsearched.below hfound, fun hcounted hcap => ?_⟩
    unfold Host.World.deleteCap at hcap ⊢
    rw [hroom.1] at hcap ⊢
    have hplace := hroom.2 hcounted hcap
    dsimp only
    omega
  · rintro w r w' holder ⟨hroom, -⟩ hperf -
    have hserve : ServedBy config thread w' := ServedBy.kept hperf (by nofun) (t := thread) hroom.1
    refine ⟨hserve, fun hcounted hcap => ?_⟩
    have hplace := hroom.2 hcounted hcap
    rw [log_performs hperf]
    cases r with
    | error e =>
        have hkept : deletedInPass (⟨thread, .write (.deleteJobRunsWithChildren
          { id := some top }), .error e⟩ :: w.log) = deletedInPass w.log := rfl
        rw [hkept]
        omega
    | ok ids =>
        have hmore : deletedInPass (⟨thread, .write (.deleteJobRunsWithChildren
          { id := some top }), .ok ids⟩ :: w.log) = ids.length + deletedInPass w.log := rfl
        obtain ⟨now, hrun⟩ := write_ok hperf
        obtain ⟨hids, -, -⟩ := Database.run_deleteJobRunsWithChildren hrun
        have halone := (hd.1 _ _ _ _ _ hperf.2 top rfl).2 hcounted
        unfold Host.World.deleteCap at halone
        rw [hroom.1] at halone
        have hone : ids.length ≤ 1 := by
          rw [hids]
          exact Database.deletedBy_length (Database.not_below holder (halone hcap))
        rw [hmore]
        omega

theorem retention_handle (config : Config) (fuel n top : Nat) :
    (retention lib counted).Triple cond thread
      (fun w => Room counted config (n + 1) w ∧ HasSettled top w)
      (handle config fuel top) fun _ => Room counted config n := by
  refine Triple.bind ((retention_search hb hs hj hf config (n + 1) top fuel [top] []).pre
    fun w _ h => ⟨h.1, h.2, searched_start top w⟩) (fun descendants => ?_)
    fun _ _ _ h => h.1.weaken fun _ => Nat.le_succ _
  split
  · exact Triple.ret fun _ _ h => h.1.weaken fun _ => Nat.le_succ _
  rename_i hfound
  have hfound : ∀ x ∈ descendants, x.status.isFinished = true := by
    intro x hx
    by_contra hunfinished
    exact hfound (List.any_eq_true.mpr ⟨x, hx, by simpa using hunfinished⟩)
  refine Triple.bind ((retention_delete hb hs hj hf hd config n top descendants hfound).pre
    fun w _ h => ⟨h.1, h.2 descendants rfl⟩) (fun deleted => ?_) fun _ _ _ h => h
  refine Triple.of_uses (room_stable hb config n) (Prog.Uses.forEach fun id _ => ?_)
  have hkeeps : ∀ o : Op, ¬ Deletes o → o ≠ .startServices → ∀ w r w',
      (retention lib counted).inv w → Room counted config n w → Performs cond thread o w r w' →
      (retention lib counted).pre thread o w ∧
        ((retention lib counted).inv w' → Room counted config n w') :=
    fun o ho hstart w r w' _ h hperf => ⟨not_deletes_pre ho w, fun _ =>
      h.performs hperf ho (ServedBy.kept hperf hstart (t := thread) h.1)⟩
  have hsilent : ∀ o : Op, Silent o → _ := fun o ho =>
    hkeeps o ho.not_deletes (by rintro rfl; exact ho)
  refine Prog.Uses.bind (Prog.Uses.attempt ?_) fun _ => Prog.uses_ret _
  refine Prog.Uses.bind ((jobRunDir_silent _ _).mono hsilent) fun dir =>
    Prog.Uses.bind ((Prog.uses_perform _).mpr (hsilent _ trivial)) fun isThere => ?_
  split
  · exact (Prog.uses_perform _).mpr (hkeeps _ (fun ho => ho) nofun)
  · trivial

theorem retention_pass (config : Config) (fuel : Nat) :
    (retention lib counted).Triple cond thread (fun w : World => w.serve = .up config)
      (poller config fuel).pass fun _ _ => True := by
  refine Triple.bind (retention_selectRows hb hs hj hf config) (fun rows => ?_)
    fun _ _ _ _ => trivial
  -- one row at a time, with the settled rows that are left
  have hbody : ∀ (id : Nat) (rest : List Nat), (retention lib counted).Triple cond thread
      (fun w => Selected counted config (rest.length + 1) (id :: rest) w)
      (((poller config fuel).handle id).attempt.bind fun _ => .ret ()) fun r w =>
        r = .ok () → Selected counted config rest.length rest w := by
    intro id rest
    have hrest : (retention lib counted).Stable cond thread fun w => ∀ y ∈ rest, HasSettled y w :=
      fun w w' hothers h y hy => hasSettled_stable hb hs hj hf thread y w w' hothers (h y hy)
    refine Triple.bind (R := fun r (w : World) =>
        (∀ e, r ≠ .error e) ∧ Selected counted config rest.length rest w)
      (Triple.attempt (((retention_handle hb hs hj hf hd config fuel rest.length id).frame hrest
        (.of_forall _ fun o w r w' _ _ _ hperf h y hy =>
          hasSettled_performs hb hs hj hf hperf (h y hy))).conseq ?_ ?_))
      (fun _ => Triple.ret fun _ _ h _ => h.2) fun e _ _ h => absurd rfl (h.1 e)
    · exact fun w _ h => ⟨⟨h.1, h.2 id (List.mem_cons_self ..)⟩,
        fun y hy => h.2 y (List.mem_cons_of_mem _ hy)⟩
    · exact fun r w _ h => ⟨fun e heq => (by cases heq), h⟩
  exact (Triple.forEach (I := fun (rest : List Nat) w => Selected counted config rest.length rest w)
    (E := fun _ => True) (fun id rest => (hbody id rest).post fun r _ _ h => by
      cases r with
      | ok _ => exact h rfl
      | error _ => trivial)
    rows).conseq (fun w _ h => h rows rfl) fun _ _ _ _ => trivial

end Select

end Retention

theorem retention_valid (hb : cond.Le (base lib).established) (hs : cond.Le (sparesDeleted lib))
    (hj : cond.Le (jobRuns lib).established) (hf : cond.Le (sealsFinished lib))
    (hd : cond.Le (deletesAlone lib counted)) : (retention lib counted).Valid cond where
  init := by
    rintro w rfl
    refine ⟨fun id parent hparent => ?_, fun _ => trivial⟩
    obtain ⟨x, a, hx, -⟩ := Database.parentJobRun_eq.mp hparent
    exact absurd (Table.mem_of_find hx) List.not_mem_nil
  step _ _ _ _ _ hi _ hperf := older_performs (linked_of hb hperf).1 hperf hi
  env w w' kill hi hhappens := by
    refine ⟨?_, fun _ _ => trivial⟩
    have holder : w.db.Older := hi
    rw [← happens_db hhappens] at holder
    exact holder
  idle t := stable_true t
  start := by
    -- no other thread deletes
    have hothers : ∀ {t : Tid}, t ≠ .service .retention → ∀ (P : World → Prop) (p : Code Unit),
        (retention lib counted).Triple cond t P p fun _ _ => True := by
      intro t ht P p
      exact (Triple.of_pre fun o w r w' _ hperf => not_deletes_pre
        (fun ho => ht (deletes_thread (allowed_of hb hperf) ho)) w).pre fun _ _ _ => trivial
    refine start_triple_served (fun config fuel s => ?_) fun c r => hothers (by nofun) _ _
    by_cases hs' : s = .retention
    · subst hs'
      exact (Retention.retention_pass hb hs hj hf hd config fuel).pre fun _ _ h => h.2
    · exact hothers (by simpa using hs') _ _

end Flowlite

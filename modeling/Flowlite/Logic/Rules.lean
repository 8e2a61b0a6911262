import Flowlite.Logic.Base
import Flowlite.Logic.Linked

/-!
# Rules for flowlite's own programs

The rules of `Flowlite.Threads.Outline` at the operations of flowlite: code that
only reads, one select, one write, one pass of a poller. `base` is the outline
every other one is laid over: each thread keeps to the operations of its own code
(`Allowed`), and the services run only while `serve` does.
-/

namespace Flowlite

open Store Host Threads Crud Machine Outline

variable {lib : Library} {cond : (flowlite lib).Condition} {O : Outline (flowlite lib)}

/-! ## Operations -/

theorem silent_performs {t : Tid} {o : Op} {w w' : World} {r : Result o} (ho : Silent o)
    (h : Performs cond t o w r w') : w' = { w with log := ⟨t, o, r⟩ :: w.log } := by
  obtain ⟨ch, w₁, houtcome, rfl⟩ := performs_cases h
  cases o <;> simp only [Silent] at ho
  all_goals
    simp only [World.outcome, Option.some.injEq, Prod.mk.injEq, Option.map_eq_some_iff] at houtcome
  all_goals grind

theorem select_cases {t : Tid} {q : Query} {w w' : World} {r : Result (.select q)}
    (h : Performs cond t (.select q) w r w') : (∃ e, r = .error e) ∨ r = .ok (q.run w.db) := by
  obtain ⟨ch, w₁, houtcome, rfl⟩ := performs_cases h
  simp only [World.outcome, Option.some.injEq] at houtcome
  split at houtcome <;> cases houtcome
  · exact .inl ⟨_, rfl⟩
  · exact .inr rfl

/-- Only the recovery's last operation changes what `serve` is doing. -/
theorem serve_cases {t : Tid} {o : Op} {w w' : World} {r : Result o}
    (h : Performs cond t o w r w') :
    w'.serve = w.serve ∨
      o = .startServices ∧ ∃ config, w.serve = .starting config ∧ w'.serve = .up config := by
  obtain ⟨ch, w₁, houtcome, rfl⟩ := performs_cases h
  cases o
  case startServices =>
    simp only [World.outcome] at houtcome
    split at houtcome
    · rename_i config hserve
      cases houtcome
      exact .inr ⟨rfl, config, hserve, rfl⟩
    · cases houtcome
  all_goals left
  case write q =>
    rcases write_cases h with ⟨e, -, heq⟩ | ⟨now, a, db, -, -, heq⟩
    · rw [heq]
    · rw [heq]
      cases q <;> rfl
  all_goals
    simp only [World.outcome, Option.some.injEq, Option.map_eq_some_iff,
      Option.bind_eq_some_iff] at houtcome
  all_goals grind [World.updateProcess, World.hold, World.killProcessGroup, World.signalGroup]

/-- The services are started once. -/
theorem not_started {t : Tid} {o : Op} {w w' : World} {r : Result o} {config : Config}
    (h : Performs cond t o w r w') (hserve : w.serve = .up config) : o ≠ .startServices := by
  rintro rfl
  obtain ⟨ch, w₁, houtcome, -⟩ := performs_cases h
  simp only [World.outcome, hserve] at houtcome
  cases houtcome

theorem external_serve {w w' : World} {e : External} {kill : Tid → Bool}
    (h : w.external e = some (w', kill)) :
    w'.serve = w.serve ∨ (w.serve = .down ∧ ∃ config, w'.serve = .starting config) ∨
      (e = .crash ∧ w'.serve = .down ∧ kill = World.ofServe) := by
  cases e
  case boot config =>
    simp only [World.external] at h
    split at h
    · rename_i hdown
      cases h
      exact .inr (.inl ⟨hdown, config, rfl⟩)
    · cases h
  case crash =>
    simp only [World.external] at h
    split at h <;> cases h
    exact .inr (.inr ⟨rfl, rfl, rfl⟩)
  all_goals
    simp only [World.external, Option.some.injEq, Prod.mk.injEq, Option.bind_eq_some_iff] at h
  all_goals grind [World.updateProcess]

/-- `serve` starts with the configuration it is booted with. -/
theorem external_boots {w w' : World} {e : External} {kill : Tid → Bool} {config : Config}
    (h : w.external e = some (w', kill)) (hserve : w'.serve = .starting config ∨ w'.serve = .up config) :
    e = .boot config ∨ w'.serve = w.serve := by
  rcases external_serve h with heq | ⟨hdown, booted, hafter⟩ | ⟨-, hdown, -⟩
  · exact .inr heq
  · cases e
    case boot config' =>
      simp only [World.external, hdown] at h
      cases h
      rcases hserve with hserve | hserve <;> cases hserve
      exact .inl rfl
    case crash =>
      simp only [World.external, hdown] at h
      cases h
    all_goals
      simp only [World.external, Option.some.injEq, Prod.mk.injEq, Option.bind_eq_some_iff] at h
    all_goals grind [World.updateProcess]
  · rw [hdown] at hserve
    rcases hserve with hserve | hserve <;> cases hserve

/-- A child goes into the map, or comes out of it. -/
theorem children_cases {t : Tid} {o : Op} {w w' : World} {r : Result o}
    (h : Performs cond t o w r w') :
    (∃ id child, o = .childrenInsert id child ∧
        w'.children = Function.update w.children id (some child)) ∨
      (∃ id, o = .childrenRemove id ∧ w'.children = Function.update w.children id none) ∨
      (∀ id child, o ≠ .childrenInsert id child) ∧ (∀ id, o ≠ .childrenRemove id) ∧
        w'.children = w.children := by
  obtain ⟨ch, w₁, houtcome, rfl⟩ := performs_cases h
  cases o
  case childrenInsert id child =>
    cases houtcome
    exact .inl ⟨id, child, rfl, rfl⟩
  case childrenRemove id =>
    simp only [World.outcome, Option.some.injEq, Prod.mk.injEq] at houtcome
    obtain ⟨-, rfl⟩ := houtcome
    refine .inr (.inl ⟨id, rfl, ?_⟩)
    cases hid : w.children id with
    | none => exact (Function.update_eq_self_iff.mpr hid.symm).symm
    | some child => rfl
  all_goals refine .inr (.inr ⟨fun _ _ h => (by cases h), fun _ h => (by cases h), ?_⟩)
  case write q =>
    rcases write_cases h with ⟨e, -, heq⟩ | ⟨now, a, db, -, -, heq⟩ <;> rw [heq]
    exact commit_children w db q
  all_goals
    simp only [World.outcome, Option.some.injEq, Option.map_eq_some_iff,
      Option.bind_eq_some_iff] at houtcome
  all_goals grind [World.updateProcess, World.killProcessGroup, World.signalGroup]

/-- A crash loses every child, and nothing else outside touches the map. -/
theorem external_children {w w' : World} {e : External} {kill : Tid → Bool}
    (h : w.external e = some (w', kill)) :
    e = .crash ∧ w'.children = (fun _ => none) ∨ e ≠ .crash ∧ w'.children = w.children := by
  cases e <;>
    simp only [World.external, Option.some.injEq, Prod.mk.injEq, Option.bind_eq_some_iff] at h <;>
    grind [World.updateProcess]

theorem external_crash {w w' : World} {kill : Tid → Bool}
    (h : w.external .crash = some (w', kill)) : kill = World.ofServe := by
  simp only [World.external] at h
  split at h <;> cases h
  all_goals rfl

/-- `serve` does not crash, and is not started again. -/
def servesOn (lib : Library) : (flowlite lib).Condition where
  step _ _ _ _ _ := True
  env e _ _ :=
    match e with
    | .crash => False
    | _ => True

instance : (servesOn lib).Checked where
  step _ _ _ _ _ := isTrue trivial
  env e w w' := by
    dsimp only [servesOn]
    split <;> infer_instance

theorem external_crash_serve {w w' : World} {kill : Tid → Bool}
    (h : w.external .crash = some (w', kill)) : w'.serve = .down := by
  simp only [World.external] at h
  split at h <;> cases h
  rfl

/-- Only a crash ends a service. -/
theorem external_service {w w' : World} {e : External} {kill : Tid → Bool} {s : Service}
    (h : w.external e = some (w', kill)) (hs : kill (.service s) = true) : e = .crash := by
  cases e
  case crash => rfl
  case boot config =>
    simp only [World.external] at h
    split at h <;> cases h
    cases hs
  case endClient n =>
    cases h
    simp at hs
  all_goals
    simp only [World.external, Option.some.injEq, Prod.mk.injEq, Option.bind_eq_some_iff] at h
  all_goals
    have hnobody : kill = World.nobody := by grind
    rw [hnobody] at hs
    cases hs

theorem childrenRemove_answer {t : Tid} {a : Nat} {w w' : World}
    {child : Option TaskRunAttemptChild}
    (h : Performs cond t (.childrenRemove a) w (.ok child) w') : w.children a = child := by
  obtain ⟨ch, w₁, houtcome, rfl⟩ := performs_cases h
  simp only [World.outcome, Option.some.injEq, Prod.mk.injEq, Except.ok.injEq] at houtcome
  exact houtcome.1

/-! ## Operations that cannot fail -/

/-- A clock, the map, and what is done to a process of one's own. -/
def Infallible : Op → Prop
  | .now | .systemBootTime | .pathExists _ | .childrenInsert _ _ | .childrenRemove _
  | .lastOutputAt _ | .processGroupIsGone _ | .terminateProcessGroup _ | .killProcessGroup _
  | .killOrphan _ | .tryRecvAll _ | .recvUntilClosed _ | .abortReaders _ => True
  | _ => False

theorem Infallible.succeeds {t : Tid} {o : Op} {w w' : World} {r : Result o} (ho : Infallible o)
    (h : Performs cond t o w r w') : Succeeded r := by
  obtain ⟨ch, w₁, houtcome, rfl⟩ := performs_cases h
  cases o <;> simp only [Infallible] at ho
  all_goals
    simp only [World.outcome, Option.some.injEq, Prod.mk.injEq, Option.map_eq_some_iff,
      Option.bind_eq_some_iff] at houtcome
  all_goals unfold Succeeded
  all_goals grind

/-! ## Code that only reads -/

theorem Triple.silent {α : Type} {t : Tid} {P : World → Prop} {p : Code α}
    (hp : p.Uses Silent) (hP : O.Stable cond t P)
    (hlog : ∀ w o r, Silent o → P w → P { w with log := ⟨t, o, r⟩ :: w.log })
    (hpre : ∀ o w, Silent o → P w → O.pre t o w) : O.Triple cond t P p fun _ => P := by
  refine Triple.of_uses hP (hp.mono fun o ho w r w' _ hw hperf => ⟨hpre o w ho hw, fun _ => ?_⟩)
  rw [silent_performs ho hperf]
  exact hlog w o r ho hw

/-- Reading the clock, which cannot fail. -/
theorem Triple.now {t : Tid} {P : World → Prop} (hP : O.Stable cond t P)
    (hlog : ∀ w o r, Silent o → P w → P { w with log := ⟨t, o, r⟩ :: w.log })
    (hpre : ∀ o w, Silent o → P w → O.pre t o w) :
    O.Triple cond t P Crud.now fun r w => P w ∧ ∀ e, r ≠ .error e := by
  refine Triple.perform hP (fun w _ _ _ hw _ => hpre _ w trivial hw) fun w r w' _ hw hperf _ => ?_
  obtain ⟨at', rfl⟩ := Infallible.succeeds (o := .now) trivial hperf
  rw [silent_performs (o := .now) trivial hperf]
  exact ⟨hlog w _ _ trivial hw, fun e => nofun⟩

/-- A select: the rows it answers with are those of the moment it ran. -/
theorem Triple.select {t : Tid} {P : World → Prop} {q : Query} {Q : q.Answer → World → Prop}
    (hP : O.Stable cond t P)
    (hlog : ∀ w r, P w → P { w with log := ⟨t, .select q, r⟩ :: w.log })
    (hpre : ∀ w, P w → O.pre t (.select q) w)
    (hQ : ∀ w, O.inv w → P w →
      Q (q.run w.db) { w with log := ⟨t, .select q, .ok (q.run w.db)⟩ :: w.log }) :
    O.Triple cond t P (Crud.select q) fun r w => P w ∧ ∀ a, r = .ok a → Q a w := by
  refine Triple.perform hP (fun w _ _ _ hw _ => hpre w hw) ?_
  intro w r w' hi hw hperf _
  have hw' := silent_performs (o := .select q) trivial hperf
  refine ⟨hw' ▸ hlog w _ hw, ?_⟩
  rintro a rfl
  rcases select_cases hperf with ⟨e, he⟩ | ha
  · cases he
  · cases ha
    exact hw' ▸ hQ w hi hw

/-- What is known of each selected row, from its being there and what it was
selected for. -/
theorem Triple.selectJobRuns {t : Tid} {P : World → Prop} {q : SelectJobRuns}
    {K : JobRun → World → Prop} (hP : O.Stable cond t P)
    (hlog : ∀ w r, P w → P { w with log := ⟨t, .select (.jobRuns q), r⟩ :: w.log })
    (hpre : ∀ w, P w → O.pre t (.select (.jobRuns q)) w)
    (hK : ∀ w r x, O.inv w → P w → w.db.jobRuns.find x.id = some x →
      q.filter.holds w.db x = true →
      K x { w with log := ⟨t, .select (.jobRuns q), r⟩ :: w.log }) :
    O.Triple cond t P (Crud.selectJobRuns q) fun r w => P w ∧
      ∀ rows, r = .ok rows → rows.Pairwise (fun x y => x.id ≠ y.id) ∧ ∀ x ∈ rows, K x w := by
  refine Triple.select (Q := fun (rows : List JobRun) w =>
    rows.Pairwise (fun x y => x.id ≠ y.id) ∧ ∀ x ∈ rows, K x w) hP hlog hpre fun w hi hw => ?_
  refine ⟨w.db.selectJobRuns_distinct q, fun x hx => ?_⟩
  obtain ⟨hfind, hholds⟩ := Database.mem_selectJobRuns hx
  exact hK w _ x hi hw hfind hholds

theorem Triple.selectTaskRuns {t : Tid} {P : World → Prop} {f : SelectTaskRunsFilter}
    {K : TaskRun → World → Prop} (hP : O.Stable cond t P)
    (hlog : ∀ w r, P w → P { w with log := ⟨t, .select (.taskRuns f), r⟩ :: w.log })
    (hpre : ∀ w, P w → O.pre t (.select (.taskRuns f)) w)
    (hK : ∀ w r x, O.inv w → P w → w.db.taskRuns.find x.id = some x → f.holds x = true →
      K x { w with log := ⟨t, .select (.taskRuns f), r⟩ :: w.log }) :
    O.Triple cond t P (Crud.selectTaskRuns f) fun r w => P w ∧
      ∀ rows, r = .ok rows → rows.Pairwise (fun x y => x.id ≠ y.id) ∧ ∀ x ∈ rows, K x w := by
  refine Triple.select (Q := fun (rows : List TaskRun) w =>
    rows.Pairwise (fun x y => x.id ≠ y.id) ∧ ∀ x ∈ rows, K x w) hP hlog hpre fun w hi hw => ?_
  refine ⟨w.db.selectTaskRuns_distinct f, fun x hx => ?_⟩
  obtain ⟨hfind, hholds⟩ := Database.mem_selectTaskRuns.mp hx
  exact hK w _ x hi hw hfind hholds

theorem Triple.selectTaskRunAttempts {t : Tid} {P : World → Prop}
    {f : SelectTaskRunAttemptsFilter} {s : Option SelectTaskRunAttemptsSort}
    {K : TaskRunAttempt → World → Prop} (hP : O.Stable cond t P)
    (hlog : ∀ w r, P w → P { w with log := ⟨t, .select (.taskRunAttempts f s), r⟩ :: w.log })
    (hpre : ∀ w, P w → O.pre t (.select (.taskRunAttempts f s)) w)
    (hK : ∀ w r x, O.inv w → P w → w.db.taskRunAttempts.find x.id = some x → f.holds x = true →
      K x { w with log := ⟨t, .select (.taskRunAttempts f s), r⟩ :: w.log }) :
    O.Triple cond t P (Crud.selectTaskRunAttempts f s) fun r w => P w ∧
      ∀ rows, r = .ok rows → rows.Pairwise (fun x y => x.id ≠ y.id) ∧ ∀ x ∈ rows, K x w := by
  refine Triple.select (Q := fun (rows : List TaskRunAttempt) w =>
    rows.Pairwise (fun x y => x.id ≠ y.id) ∧ ∀ x ∈ rows, K x w) hP hlog hpre fun w hi hw => ?_
  refine ⟨w.db.selectTaskRunAttempts_distinct f s, fun x hx => ?_⟩
  obtain ⟨hfind, hholds⟩ := Database.mem_selectTaskRunAttempts.mp hx
  exact hK w _ x hi hw hfind hholds

/-- The question `select_job_run_stop` asks. -/
abbrev stopQuery (id : Nat) : Query := .jobRunStops { jobRunId := some id } (some 1)

/-- Asking for a run's stop: where one is answered, there is one. -/
theorem Triple.selectJobRunStop {t : Tid} {P : World → Prop} {id : Nat}
    (hP : O.Stable cond t P)
    (hlog : ∀ w r, P w → P { w with log := ⟨t, .select (stopQuery id), r⟩ :: w.log })
    (hpre : ∀ w, P w → O.pre t (.select (stopQuery id)) w) :
    O.Triple cond t P (Crud.selectJobRunStop id) fun r w => P w ∧
      ∀ stop, r = .ok (some stop) → IsStopped w id := by
  refine Triple.bind (Triple.select (q := stopQuery id)
      (Q := fun rows w => ∀ s ∈ rows, s ∈ w.db.jobRunStops.rows ∧ s.jobRunId = id) hP hlog hpre
      fun w _ _ s hs => ?_)
    (fun rows => Triple.ret fun w _ h => ⟨h.1, ?_⟩) fun e w _ h => ⟨h.1, fun _ h => nomatch h⟩
  · have hs : s ∈ w.db.selectJobRunStops { jobRunId := some id } (some 1) := hs
    have hs := List.mem_filter.mp ((window_sublist _ _ _).mem hs)
    exact ⟨hs.1, by simpa [SelectJobRunStopsFilter.holds] using hs.2⟩
  · intro stop hstop
    exact ⟨stop, h.2 rows rfl stop (List.mem_of_mem_head? (Except.ok.inj hstop))⟩

/-- Asking for a run by its id: the row that is answered is there. -/
theorem Triple.findJobRun {t : Tid} {P : World → Prop} {id : Nat} {text : String}
    {K : JobRun → World → Prop} (hP : O.Stable cond t P)
    (hlog : ∀ w o r, Silent o → P w → P { w with log := ⟨t, o, r⟩ :: w.log })
    (hpre : ∀ o w, Silent o → P w → O.pre t o w)
    (hK : ∀ w o r x, Silent o → O.inv w → P w → w.db.jobRuns.find id = some x →
      K x { w with log := ⟨t, o, r⟩ :: w.log }) :
    O.Triple cond t P ((Crud.selectJobRun { id := some id }).bind fun found => orBail text found)
      fun r w => P w ∧ ∀ x, r = .ok x → K x w := by
  refine Triple.bind (R := fun r w => P w ∧ ∀ x, r = .ok (some x) → K x w)
    (Triple.bind (Triple.selectJobRuns (K := K) hP (fun w r h => hlog w _ r trivial h)
      (fun w h => hpre _ w trivial h) fun w r x hi hw hfind hholds => ?_)
      (fun rows => Triple.ret fun w _ h => ⟨h.1, ?_⟩) fun e w _ h => ⟨h.1, fun _ h => nomatch h⟩)
    (fun found => ?_) fun e w _ h => ⟨h.1, fun _ h => nomatch h⟩
  · have hid : x.id = id := by simpa [SelectJobRunsFilter.holds] using hholds
    exact hK w _ r x trivial hi hw (hid ▸ hfind)
  · intro x hx
    exact (h.2 rows rfl).2 x (List.mem_of_mem_head? (Except.ok.inj hx))
  · cases found with
    | none => exact Triple.throw fun w _ h => ⟨h.1, fun _ h => nomatch h⟩
    | some x =>
        refine Triple.ret fun w _ h => ⟨h.1, ?_⟩
        intro y hy
        exact h.2 y (congrArg _ (congrArg some (Except.ok.inj hy)))

theorem Triple.getJobRun {t : Tid} {P : World → Prop} {id : Nat} {K : JobRun → World → Prop}
    (hP : O.Stable cond t P)
    (hlog : ∀ w o r, Silent o → P w → P { w with log := ⟨t, o, r⟩ :: w.log })
    (hpre : ∀ o w, Silent o → P w → O.pre t o w)
    (hK : ∀ w o r x, Silent o → O.inv w → P w → w.db.jobRuns.find id = some x →
      K x { w with log := ⟨t, o, r⟩ :: w.log }) :
    O.Triple cond t P (Crud.getJobRun id) fun r w => P w ∧ ∀ x, r = .ok x → K x w :=
  Triple.findJobRun hP hlog hpre hK

/-- The same for one task run of those a filter holds of. -/
theorem Triple.getTaskRun {t : Tid} {P : World → Prop} {f : SelectTaskRunsFilter} {text : String}
    {K : TaskRun → World → Prop} (hP : O.Stable cond t P)
    (hlog : ∀ w o r, Silent o → P w → P { w with log := ⟨t, o, r⟩ :: w.log })
    (hpre : ∀ o w, Silent o → P w → O.pre t o w)
    (hK : ∀ w o r x, Silent o → O.inv w → P w → w.db.taskRuns.find x.id = some x →
      f.holds x = true → K x { w with log := ⟨t, o, r⟩ :: w.log }) :
    O.Triple cond t P ((Crud.selectTaskRun f).bind fun found => orBail text found) fun r w =>
      P w ∧ ∀ x, r = .ok x → K x w := by
  refine Triple.bind (R := fun r w => P w ∧ ∀ x, r = .ok (some x) → K x w)
    (Triple.bind (Triple.selectTaskRuns (K := K) hP (fun w r h => hlog w _ r trivial h)
      (fun w h => hpre _ w trivial h) fun w r x hi hw hfind hholds =>
        hK w _ r x trivial hi hw hfind hholds)
      (fun rows => Triple.ret fun w _ h => ⟨h.1, ?_⟩) fun e w _ h => ⟨h.1, fun _ h => nomatch h⟩)
    (fun found => ?_) fun e w _ h => ⟨h.1, fun _ h => nomatch h⟩
  · intro x hx
    exact (h.2 rows rfl).2 x (List.mem_of_mem_head? (Except.ok.inj hx))
  · cases found with
    | none => exact Triple.throw fun w _ h => ⟨h.1, fun _ h => nomatch h⟩
    | some x =>
        refine Triple.ret fun w _ h => ⟨h.1, ?_⟩
        intro y hy
        exact h.2 y (congrArg _ (congrArg some (Except.ok.inj hy)))

/-! ## Where a run's files are -/

/-- The data directory has been resolved to this path. -/
def Resolved (canonical : String) (w : World) : Prop :=
  ∃ t path, ⟨t, .canonicalize path, .ok canonical⟩ ∈ w.log

/-- Where a run's directory is in a data directory that was resolved. -/
def runDirIn (canonical : String) (jobRunId : Nat) : String :=
  s!"{canonical}/.flowlite/runs/{jobRunId}"

theorem resolved_permanent (canonical : String) : Permanent cond (Resolved canonical) where
  performs h := fun ⟨u, path, hmem⟩ => ⟨u, path, by
    rw [log_performs h]
    exact List.mem_cons_of_mem _ hmem⟩
  happens h hw := by
    unfold Resolved
    rwa [log_happens h]

/-- The directory is the run's, where the data directory was resolved to. -/
theorem Triple.jobRunDir {t : Tid} {P : World → Prop} (hP : Permanent cond P)
    (hpre : ∀ o w, Silent o → P w → O.pre t o w) (config : Config) (id : Nat) :
    O.Triple cond t P (Flowlite.jobRunDir config id) fun r w => P w ∧
      ∀ dir, r = .ok dir → ∃ canonical, Resolved canonical w ∧ dir = runDirIn canonical id := by
  refine Triple.bind (R := fun r w => P w ∧ ∀ canonical, r = .ok canonical → Resolved canonical w)
    ?_ (fun canonical => Triple.ret fun w _ h => ⟨h.1, fun dir heq => ?_⟩)
    fun _ _ _ h => ⟨h.1, nofun⟩
  · refine Triple.perform (hP.stable t) (fun w _ _ _ hw _ => hpre _ w trivial hw)
      fun w r w' _ hw hperf _ => ⟨hP.performs hperf hw, ?_⟩
    rintro canonical rfl
    exact ⟨t, config.app.dataDir, by rw [log_performs hperf]; exact List.mem_cons_self ..⟩
  · cases heq
    exact ⟨canonical, h.2 canonical rfl, rfl⟩

/-! ## One pass -/

/-- One pass of a poller: `K` is what its select establishes of each row, and
handling a row leaves what is known of the others. -/
theorem Poller.pass_triple {p : Poller} {t : Tid} {P₀ P : World → Prop}
    {K : p.Row → World → Prop} {R : p.Row → p.Row → Prop}
    (hselect : O.Triple cond t P₀ p.select fun r w => P w ∧
      ∀ rows, r = .ok rows → rows.Pairwise R ∧ ∀ x ∈ rows, K x w)
    (hK : ∀ x, O.Stable cond t (K x))
    (hhandle : ∀ x, O.Triple cond t (fun w => P w ∧ K x w) (p.handle x) fun _ => P)
    (hframe : ∀ x y, R x y → (p.handle x).Uses fun o => ∀ w r w', O.inv w → O.inv w' →
      O.pre t o w → Performs cond t o w r w' → K y w → K y w') :
    O.Triple cond t P₀ p.pass fun _ => P := by
  refine Triple.bind hselect (fun rows => ?_) fun _ _ _ h => h.1
  refine Triple.of_fact (F := rows.Pairwise R) (fun w _ h => (h.2 rows rfl).1) fun hrows => ?_
  have hloop : O.Triple cond t (fun w => P w ∧ ∀ x ∈ rows, K x w)
      (Prog.forEach rows fun row => (p.handle row).attempt.bind fun _ => .ret ()) fun _ => P := by
    refine Triple.rows hK (fun x => ?_) (fun x y hxy => ?_) hrows
    · exact Triple.bind (Triple.attempt (Q := fun _ => P) (hhandle x))
        (fun _ => Triple.ret fun _ _ h => h) fun _ _ _ h => h
    · exact Prog.Uses.bind (hframe x y hxy).attempt fun _ => Prog.uses_ret _
  exact hloop.pre fun w _ h => ⟨h.1, (h.2 rows rfl).2⟩

/-- One pass of a poller nothing is asked of but to keep `P`. -/
theorem Poller.pass_each {p : Poller} {t : Tid} {P : World → Prop}
    (hselect : O.Triple cond t P p.select fun _ => P)
    (hhandle : ∀ x, O.Triple cond t P (p.handle x) fun _ => P) :
    O.Triple cond t P p.pass fun _ => P := by
  refine Triple.bind hselect (fun rows => Triple.each fun x _ => ?_) fun _ _ _ h => h
  exact Triple.bind (Triple.attempt (Q := fun _ => P) (hhandle x))
    (fun _ => Triple.ret fun _ _ h => h) fun _ _ _ h => h

/-! ## What is started -/

/-- The services run while `serve` does, and the scheduler while it is starting too. -/
def Running : Tid → World → Prop
  | .service .recovery, w => ∃ config, w.serve = .starting config
  | .service .scheduler, w => ∃ config, w.serve = .starting config ∨ w.serve = .up config
  | .service _, w => ∃ config, w.serve = .up config
  | .client _, _ => True

theorem running_log {t : Tid} {w : World} {l : List Host.Event} :
    Running t { w with log := l } ↔ Running t w := by
  cases t with
  | service s => cases s <;> rfl
  | client n => rfl

theorem start_cases {t : Tid} {a : Start} {w : World} {p : Code Unit}
    (h : start lib t a w = some p) : Running t w ∧
      ((∃ config fuel s, t = .service s ∧ p = pass lib config fuel s) ∨
        ∃ c, ∃ r : Request, t = .client c ∧ p = r.code) := by
  unfold start at h
  split at h <;> cases h
  · rename_i config hserve
    exact ⟨⟨config, hserve⟩, .inl ⟨config, _, _, rfl, rfl⟩⟩
  · rename_i config hserve
    exact ⟨⟨config, .inl hserve⟩, .inl ⟨config, _, _, rfl, rfl⟩⟩
  · rename_i s _ config hs hserve
    refine ⟨?_, .inl ⟨config, _, _, rfl, rfl⟩⟩
    cases s <;> first | exact ⟨config, hserve⟩ | exact ⟨config, .inr hserve⟩ | exact (hs rfl).elim
  · exact ⟨trivial, .inr ⟨_, _, rfl, rfl⟩⟩

/-- A triple for every pass and every request is one for everything that is started. -/
theorem start_triple
    (hpass : ∀ config fuel s, O.Triple cond (.service s)
      (fun w => O.idle (.service s) w ∧ Running (.service s) w) (pass lib config fuel s)
      fun _ => O.idle (.service s))
    (hrequest : ∀ c (r : Request), O.Triple cond (.client c) (O.idle (.client c)) r.code
      fun _ => O.idle (.client c)) (t : Tid) (a : Start) (p : Code Unit) :
    O.Triple cond t (fun w => O.idle t w ∧ start lib t a w = some p) p fun _ => O.idle t := by
  intro w hi ⟨hidle, hstart⟩
  obtain ⟨hrunning, ⟨config, fuel, s, rfl, rfl⟩ | ⟨c, r, rfl, rfl⟩⟩ := start_cases hstart
  · exact hpass config fuel s w hi ⟨hidle, hrunning⟩
  · exact hrequest c r w hi hidle

/-- `serve` runs its services with this configuration. -/
def ServedBy (config : Config) : Tid → World → Prop
  | .service .recovery, w => w.serve = .starting config
  | .service .scheduler, w => w.serve = .starting config ∨ w.serve = .up config
  | .service _, w => w.serve = .up config
  | .client _, _ => True

theorem servedBy_congr {config : Config} {t : Tid} {w w' : World} (heq : w'.serve = w.serve)
    (h : ServedBy config t w) : ServedBy config t w' := by
  cases t with
  | service s => cases s <;> simpa only [ServedBy, heq] using h
  | client n => trivial

theorem ServedBy.serving {config : Config} {s : Service} {w : World}
    (h : ServedBy config (.service s) w) : w.serve = .starting config ∨ w.serve = .up config := by
  cases s
  case recovery => exact .inl h
  case scheduler => exact h
  all_goals exact .inr h

/-- A service that started with a configuration runs with it. -/
theorem start_served {t : Tid} {a : Start} {w : World} {p : Code Unit}
    (h : start lib t a w = some p) :
    (∃ config fuel s, t = .service s ∧ ServedBy config t w ∧ p = pass lib config fuel s) ∨
      ∃ c, ∃ r : Request, t = .client c ∧ p = r.code := by
  unfold start at h
  split at h <;> cases h
  · rename_i config hserve
    exact .inl ⟨config, _, _, rfl, hserve, rfl⟩
  · rename_i config hserve
    exact .inl ⟨config, _, _, rfl, .inl hserve, rfl⟩
  · rename_i s _ config hs hserve
    refine .inl ⟨config, _, _, rfl, ?_, rfl⟩
    cases s <;> first | exact hserve | exact .inr hserve | exact (hs rfl).elim
  · exact .inr ⟨_, _, rfl, rfl⟩

/-- `start_triple` where a pass relies on the configuration it was started with. -/
theorem start_triple_served
    (hpass : ∀ config fuel s, O.Triple cond (.service s)
      (fun w => O.idle (.service s) w ∧ ServedBy config (.service s) w) (pass lib config fuel s)
      fun _ => O.idle (.service s))
    (hrequest : ∀ c (r : Request), O.Triple cond (.client c) (O.idle (.client c)) r.code
      fun _ => O.idle (.client c)) (t : Tid) (a : Start) (p : Code Unit) :
    O.Triple cond t (fun w => O.idle t w ∧ start lib t a w = some p) p fun _ => O.idle t := by
  intro w hi ⟨hidle, hstart⟩
  rcases start_served hstart with ⟨config, fuel, s, rfl, hserved, rfl⟩ | ⟨c, r, rfl, rfl⟩
  · exact hpass config fuel s w hi ⟨hidle, hserved⟩
  · exact hrequest c r w hi hidle

/-! ## The base outline -/

/-- Each thread keeps to its own code, the services run only while `serve` does,
the database is linked, and a child that was asked to exit settles as it was stopped. -/
def base (lib : Library) : Outline (flowlite lib) where
  inv w := Linked w.db ∧ ∀ a child, w.children a = some child → EndsStopped child
  pre t o w := Allowed t o ∧ Running t w
  idle _ _ := True

/-- Only recovery starts the services, and while it runs none but the scheduler does. -/
theorem running_other {t u : Tid} {o : Op} {w w' : World} {r : Result o} (hu : u ≠ t)
    (hallowed : Allowed u o) (h : Performs cond u o w r w') (hrunning : Running t w) :
    Running t w' := by
  rcases serve_cases h with heq | ⟨rfl, config, hbefore, hafter⟩
  · cases t with
    | service s => cases s <;> simpa only [Running, heq] using hrunning
    | client n => trivial
  · have hrecovery : u = .service .recovery := hallowed
    cases t with
    | service s =>
        cases s <;>
          first | exact absurd hrecovery hu | exact ⟨config, hafter⟩ | exact ⟨config, .inr hafter⟩
    | client n => trivial

theorem running_happens {t : Tid} {w w' : World} {kill : Tid → Bool} (hkill : kill t = false)
    (h : Happens cond w w' kill) (hrunning : Running t w) : Running t w' := by
  obtain ⟨e, he, -⟩ := h
  cases t with
  | client n => trivial
  | service s =>
      rcases external_serve he with heq | ⟨hdown, -⟩ | ⟨-, -, rfl⟩
      · cases s <;> simpa only [Running, heq] using hrunning
      · cases s <;> simp [Running, hdown] at hrunning
      · cases hkill

theorem running_stable (t : Tid) : (base lib).Stable cond t (Running t) := by
  intro w w' hothers hrunning
  cases hothers with
  | run hu _ _ hpre hperf => exact running_other hu hpre.1 hperf hrunning
  | env hkill _ _ hhappens => exact running_happens hkill hhappens hrunning

theorem running_kept {t : Tid} {o : Op} {w w' : World} {r : Result o}
    (h : Performs cond t o w r w') (hrunning : Running t w) (ho : o ≠ .startServices) :
    Running t w' := by
  rcases serve_cases h with heq | ⟨hstart, -⟩
  · cases t with
    | service s => cases s <;> simpa only [Running, heq] using hrunning
    | client n => trivial
  · exact absurd hstart ho

theorem base_uses {α : Type} {t : Tid} {p : Code α}
    (hp : p.Uses fun o : Op => Allowed t o ∧ o ≠ .startServices) :
    (base lib).Triple cond t (Running t) p fun _ => Running t :=
  Triple.of_uses (running_stable t) (hp.mono fun _ ho _ _ _ _ hw h =>
    ⟨⟨ho.1, hw⟩, fun _ => running_kept h hw ho.2⟩)

theorem allowed_ne_start {t : Tid} {α : Type} {p : Code α} (hp : p.Uses (Allowed t))
    (ht : t ≠ .service .recovery) : p.Uses fun o : Op => Allowed t o ∧ o ≠ .startServices :=
  hp.mono fun o ho => ⟨ho, by rintro rfl; exact ht ho⟩

theorem base_recovery : (base lib).Triple cond (.service .recovery)
    (Running (.service .recovery)) Recovery.recoverThenStart fun _ _ => True := by
  refine Triple.bind (base_uses ((Prog.uses_perform _).mpr ⟨trivial, nofun⟩)) (fun boot => ?_)
    fun _ _ _ _ => trivial
  refine Triple.bind (base_uses ?_) (fun _ => ?_) fun _ _ _ _ => trivial
  · refine Prog.Uses.bind ((selectTaskRunAttempts_silent _ _).mono fun o ho => ?_) fun attempts =>
      Prog.Uses.forEach fun a _ => (recoverTaskRunAttempt_handles boot a).mono
        fun _ h => ⟨h.1.1, h.2⟩
    exact ⟨ho.allowed _, by rintro rfl; exact ho⟩
  · exact Triple.perform (running_stable _) (fun _ _ _ _ hw _ => ⟨rfl, hw⟩)
      fun _ _ _ _ _ _ _ => trivial

theorem base_taskRunAttemptMonitor (config : Config) :
    (base lib).Triple cond TaskRunAttemptMonitor.thread (Running TaskRunAttemptMonitor.thread)
      (TaskRunAttemptMonitor.poller config).pass fun _ => Running TaskRunAttemptMonitor.thread := by
  have silent : ∀ {α : Type} {p : Code α}, p.Uses (Allowed TaskRunAttemptMonitor.thread) →
      (base lib).Triple cond TaskRunAttemptMonitor.thread (Running TaskRunAttemptMonitor.thread)
        p fun _ => Running TaskRunAttemptMonitor.thread :=
    fun hp => base_uses (allowed_ne_start hp nofun)
  refine Poller.pass_triple (K := fun _ _ => True) (R := fun _ _ => True)
    ((silent (Uses.allowed (selectTaskRunAttempts_silent _ _))).post fun _ _ _ h =>
      ⟨h, fun _ _ => ⟨List.pairwise_of_forall fun _ _ => trivial, fun _ _ => trivial⟩⟩)
    (fun _ => stable_true _) (fun a => ?_) fun a _ _ => ?_
  · refine Triple.bind (R := fun r w => Running TaskRunAttemptMonitor.thread w ∧
      ∀ child, r = .ok (some child) → EndsStopped child) ?_ (fun child => ?_) fun _ _ _ h => h.1
    · refine Triple.perform ((running_stable _).and (stable_true _))
        (fun _ _ _ _ h _ => ⟨rfl, h.1⟩) fun w r w' hi hw hperf _ => ⟨running_kept hperf hw.1 nofun, ?_⟩
      rintro child rfl
      exact hi.2 a.id child (childrenRemove_answer hperf)
    · cases child with
      | none =>
          exact (silent ((TaskRunAttemptMonitor.setToInvalid_handles a).mono fun _ h => h.1)).pre
            fun _ _ h => h.1
      | some child =>
          refine Triple.of_fact (fun _ _ h => h.2 child rfl) fun hchild => ?_
          exact (silent ((TaskRunAttemptMonitor.held_handles config a child hchild).mono
          fun _ h => h.1)).pre fun _ _ h => h.1
  · exact Prog.Uses.of_forall _ fun _ _ _ _ _ _ _ _ _ => trivial

theorem base_valid : (base lib).Valid cond where
  init := by
    rintro w rfl
    exact ⟨⟨linked_empty, fun _ _ h => (nomatch h)⟩, fun _ => trivial⟩
  step := by
    intro t o w r w' ⟨hlinked, hi⟩ hpre hperf
    refine ⟨linked_performs hlinked hperf, fun a child ha => ?_⟩
    rcases children_cases hperf with ⟨id, child', rfl, heq⟩ | ⟨id, rfl, heq⟩ | ⟨-, -, heq⟩ <;>
      rw [heq] at ha
    · by_cases hid : a = id
      · subst hid
        rw [Function.update_self] at ha
        cases ha
        exact hpre.1.1
      · rw [Function.update_of_ne hid] at ha
        exact hi a child ha
    · by_cases hid : a = id
      · subst hid
        rw [Function.update_self] at ha
        cases ha
      · rw [Function.update_of_ne hid] at ha
        exact hi a child ha
    · exact hi a child ha
  env := by
    rintro w w' kill ⟨hlinked, hi⟩ hhappens
    have hdb := happens_db hhappens
    obtain ⟨e, he, -⟩ := hhappens
    refine ⟨⟨by rwa [hdb], fun a child ha => ?_⟩, fun _ _ => trivial⟩
    rcases external_children he with ⟨-, heq⟩ | ⟨-, heq⟩ <;> rw [heq] at ha
    · cases ha
    · exact hi a child ha
  idle := fun t => stable_true t
  start := by
    refine start_triple (fun config fuel s => ?_) fun c r => ?_
    · by_cases hr : s = .recovery
      · subst hr
        exact base_recovery.pre fun _ _ h => h.2
      by_cases hm : s = .taskRunAttemptMonitor
      · subst hm
        exact (base_taskRunAttemptMonitor config).conseq (fun _ _ h => h.2) fun _ _ _ _ => trivial
      exact (base_uses (allowed_ne_start (pass_allowed lib config fuel hr hm)
        (by simpa using hr))).conseq (fun _ _ h => h.2) fun _ _ _ _ => trivial
    · exact (base_uses (allowed_ne_start (request_allowed r) nofun)).conseq
        (fun _ _ _ => trivial) fun _ _ _ _ => trivial

/-! ### What the base outline says of a step -/

theorem allowed_of (hb : cond.Le (base lib).established) {t : Tid} {o : Op} {w w' : World}
    {r : Result o} (h : Performs cond t o w r w') : Allowed t o :=
  (hb.1 t o w r w' h.2).2.1.1

theorem running_of (hb : cond.Le (base lib).established) {t : Tid} {o : Op} {w w' : World}
    {r : Result o} (h : Performs cond t o w r w') : Running t w :=
  (hb.1 t o w r w' h.2).2.1.2

theorem linked_of (hb : cond.Le (base lib).established) {t : Tid} {o : Op} {w w' : World}
    {r : Result o} (h : Performs cond t o w r w') : Linked w.db ∧ Linked w'.db :=
  ⟨(hb.1 t o w r w' h.2).1.1, (hb.1 t o w r w' h.2).2.2.1⟩

theorem Running.stable (hb : cond.Le (base lib).established) (t : Tid) :
    O.Stable cond t (Running t) := by
  intro w w' hothers hrunning
  cases hothers with
  | run hu _ _ _ hperf => exact running_other hu (allowed_of hb hperf) hperf hrunning
  | env hkill _ _ hhappens => exact running_happens hkill hhappens hrunning

/-- The recovery ends as it starts the services; nobody else changes what runs. -/
theorem ServedBy.kept {config : Config} {t u : Tid} {o : Op} {w w' : World} {r : Result o}
    (h : Performs cond u o w r w') (ho : o ≠ .startServices) (hserved : ServedBy config t w) :
    ServedBy config t w' := by
  rcases serve_cases h with heq | ⟨hstart, -⟩
  · exact servedBy_congr heq hserved
  · exact absurd hstart ho

theorem ServedBy.stable (hb : cond.Le (base lib).established) (config : Config) (t : Tid) :
    O.Stable cond t (ServedBy config t) := by
  intro w w' hothers hserved
  cases hothers with
  | run hu _ _ _ hperf =>
      rcases serve_cases hperf with heq | ⟨rfl, before, hbefore, hafter⟩
      · exact servedBy_congr heq hserved
      · -- the recovery starts no service that is running, but the scheduler runs on
        have hrecovery : _ = Tid.service .recovery := allowed_of hb hperf
        cases t with
        | client n => trivial
        | service s =>
            cases s
            case recovery => exact absurd hrecovery hu
            case scheduler =>
              rcases hserved with hserved | hserved <;> rw [hbefore] at hserved <;> cases hserved
              exact .inr hafter
            all_goals exact nomatch hbefore.symm.trans hserved
  | env hkill _ _ hhappens =>
      obtain ⟨e, he, -⟩ := hhappens
      rcases external_serve he with heq | ⟨hdown, -⟩ | ⟨-, -, rfl⟩
      · exact servedBy_congr heq hserved
      · cases t with
        | client n => trivial
        | service s =>
            rcases hserved.serving with hserve | hserve <;> rw [hdown] at hserve <;> cases hserve
      · cases t with
        | client n => trivial
        | service s => cases hkill

/-! ### The monitor's way through one attempt -/

/-- What the monitor does to an attempt short of settling it. -/
def Attends (a : TaskRunAttempt) (o : Op) : Prop :=
  Handles TaskRunAttemptMonitor.thread (.taskRunAttempt a.id) o ∧ ¬ WritesTaskRunAttempts o

theorem Silent.attends {o : Op} (h : Silent o) (a : TaskRunAttempt) : Attends a o :=
  ⟨h.handles _ _, by cases o <;> first | exact id | exact h.elim⟩

/-- What is kept by everything short of settling is there when the attempt is settled. -/
theorem attends_triple (hb : cond.Le (base lib).established) {P Q : World → Prop}
    {a : TaskRunAttempt} (hP : O.Stable cond TaskRunAttemptMonitor.thread P)
    (hattends : ∀ o, Attends a o → ∀ w r w', O.inv w → P w →
      Performs cond TaskRunAttemptMonitor.thread o w r w' →
      O.pre TaskRunAttemptMonitor.thread o w ∧ (O.inv w' → P w'))
    (hPQ : ∀ w, O.inv w → P w → Q w)
    (hfinish : ∀ status output, status.isFinished = true → status ≠ .skipped →
      O.Triple cond TaskRunAttemptMonitor.thread P
        (TaskRunAttemptMonitor.finishTaskRunAttempt a status output) fun _ => Q)
    (config : Config) :
    O.Triple cond TaskRunAttemptMonitor.thread P
      (TaskRunAttemptMonitor.handleRunningTaskRunAttempt config a) fun _ => Q := by
  have hremove : Attends a (.childrenRemove a.id) := ⟨⟨rfl, rfl⟩, id⟩
  refine Triple.bind (R := fun r w => P w ∧ ∀ child, r = .ok (some child) → EndsStopped child)
    ?_ (fun child => ?_) fun _ w hi h => hPQ w hi h.1
  · refine Triple.perform hP (fun w r w' hi hw hperf => ?_) fun w r w' hi hw hperf hi' => ?_
    · exact (hattends _ hremove w r w' hi hw hperf).1
    · refine ⟨(hattends _ hremove w r w' hi hw hperf).2 hi', ?_⟩
      rintro child rfl
      exact (hb.1 _ _ _ _ _ hperf.2).1.2 a.id child (childrenRemove_answer hperf)
  · cases child with
    | none => exact (hfinish .invalid none rfl nofun).pre fun _ _ h => h.1
    | some child =>
        refine Triple.of_fact (fun _ _ h => h.2 child rfl) fun hchild =>
          Triple.pre ?_ fun _ _ h => h.1
        exact TaskRunAttemptMonitor.held_walk (Triple.walk hP hattends hPQ)
          (fun _ h => h.attends a)
          (fun _ => ⟨⟨⟨rfl, trivial⟩, id⟩, ⟨⟨rfl, trivial⟩, id⟩, ⟨⟨rfl, trivial⟩, id⟩,
            ⟨⟨rfl, trivial⟩, id⟩, ⟨rfl, trivial⟩, id⟩)
          config a (fun _ _ => ⟨⟨.printOutput, rfl⟩, id⟩) _ ⟨.inl rfl, .inr rfl⟩
          (fun _ h => ⟨⟨⟨h, .inr rfl⟩, rfl⟩, id⟩)
          (fun status output h => hfinish status output
            (TaskRunAttemptMonitor.ends_finished h).1 (TaskRunAttemptMonitor.ends_finished h).2)
          child hchild

end Flowlite

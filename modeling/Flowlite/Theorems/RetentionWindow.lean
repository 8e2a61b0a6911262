import Flowlite.Logic.Windows
import Flowlite.Theorems.Replay

/-!
# What retention selects

One pass, from tables nobody writes to meanwhile: every run it selects is past a window,
and once what it selects has gone the windows hold what they may. The runs past the total
are counted in 32 bits, so of a table of that many finished runs too many may be left.
-/

namespace Flowlite

open Store Host Threads Crud

namespace Retention

/-- The run has no notification that is yet to be sent. -/
def OwesNothing (db : Database) (id : Nat) : Prop :=
  ∀ n ∈ db.jobRunNotifications.rows, n.jobRunId = id → n.status ≠ .pending

/-- What one pass may select: `perJob` by the first rule, `overflow` by the second. -/
structure KeepsWindows (config : Config) (db : Database) (perJob overflow : List Nat) : Prop where
  once : (perJob ++ overflow).Nodup
  capped : 0 < config.app.maxDeletesPerPass →
    (perJob ++ overflow).length ≤ config.app.maxDeletesPerPass
  settled : ∀ id ∈ perJob ++ overflow, ∃ x, db.jobRuns.find id = some x ∧
    x.status.isFinished = true ∧ OwesNothing db id
  outside : ∀ x ∈ db.jobRuns.rows, x.id ∈ perJob → 0 < keepRuns config x.jobId ∧
    keepRuns config x.jobId ≤
      ((finishedOf db (some x.jobId)).filter fun y => x.id < y.id).length
  oldestFirst : perJob.Pairwise fun a b => ∀ x y, db.jobRuns.find a = some x →
    db.jobRuns.find b = some y → x.jobId = y.jobId → a < b
  oldest : ∀ x ∈ db.jobRuns.rows, x.id ∈ perJob → ∀ y ∈ finishedOf db (some x.jobId),
    y.id < x.id → OwesNothing db y.id → y.id ∈ perJob
  /-- Once the selected runs are deleted, with whatever goes along. -/
  jobLeft : config.app.maxDeletesPerPass = 0 → (∀ id, OwesNothing db id) →
    ∀ gone : List Nat, perJob ++ overflow ⊆ gone → ∀ jobId, 0 < keepRuns config jobId →
      (finishedOf (db.deleteRows gone) (some jobId)).length ≤ keepRuns config jobId
  totalLeft : config.app.maxDeletesPerPass = 0 → (∀ id, OwesNothing db id) →
    ∀ gone : List Nat, perJob ++ overflow ⊆ gone → 0 < config.app.keepRunsTotal →
      (finishedOf (db.deleteRows gone) none).length ≤ config.app.keepRunsTotal

/-- A pass over these tables, by itself, keeps the windows of the configuration. -/
def Windows (config : Config) (w : World) : Prop :=
  ∀ clock, ∃ perJob overflow,
    (selectJobIdsWithFinishedJobRuns.bind (selectPerJobCandidates config [])).alone
          (undisturbed clock) w = some (.ok perJob, w) ∧
      (selectRows config).alone (undisturbed clock) w = some (.ok (perJob ++ overflow), w) ∧
        KeepsWindows config w.db perJob overflow

/-- The finished runs that neither rule reaches: within the window of their own job, and
not among the oldest as many as the count, in 32 bits, is above the total. -/
def unreached (config : Config) (db : Database) : List JobRun :=
  (finishedOf db none).filter fun x =>
    (keepRuns config x.jobId = 0 ∨
      ((finishedOf db (some x.jobId)).filter fun y => x.id < y.id).length <
        keepRuns config x.jobId) ∧
    (finishedOf db none).length % 2 ^ 32 - config.app.keepRunsTotal ≤
      ((finishedOf db none).filter fun y => y.id < x.id).length

variable {config : Config} {db : Database} {w : World}

theorem owes_eq_false {id : Nat} : owes db id = false ↔ OwesNothing db id := by
  unfold owes OwesNothing
  simp only [List.any_eq_false, Bool.and_eq_true, decide_eq_true_eq, not_and]
  exact forall₂_congr fun n _ => ⟨fun h hid hpending => h hpending hid,
    fun h hpending hid => h hid hpending⟩

theorem of_mem_overflow {selected : List Nat} {id : Nat} (h : id ∈ overflow config db selected) :
    id ∉ selected ∧ ∃ x, db.jobRuns.find id = some x ∧ x.status.isFinished = true ∧
      OwesNothing db id := by
  unfold overflow at h
  split at h
  · cases h
  obtain ⟨hmem, hnew⟩ := List.mem_filter.mp h
  obtain ⟨htake, howes⟩ := mem_deletable.mp hmem
  obtain ⟨x, hx, -, hfinished⟩ := of_mem_finishedIds (List.mem_of_mem_take htake)
  exact ⟨by simpa using hnew, x, hx, hfinished, owes_eq_false.mp howes⟩

theorem overflow_sublist (selected : List Nat) :
    (overflow config db selected).Sublist (finishedIds db none) := by
  unfold overflow
  split
  · exact List.nil_sublist _
  · exact List.filter_sublist.trans (deletable_sublist _ _)

theorem length_overflow {selected : List Nat} (hcap : 0 < config.app.maxDeletesPerPass)
    (hselected : selected.length ≤ config.app.maxDeletesPerPass) :
    selected.length + (overflow config db selected).length ≤ config.app.maxDeletesPerPass := by
  unfold overflow
  split
  · exact hselected
  · have hlength := (List.length_filter_le (fun id => !selected.contains id) _).trans
      (length_deletable db (finishedIds db none)
        (cut (remainingBudget config.app.maxDeletesPerPass selected.length)
          ((finishedIds db none).length % 2 ^ 32 - config.app.keepRunsTotal)))
    exact (Nat.add_le_add_left hlength _).trans (cut_budget hcap hselected)

theorem length_filter_finishedIds (jobId : Option String) (p : Nat → Bool) :
    ((finishedIds db jobId).filter p).length =
      ((finishedOf db jobId).filter fun y => p y.id).length := by
  rw [finishedIds, List.filter_map, List.length_map]
  rfl

/-- A finished run is beyond the window of its job if as many newer ones are kept. -/
theorem mem_beyond {x : JobRun} (hx : x ∈ finishedOf db none) :
    x.id ∈ beyond config db x.jobId ↔ keepRuns config x.jobId ≤
      ((finishedOf db (some x.jobId)).filter fun y => x.id < y.id).length := by
  obtain ⟨hrow, -, hfinished⟩ := mem_finishedOf.mp hx
  have hown : x ∈ finishedOf db (some x.jobId) :=
    mem_finishedOf.mpr ⟨hrow, by simp, hfinished⟩
  rw [beyond, mem_take_iff_newer (finishedIds_ordered db _) (List.mem_map_of_mem hown),
    length_filter_finishedIds]

section Unlimited

variable (hcap : config.app.maxDeletesPerPass = 0) (hnone : ∀ id, OwesNothing db id)

include hcap hnone

/-- With no budget and nothing owed, a job loses all that is beyond its window. -/
theorem mem_perJob {x : JobRun} (hx : x ∈ finishedOf db none) :
    x.id ∈ perJob config db [] (jobsWithFinished db) ↔
      0 < keepRuns config x.jobId ∧ x.id ∈ beyond config db x.jobId := by
  have h := perJob_selected config db
  obtain ⟨hrow, -, hfinished⟩ := mem_finishedOf.mp hx
  constructor
  · intro hselected
    obtain ⟨x', hx', -, -, -, hkeep, hbeyond⟩ := h.selected x.id hselected
    cases (Table.find_of_mem hrow : db.jobRuns.find x.id = some x).symm.trans hx'
    exact ⟨hkeep, hbeyond⟩
  · rintro ⟨hkeep, hbeyond⟩
    refine h.trims hcap (fun id => owes_eq_false.mpr (hnone id)) x.jobId ?_ hkeep x.id hbeyond
    rw [List.append_nil, List.mem_reverse]
    exact mem_jobsWithFinished (List.mem_of_mem_take hbeyond)

variable (htotal : 0 < config.app.keepRunsTotal)

include htotal

theorem mem_selected_or_overflow {selected : List Nat} {id : Nat} :
    id ∈ selected ++ overflow config db selected ↔ id ∈ selected ∨
      id ∈ (finishedIds db none).take
        ((finishedIds db none).length % 2 ^ 32 - config.app.keepRunsTotal) := by
  have hoverflow : id ∈ overflow config db selected ↔ id ∉ selected ∧
      id ∈ (finishedIds db none).take
        ((finishedIds db none).length % 2 ^ 32 - config.app.keepRunsTotal) := by
    unfold overflow
    rw [if_neg (Nat.pos_iff_ne_zero.mp htotal), hcap, List.mem_filter, mem_deletable,
      owes_eq_false]
    simp [cut, remainingBudget, hnone id, and_comm]
  rw [List.mem_append, hoverflow]
  tauto

/-- What a pass leaves of the finished runs is what neither rule reaches. -/
theorem finishedOf_deleteRows_selected :
    finishedOf (db.deleteRows (perJob config db [] (jobsWithFinished db) ++
        overflow config db (perJob config db [] (jobsWithFinished db)))) none =
      unreached config db := by
  unfold unreached
  rw [finishedOf_deleteRows]
  refine List.filter_congr fun x hx => ?_
  have hlength : (finishedIds db none).length = (finishedOf db none).length := List.length_map _
  have holder := mem_take_iff_older (n := (finishedIds db none).length % 2 ^ 32 -
    config.app.keepRunsTotal) (finishedIds_ordered db none) (List.mem_map_of_mem hx)
  rw [length_filter_finishedIds, hlength] at holder
  rw [Bool.eq_iff_iff, decide_eq_true_eq, Bool.not_eq_true', ← Bool.not_eq_true,
    List.contains_iff_mem, mem_selected_or_overflow hcap hnone htotal, mem_perJob hcap hnone hx,
    mem_beyond hx, hlength, holder]
  omega

end Unlimited

/-- How many finished runs a delete leaves. -/
theorem length_left_of_gone {jobId : Option String} {keep : Nat} {gone : List Nat}
    (hgone : ∀ id ∈ (finishedIds db jobId).take ((finishedIds db jobId).length - keep), id ∈ gone) :
    (finishedOf (db.deleteRows gone) jobId).length ≤ keep := by
  have hleft := length_left hgone
  rwa [← finishedIds_deleteRows, finishedIds, List.length_map] at hleft

/-- A delete of more leaves less. -/
theorem length_left_of_subset {jobId : Option String} {selected gone : List Nat}
    (hsub : selected ⊆ gone) :
    (finishedOf (db.deleteRows gone) jobId).length ≤
      (finishedOf (db.deleteRows selected) jobId).length := by
  rw [finishedOf_deleteRows, finishedOf_deleteRows]
  refine List.Sublist.length_le (List.monotone_filter_right _ fun r hr => ?_)
  have hleft : r.id ∉ gone := by simpa using hr
  simpa using fun hselected => hleft (hsub hselected)

/-- Counted right, a total is what is left. -/
theorem length_unreached (hcap : config.app.maxDeletesPerPass = 0)
    (hnone : ∀ id, OwesNothing db id) (htotal : 0 < config.app.keepRunsTotal)
    (hcount : (finishedOf db none).length < 2 ^ 32) :
    (unreached config db).length ≤ config.app.keepRunsTotal := by
  rw [← finishedOf_deleteRows_selected hcap hnone htotal]
  refine length_left_of_gone fun id hid => ?_
  refine (mem_selected_or_overflow hcap hnone htotal).mpr (.inr ?_)
  rwa [Nat.mod_eq_of_lt (by rwa [finishedIds, List.length_map])]

/-- What a pass selects, where what neither rule reaches is within the total. -/
theorem keepsWindows (hleft : config.app.maxDeletesPerPass = 0 → (∀ id, OwesNothing db id) →
    0 < config.app.keepRunsTotal → (unreached config db).length ≤ config.app.keepRunsTotal) :
    KeepsWindows config db (perJob config db [] (jobsWithFinished db))
      (overflow config db (perJob config db [] (jobsWithFinished db))) := by
  have h := perJob_selected config db
  refine ⟨?_, fun hcap => ?_, fun id hid => ?_, fun x hx hid => ?_, h.ordered,
    fun x hx hid y hy hlt howes => ?_, fun hcap hnone gone hgone jobId hkeep => ?_,
    fun hcap hnone gone hgone htotal => ?_⟩
  · refine List.Nodup.append h.once ?_ fun id hid hover => (of_mem_overflow hover).1 hid
    exact ((finishedIds_ordered db none).sublist (overflow_sublist _)).imp fun hlt => ne_of_lt hlt
  · rw [List.length_append]
    exact length_overflow hcap (h.capped hcap)
  · rcases List.mem_append.mp hid with hid | hid
    · obtain ⟨x, hx, -, hfinished, howes, -⟩ := h.selected id hid
      exact ⟨x, hx, hfinished, owes_eq_false.mp howes⟩
    · exact (of_mem_overflow hid).2
  · obtain ⟨x', hx', -, hfinished, -, hkeep, hbeyond⟩ := h.selected x.id hid
    cases (Table.find_of_mem hx : db.jobRuns.find x.id = some x).symm.trans hx'
    exact ⟨hkeep, (mem_beyond (mem_finishedOf.mpr ⟨hx, rfl, hfinished⟩)).mp hbeyond⟩
  · exact h.oldest x.id hid x (Table.find_of_mem hx) y.id (List.mem_map_of_mem hy) hlt
      (owes_eq_false.mpr howes)
  · refine length_left_of_gone fun id hid => hgone (List.mem_append_left _ ?_)
    refine h.trims hcap (fun id => owes_eq_false.mpr (hnone id)) jobId ?_ hkeep id hid
    rw [List.append_nil, List.mem_reverse]
    exact mem_jobsWithFinished (List.mem_of_mem_take hid)
  · refine (length_left_of_subset hgone).trans ?_
    rw [finishedOf_deleteRows_selected hcap hnone htotal]
    exact hleft hcap hnone htotal

/-- Where the windows are kept, a pass with no budget reaches all but the total. -/
theorem Windows.left (h : Windows config w) (hcap : config.app.maxDeletesPerPass = 0)
    (hnone : ∀ id, OwesNothing w.db id) (htotal : 0 < config.app.keepRunsTotal) :
    (unreached config w.db).length ≤ config.app.keepRunsTotal := by
  obtain ⟨perJobIds, overflowIds, -, hrows, hkeeps⟩ := h fun _ => 0
  have hanswer := (alone_selectRows config (fun _ => 0) w).2
  have hselected := Except.ok.inj (congrArg Prod.fst (Option.some.inj (hrows.symm.trans hanswer)))
  have hleft := hkeeps.totalLeft hcap hnone _ (List.Subset.refl _) htotal
  rwa [hselected, finishedOf_deleteRows_selected hcap hnone htotal] at hleft

/-- **One pass of retention** keeps the windows of a configuration exactly if it has a budget
or no total, a notification is pending, the finished runs can be counted in 32 bits, or those
that neither rule reaches are no more than the total. -/
theorem retention_windows (config : Config) (w : World) :
    Windows config w ↔ (w.db.jobRuns.rows.filter fun x => x.status.isFinished).length < 2 ^ 32 ∨
      0 < config.app.maxDeletesPerPass ∨ config.app.keepRunsTotal = 0 ∨
      (∃ n ∈ w.db.jobRunNotifications.rows, n.status = .pending) ∨
      (unreached config w.db).length ≤ config.app.keepRunsTotal := by
  have hpending : (∀ id, OwesNothing w.db id) ↔
      ¬ ∃ n ∈ w.db.jobRunNotifications.rows, n.status = .pending := by
    constructor
    · rintro hnone ⟨n, hn, hpending⟩
      exact hnone n.jobRunId n hn rfl hpending
    · intro hnone id n hn _ hpending
      exact hnone ⟨n, hn, hpending⟩
  constructor
  · intro h
    by_contra hnot
    simp only [not_or] at hnot
    obtain ⟨-, hcap, htotal, hnone, hleft⟩ := hnot
    exact hleft (h.left (Nat.eq_zero_of_not_pos hcap) (hpending.mpr hnone)
      (Nat.pos_of_ne_zero htotal))
  · intro h clock
    have hanswers := alone_selectRows config clock w
    refine ⟨_, _, hanswers.1, hanswers.2, keepsWindows fun hcap hnone htotal => ?_⟩
    rcases h with hcount | hbudget | hall | hsome | hleft
    · exact length_unreached hcap hnone htotal hcount
    · omega
    · omega
    · exact absurd hsome (hpending.mp hnone)
    · exact hleft

end Retention

namespace Replay

open Retention

/-- A run that has succeeded. -/
def succeededRun (id : Nat) : JobRun where
  id
  jobId := "etl"
  jobName := "etl"
  jobDescription := ""
  parameters := []
  createdAt := 0
  scheduledAt := 0
  scheduleId := none
  parentTaskRunAttemptId := none
  startedAt := some 0
  finishedAt := some 0
  status := .succeeded

/-- A table of runs that have all succeeded. -/
def succeededRuns (count : Nat) : Database :=
  { Database.empty with
    jobRuns :=
      { rows := (List.range count).map succeededRun
        next := count
        ordered := List.pairwise_map.mpr List.pairwise_lt_range
        bounded := by
          intro r hr
          obtain ⟨id, hid, rfl⟩ := List.mem_map.mp hr
          exact List.mem_range.mp hid } }

/-- A configuration with no rule but a total, and no budget. -/
def onlyTotal (total : Nat) : Config :=
  { Replay.config with
    jobs := []
    app := { Replay.app with keepRuns := 0, keepRunsTotal := total, maxDeletesPerPass := 0 } }

theorem finishedOf_succeededRuns (count : Nat) :
    finishedOf (succeededRuns count) none = (List.range count).map succeededRun := by
  refine List.filter_eq_self.mpr fun r hr => ?_
  obtain ⟨id, -, rfl⟩ := List.mem_map.mp hr
  rfl

/-- Of as many runs as 32 bits do not count, a total of one deletes none. -/
theorem retention_keeps_uncounted :
    ¬ Windows (onlyTotal 1) { World.fresh with db := succeededRuns (2 ^ 32) } := by
  intro h
  have hleft := h.left rfl (fun id n hn => absurd hn List.not_mem_nil) Nat.one_pos
  have hall : unreached (onlyTotal 1) (succeededRuns (2 ^ 32)) =
      (List.range (2 ^ 32)).map succeededRun := by
    rw [unreached, finishedOf_succeededRuns, List.length_map, List.length_range]
    refine List.filter_eq_self.mpr fun x _ => decide_eq_true ⟨.inl rfl, ?_⟩
    exact Nat.zero_le _
  have hlength : (unreached (onlyTotal 1) (succeededRuns (2 ^ 32))).length ≤ 1 := hleft
  rw [hall, List.length_map, List.length_range] at hlength
  omega

end Replay

end Flowlite

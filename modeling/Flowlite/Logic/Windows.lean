import Mathlib.Data.List.Dedup
import Flowlite.Services.Background

/-!
# Retention's windows

A pass reads the finished runs of a job oldest first and takes all but the newest
`keep_runs` of them, as far as the budget goes; then the oldest of all, as far as there are
more than `keep_runs_total`. A window is a prefix of the runs in the order of their ids
(`deletable`), whatever end its offset is counted from, and a run that owes a notification
leaves a gap in it.
-/

namespace Flowlite

open Store Host Threads Crud

namespace Retention

variable {config : Config} {db : Database} {clock : World → Instant} {w : World}

/-! ## Prefixes of an ordered list -/

section Prefix

variable {l : List Nat} {a b n k : Nat}

/-- The first `n` are those that fewer than `n` are older than. -/
theorem mem_take_iff_older (hl : l.Pairwise (· < ·)) (ha : a ∈ l) :
    a ∈ l.take n ↔ (l.filter fun b => b < a).length < n := by
  induction l generalizing n with
  | nil => cases ha
  | cons b l ih =>
      obtain ⟨hb, hl⟩ := List.pairwise_cons.mp hl
      cases n with
      | zero => simp
      | succ n =>
          rw [List.take_succ_cons, List.mem_cons]
          rcases List.mem_cons.mp ha with rfl | ha
          · -- nothing is older than the first
            have hnone : (a :: l).filter (fun c => c < a) = [] := by
              refine List.filter_eq_nil_iff.mpr fun c hc => ?_
              rcases List.mem_cons.mp hc with rfl | hc
              · simp
              · simpa using (hb c hc).le
            simp [hnone]
          · have hlt : b < a := hb a ha
            rw [List.filter_cons_of_pos (by simpa using hlt), List.length_cons,
              Nat.add_lt_add_iff_right, ← ih hl ha]
            exact or_iff_right (ne_of_gt hlt)

theorem mem_take_of_lt (hl : l.Pairwise (· < ·)) (ha : a ∈ l.take n) (hb : b ∈ l)
    (hlt : b < a) : b ∈ l.take n := by
  have holder := (mem_take_iff_older hl (List.mem_of_mem_take ha)).mp ha
  refine (mem_take_iff_older hl hb).mpr (lt_of_le_of_lt (List.Sublist.length_le ?_) holder)
  exact List.monotone_filter_right l fun c hc => by simp at hc ⊢; omega

/-- An element, those before it and those after it are the list. -/
theorem length_older_newer (hl : l.Pairwise (· < ·)) (ha : a ∈ l) :
    (l.filter fun b => b < a).length + (l.filter fun b => a < b).length + 1 = l.length := by
  have hself : (l.filter fun b => b = a).length = 1 := by
    rw [List.filter_eq, List.length_replicate]
    exact List.count_eq_one_of_mem (hl.imp fun h => ne_of_lt h) ha
  have holder := List.length_eq_length_filter_add (l := l) fun b => decide (b < a)
  have hnewer := List.length_eq_length_filter_add
    (l := l.filter fun b => !decide (b < a)) fun b => decide (a < b)
  rw [List.filter_filter, List.filter_filter] at hnewer
  have hgt : (fun b => decide (a < b) && !decide (b < a)) = fun b => decide (a < b) := by
    funext b
    simpa using fun h : a < b => h.le
  have heq : (fun b => !decide (a < b) && !decide (b < a)) = fun b => decide (b = a) := by
    funext b
    simp only [← decide_not, ← Bool.decide_and, decide_eq_decide]
    omega
  rw [hgt, heq, hself] at hnewer
  omega

/-- All but the last `k` are those that `k` are newer than. -/
theorem mem_take_iff_newer (hl : l.Pairwise (· < ·)) (ha : a ∈ l) :
    a ∈ l.take (l.length - k) ↔ k ≤ (l.filter fun b => a < b).length := by
  have hlength := length_older_newer hl ha
  rw [mem_take_iff_older hl ha]
  omega

/-- Of a list that lost all but its last `k` there are no more than `k` left. -/
theorem length_left {gone : List Nat} (hgone : ∀ a ∈ l.take (l.length - k), a ∈ gone) :
    (l.filter fun a => !gone.contains a).length ≤ k := by
  have hnone : (l.take (l.length - k)).filter (fun a => !gone.contains a) = [] := by
    refine List.filter_eq_nil_iff.mpr fun a ha => ?_
    simp [hgone a ha]
  have hsplit : l.filter (fun a => !gone.contains a) =
      (l.drop (l.length - k)).filter fun a => !gone.contains a := by
    conv_lhs => rw [← List.take_append_drop (l.length - k) l]
    rw [List.filter_append, hnone, List.nil_append]
  rw [hsplit]
  refine (List.length_filter_le _ _).trans ?_
  rw [List.length_drop]
  omega

end Prefix

/-! ## Finished runs -/

/-- The finished runs of a job, or of every job. -/
def finishedOf (db : Database) (jobId : Option String) : List JobRun :=
  db.jobRuns.rows.filter fun r => clause jobId (fun v => r.jobId = v) && r.status.isFinished

/-- Their ids, oldest first. -/
def finishedIds (db : Database) (jobId : Option String) : List Nat :=
  (finishedOf db jobId).map (·.id)

/-- The run still owes somebody a notification. -/
def owes (db : Database) (id : Nat) : Bool :=
  db.jobRunNotifications.rows.any fun n => n.status = .pending && n.jobRunId = id

theorem mem_finishedOf {jobId : Option String} {r : JobRun} :
    r ∈ finishedOf db jobId ↔ r ∈ db.jobRuns.rows ∧
      clause jobId (fun v => r.jobId = v) = true ∧ r.status.isFinished = true := by
  rw [finishedOf, List.mem_filter, Bool.and_eq_true]

theorem finishedIds_ordered (db : Database) (jobId : Option String) :
    (finishedIds db jobId).Pairwise (· < ·) :=
  List.pairwise_map.mpr (db.jobRuns.ordered.filter _)

/-- The run a finished id is the id of. -/
theorem of_mem_finishedIds {jobId : Option String} {id : Nat} (h : id ∈ finishedIds db jobId) :
    ∃ x, db.jobRuns.find id = some x ∧ clause jobId (fun v => x.jobId = v) = true ∧
      x.status.isFinished = true := by
  obtain ⟨x, hx, rfl⟩ := List.mem_map.mp h
  obtain ⟨hx, hjob, hfinished⟩ := mem_finishedOf.mp hx
  exact ⟨x, Table.find_of_mem hx, hjob, hfinished⟩

theorem filter_finished (db : Database) (jobId : Option String) :
    db.jobRuns.rows.filter ((finishedJobRunsFilter jobId).holds db) = finishedOf db jobId := by
  refine List.filter_congr fun r _ => ?_
  have hstatus : ([.succeeded, .failed, .skipped, .aborted, .timedOut, .invalid, .deleted] :
      List JobRunStatus).contains r.status = r.status.isFinished := by
    cases r.status <;> rfl
  simp only [SelectJobRunsFilter.holds, finishedJobRunsFilter, clause_some, clause_none, hstatus,
    Bool.and_true]

theorem finishedOf_deleteRows (gone : List Nat) (jobId : Option String) :
    finishedOf (db.deleteRows gone) jobId =
      (finishedOf db jobId).filter fun r => !gone.contains r.id := by
  unfold finishedOf Database.deleteRows Table.delete
  rw [List.filter_filter, List.filter_filter]
  exact List.filter_congr fun r _ => Bool.and_comm _ _

theorem finishedIds_deleteRows (gone : List Nat) (jobId : Option String) :
    finishedIds (db.deleteRows gone) jobId =
      (finishedIds db jobId).filter fun id => !gone.contains id := by
  rw [finishedIds, finishedOf_deleteRows, finishedIds, List.filter_map]
  rfl

/-! ## What the selects answer -/

/-- The first runs of a list, without those that owe a notification. -/
def deletable (db : Database) (ids : List Nat) (n : Nat) : List Nat :=
  (ids.take n).filter fun id => !owes db id

/-- A count and a limit on it. -/
def cut (limit : Option Nat) (n : Nat) : Nat :=
  match limit with
  | none => n
  | some limit => min limit n

theorem alone_countJobRuns (jobId : Option String) :
    (countJobRuns (finishedJobRunsFilter jobId)).alone (undisturbed clock) w =
      some (.ok (finishedIds w.db jobId).length, w) := by
  have hcount : w.db.countJobRuns (finishedJobRunsFilter jobId) =
      (finishedIds w.db jobId).length := by
    show (w.db.jobRuns.rows.filter _).length = _
    rw [filter_finished, finishedIds, List.length_map]
  rw [← hcount]
  exact undisturbed_select (.countJobRuns _)

theorem window_ids (jobId : Option String) (n : Nat) :
    (db.selectJobRuns { filter := finishedJobRunsFilter jobId, sort := some .id
                        limit := some (n : Int), offset := none }).map (·.id) =
      (finishedIds db jobId).take n := by
  unfold Database.selectJobRuns window sorted
  dsimp only
  rw [if_neg (by omega), filter_finished, List.map_take]
  rfl

theorem owes_pending (id : Nat) :
    ((db.selectJobRunNotifications { status := some .pending }).any fun n => n.jobRunId = id) =
      owes db id := by
  unfold Database.selectJobRunNotifications owes
  rw [List.any_filter]
  rfl

/-- The rest of the select, once it is known how many runs the window has. -/
theorem alone_window (jobId : Option String) (n : Nat) :
    ((selectJobRuns { filter := finishedJobRunsFilter jobId, sort := some .id
                      limit := some (n : Int), offset := none }).bind fun runs =>
      (selectJobRunNotifications { status := some .pending }).bind fun pending =>
        .ret ((runs.map (·.id)).filter fun id => !(pending.any fun n => n.jobRunId = id))).alone
          (undisturbed clock) w = some (.ok (deletable w.db (finishedIds w.db jobId) n), w) := by
  rw [selectJobRuns, Prog.alone_bind_of_ok (undisturbed_select _), selectJobRunNotifications,
    Prog.alone_bind_of_ok (undisturbed_select _)]
  refine congrArg (fun ids => some (Except.ok ids, w)) ?_
  show ((w.db.selectJobRuns _).map (·.id)).filter _ = _
  rw [window_ids]
  exact List.filter_congr fun id _ => congrArg _ (owes_pending id)

/-- Newest first, the offset is what is kept. -/
theorem alone_newestFirst (jobId : Option String) (keep : Nat) (limit : Option Nat) :
    (selectDeletableJobRuns jobId .newestFirst (some keep) limit).alone (undisturbed clock) w =
      some (.ok (deletable w.db (finishedIds w.db jobId)
        (cut limit ((finishedIds w.db jobId).length - keep))), w) := by
  have hunprotected : max (((finishedIds w.db jobId).length : Int) - (keep : Nat)) 0 =
      (((finishedIds w.db jobId).length - keep : Nat) : Int) := by
    omega
  unfold selectDeletableJobRuns
  rw [Prog.bind_eq, Prog.alone_bind, Prog.bind_eq,
    Prog.alone_bind_of_ok (alone_countJobRuns _)]
  dsimp only [Option.getD_some, Prog.pure_eq]
  cases limit with
  | none =>
      rw [hunprotected]
      exact alone_window jobId _
  | some limit =>
      have hmin : min (limit : Int) (((finishedIds w.db jobId).length - keep : Nat) : Int) =
          ((min limit ((finishedIds w.db jobId).length - keep) : Nat) : Int) := by
        omega
      dsimp only
      rw [hunprotected, hmin]
      exact alone_window jobId _

/-- Oldest first without an offset, the limit is all there is. -/
theorem alone_oldestFirst (jobId : Option String) (limit : Nat) :
    (selectDeletableJobRuns jobId .oldestFirst none (some limit)).alone (undisturbed clock) w =
      some (.ok (deletable w.db (finishedIds w.db jobId) limit), w) :=
  alone_window jobId limit

/-! ## The runs past each job's own window -/

/-- How many finished runs of a job are kept: a job that is not declared has the default. -/
def keepRuns (config : Config) (jobId : String) : Nat :=
  match config.jobs.find? fun j => j.jobId = jobId with
  | some job => job.keepRuns
  | none => config.app.keepRuns

/-- The oldest runs of a job, all but those it keeps. -/
def beyond (config : Config) (db : Database) (jobId : String) : List Nat :=
  (finishedIds db (some jobId)).take ((finishedIds db (some jobId)).length - keepRuns config jobId)

/-- What is selected of one job, once `selected` runs of others are. -/
def candidates (config : Config) (db : Database) (selected : Nat) (jobId : String) : List Nat :=
  if keepRuns config jobId = 0 then []
  else deletable db (finishedIds db (some jobId))
    (cut (remainingBudget config.app.maxDeletesPerPass selected)
      ((finishedIds db (some jobId)).length - keepRuns config jobId))

/-- What is selected of one job after the other. -/
def perJob (config : Config) (db : Database) : List Nat → List String → List Nat
  | ids, [] => ids
  | ids, jobId :: rest => perJob config db (ids ++ candidates config db ids.length jobId) rest

theorem alone_selectPerJobCandidates (ids : List Nat) (jobIds : List String) :
    (selectPerJobCandidates config ids jobIds).alone (undisturbed clock) w =
      some (.ok (perJob config w.db ids jobIds), w) := by
  induction jobIds generalizing ids with
  | nil => rfl
  | cons jobId rest ih =>
      have hjob : (selectJob config jobId).alone (undisturbed clock) w =
          some (.ok (config.jobs.find? fun j => j.jobId = jobId), w) := rfl
      unfold selectPerJobCandidates
      rw [Prog.bind_eq, Prog.alone_bind_of_ok hjob]
      show Prog.alone (S := flowliteOps) (undisturbed clock)
        (if keepRuns config jobId = 0 then _ else _) w = _
      by_cases hkeep : keepRuns config jobId = 0
      · rw [if_pos hkeep, ih, perJob, candidates, if_pos hkeep, List.append_nil]
      · rw [if_neg hkeep, Prog.bind_eq, Prog.alone_bind_of_ok (alone_newestFirst _ _ _), ih,
          perJob, candidates, if_neg hkeep]
        rfl

theorem mem_deletable {ids : List Nat} {n id : Nat} :
    id ∈ deletable db ids n ↔ id ∈ ids.take n ∧ owes db id = false := by
  rw [deletable, List.mem_filter, Bool.not_eq_true']

theorem deletable_sublist (ids : List Nat) (n : Nat) : (deletable db ids n).Sublist ids :=
  List.filter_sublist.trans (List.take_sublist n ids)

variable (db) in
theorem length_deletable (ids : List Nat) (n : Nat) : (deletable db ids n).length ≤ n :=
  (List.length_filter_le _ _).trans (List.length_take_le n ids)

theorem cut_le (limit : Option Nat) (n : Nat) : cut limit n ≤ n := by
  cases limit with
  | none => exact le_refl n
  | some limit => exact min_le_right limit n

/-- A budget is not overrun by what is left of it. -/
theorem cut_budget {budget selected n : Nat} (hbudget : 0 < budget) (hselected : selected ≤ budget) :
    selected + cut (remainingBudget budget selected) n ≤ budget := by
  simp only [remainingBudget, if_neg (Nat.pos_iff_ne_zero.mp hbudget), cut]
  omega

/-- How far the pass over the jobs has come. -/
structure PerJob (config : Config) (db : Database) (done : List String) (ids : List Nat) :
    Prop where
  once : ids.Nodup
  capped : 0 < config.app.maxDeletesPerPass → ids.length ≤ config.app.maxDeletesPerPass
  selected : ∀ id ∈ ids, ∃ x, db.jobRuns.find id = some x ∧ x.jobId ∈ done ∧
    x.status.isFinished = true ∧ owes db id = false ∧ 0 < keepRuns config x.jobId ∧
      id ∈ beyond config db x.jobId
  ordered : ids.Pairwise fun a b => ∀ x y, db.jobRuns.find a = some x →
    db.jobRuns.find b = some y → x.jobId = y.jobId → a < b
  oldest : ∀ id ∈ ids, ∀ x, db.jobRuns.find id = some x →
    ∀ b ∈ finishedIds db (some x.jobId), b < id → owes db b = false → b ∈ ids
  trims : config.app.maxDeletesPerPass = 0 → (∀ id, owes db id = false) →
    ∀ jobId ∈ done, 0 < keepRuns config jobId → ∀ id ∈ beyond config db jobId, id ∈ ids

theorem perJob_nil : PerJob config db [] [] where
  once := List.nodup_nil
  capped _ := Nat.zero_le _
  selected _ h := absurd h List.not_mem_nil
  ordered := List.Pairwise.nil
  oldest _ h := absurd h List.not_mem_nil
  trims _ _ _ h := absurd h List.not_mem_nil

/-- What a candidate is. -/
theorem of_mem_candidates {selected : Nat} {jobId : String} {id : Nat}
    (h : id ∈ candidates config db selected jobId) : ∃ x, db.jobRuns.find id = some x ∧
      x.jobId = jobId ∧ x.status.isFinished = true ∧ owes db id = false ∧
        0 < keepRuns config jobId ∧ id ∈ beyond config db jobId := by
  unfold candidates at h
  split at h
  · cases h
  · rename_i hkeep
    obtain ⟨htake, howes⟩ := mem_deletable.mp h
    obtain ⟨x, hx, hjob, hfinished⟩ := of_mem_finishedIds (List.mem_of_mem_take htake)
    exact ⟨x, hx, by simpa using hjob, hfinished, howes, Nat.pos_of_ne_zero hkeep,
      List.take_subset_take_left _ (cut_le _ _) htake⟩

variable (config) in
theorem candidates_sublist (selected : Nat) (jobId : String) :
    (candidates config db selected jobId).Sublist (finishedIds db (some jobId)) := by
  unfold candidates
  split
  · exact List.nil_sublist _
  · exact deletable_sublist _ _

theorem PerJob.step {done : List String} {ids : List Nat} {jobId : String}
    (h : PerJob config db done ids) (hnew : jobId ∉ done) :
    PerJob config db (jobId :: done) (ids ++ candidates config db ids.length jobId) := by
  have hfinished := (finishedIds_ordered db (some jobId)).sublist
    (candidates_sublist config ids.length jobId)
  -- the runs selected so far are those of other jobs
  have hapart : ∀ a ∈ ids, ∀ b ∈ candidates config db ids.length jobId, ∀ x y,
      db.jobRuns.find a = some x → db.jobRuns.find b = some y → x.jobId ≠ y.jobId := by
    intro a ha b hb x y hx hy heq
    obtain ⟨x', hx', hdone, -⟩ := h.selected a ha
    obtain ⟨y', hy', hjob, -⟩ := of_mem_candidates hb
    cases hx.symm.trans hx'
    cases hy.symm.trans hy'
    exact hnew (hjob ▸ heq ▸ hdone)
  refine ⟨?_, fun hcap => ?_, fun id hid => ?_, ?_, fun id hid x hx b hb hlt howes => ?_,
    fun hcap hnone job hjob hkeep id hid => ?_⟩
  · refine List.Nodup.append h.once (hfinished.imp fun hlt => ne_of_lt hlt) fun a ha hb => ?_
    obtain ⟨x, hx, -⟩ := h.selected a ha
    exact hapart a ha a hb x x hx hx rfl
  · have hlength : (candidates config db ids.length jobId).length ≤
        cut (remainingBudget config.app.maxDeletesPerPass ids.length)
          ((finishedIds db (some jobId)).length - keepRuns config jobId) := by
      unfold candidates
      split
      · exact Nat.zero_le _
      · exact length_deletable _ _ _
    rw [List.length_append]
    exact (Nat.add_le_add_left hlength _).trans (cut_budget hcap (h.capped hcap))
  · rcases List.mem_append.mp hid with hid | hid
    · obtain ⟨x, hx, hdone, hrest⟩ := h.selected id hid
      exact ⟨x, hx, List.mem_cons_of_mem _ hdone, hrest⟩
    · obtain ⟨x, hx, rfl, hrest⟩ := of_mem_candidates hid
      exact ⟨x, hx, List.mem_cons_self, hrest⟩
  · refine List.pairwise_append.mpr ⟨h.ordered, hfinished.imp fun hlt _ _ _ _ _ => hlt, ?_⟩
    exact fun a ha b hb x y hx hy heq => absurd heq (hapart a ha b hb x y hx hy)
  · rcases List.mem_append.mp hid with hid | hid
    · exact List.mem_append_left _ (h.oldest id hid x hx b hb hlt howes)
    · refine List.mem_append_right _ ?_
      obtain ⟨x', hx', rfl, -⟩ := of_mem_candidates hid
      cases hx.symm.trans hx'
      unfold candidates at hid ⊢
      split at hid
      · cases hid
      · rename_i hkeep
        rw [if_neg hkeep]
        exact mem_deletable.mpr ⟨mem_take_of_lt (finishedIds_ordered _ _)
          (mem_deletable.mp hid).1 hb hlt, howes⟩
  · rcases List.mem_cons.mp hjob with rfl | hdone
    · refine List.mem_append_right _ ?_
      unfold candidates
      rw [if_neg (Nat.pos_iff_ne_zero.mp hkeep), hcap]
      exact mem_deletable.mpr ⟨hid, hnone id⟩
    · exact List.mem_append_left _ (h.trims hcap hnone job hdone hkeep id hid)

theorem PerJob.run {done jobIds : List String} {ids : List Nat} (h : PerJob config db done ids)
    (honce : jobIds.Nodup) (hnew : ∀ jobId ∈ jobIds, jobId ∉ done) :
    PerJob config db (jobIds.reverse ++ done) (perJob config db ids jobIds) := by
  induction jobIds generalizing done ids with
  | nil => exact h
  | cons jobId rest ih =>
      obtain ⟨hfirst, hrest⟩ := List.nodup_cons.mp honce
      rw [perJob, List.reverse_cons, List.append_assoc]
      refine ih (h.step (hnew jobId List.mem_cons_self)) hrest fun other hother hdone => ?_
      rcases List.mem_cons.mp hdone with rfl | hdone
      · exact hfirst hother
      · exact hnew other (List.mem_cons_of_mem _ hother) hdone

/-! ## The runs past the total -/

/-- The oldest runs past the total, without those that are selected already. -/
def overflow (config : Config) (db : Database) (selected : List Nat) : List Nat :=
  if config.app.keepRunsTotal = 0 then []
  else (deletable db (finishedIds db none)
    (cut (remainingBudget config.app.maxDeletesPerPass selected.length)
      ((finishedIds db none).length % 2 ^ 32 - config.app.keepRunsTotal))).filter
        fun id => !selected.contains id

theorem alone_countFinishedJobRuns : countFinishedJobRuns.alone (undisturbed clock) w =
    some (.ok ((finishedIds w.db none).length % 2 ^ 32), w) :=
  Prog.alone_bind_of_ok (alone_countJobRuns none) _

theorem alone_selectGlobalOverflowCandidates (selected : List Nat) :
    (selectGlobalOverflowCandidates config selected).alone (undisturbed clock) w =
      some (.ok (overflow config w.db selected), w) := by
  unfold selectGlobalOverflowCandidates overflow
  by_cases htotal : config.app.keepRunsTotal = 0
  · rw [if_pos htotal, if_pos htotal]
    rfl
  rw [if_neg htotal, if_neg htotal, Prog.bind_eq,
    Prog.alone_bind_of_ok alone_countFinishedJobRuns]
  dsimp only
  by_cases hnone : (finishedIds w.db none).length % 2 ^ 32 - config.app.keepRunsTotal = 0
  · rw [if_pos hnone, hnone, Nat.le_zero.mp (cut_le _ 0)]
    rfl
  rw [if_neg hnone]
  cases remainingBudget config.app.maxDeletesPerPass selected.length with
  | none =>
      rw [Prog.bind_eq, Prog.alone_bind_of_ok (alone_oldestFirst none _)]
      rfl
  | some remaining =>
      dsimp only
      rw [min_comm, Prog.bind_eq, Prog.alone_bind_of_ok (alone_oldestFirst none _)]
      rfl

/-- The jobs a pass goes through. -/
def jobsWithFinished (db : Database) : List String :=
  db.selectJobRunJobIds (finishedJobRunsFilter none)

theorem mem_jobsWithFinished {jobId : String} {id : Nat}
    (h : id ∈ finishedIds db (some jobId)) : jobId ∈ jobsWithFinished db := by
  obtain ⟨x, hx, hjob, hfinished⟩ := of_mem_finishedIds h
  unfold jobsWithFinished Database.selectJobRunJobIds
  rw [filter_finished, List.mem_reverse, List.mem_dedup, List.mem_reverse]
  have hjob : x.jobId = jobId := by simpa using hjob
  exact List.mem_map.mpr ⟨x, mem_finishedOf.mpr ⟨Table.mem_of_find hx, rfl, hfinished⟩, hjob⟩

theorem perJob_selected (config : Config) (db : Database) :
    PerJob config db ((jobsWithFinished db).reverse ++ [])
      (perJob config db [] (jobsWithFinished db)) :=
  perJob_nil.run (List.nodup_reverse.mpr (List.nodup_dedup _)) fun _ _ h => List.not_mem_nil h

theorem alone_selectRows (config : Config) (clock : World → Instant) (w : World) :
    (selectJobIdsWithFinishedJobRuns.bind (selectPerJobCandidates config [])).alone
          (undisturbed clock) w =
        some (.ok (perJob config w.db [] (jobsWithFinished w.db)), w) ∧
      (selectRows config).alone (undisturbed clock) w =
        some (.ok (perJob config w.db [] (jobsWithFinished w.db) ++
          overflow config w.db (perJob config w.db [] (jobsWithFinished w.db))), w) := by
  have hjobs : selectJobIdsWithFinishedJobRuns.alone (undisturbed clock) w =
      some (.ok (jobsWithFinished w.db), w) :=
    undisturbed_select _
  refine ⟨?_, ?_⟩
  · rw [Prog.alone_bind_of_ok hjobs]
    exact alone_selectPerJobCandidates [] _
  · unfold selectRows
    rw [Prog.bind_eq, Prog.alone_bind_of_ok hjobs, Prog.bind_eq,
      Prog.alone_bind_of_ok (alone_selectPerJobCandidates [] _), Prog.bind_eq,
      Prog.alone_bind_of_ok (alone_selectGlobalOverflowCandidates _)]
    rfl

end Retention

end Flowlite

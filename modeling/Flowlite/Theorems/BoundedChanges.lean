import Flowlite.Order.Sums
import Flowlite.Theorems.Progress

/-!
# A run changes a bounded number of times

What a run has come to is weighed: its rows count, and how far each of them has moved on. The
weight never falls, and it rises with every row that is new or reads otherwise. It cannot rise
beyond what the tasks of the job and their retries allow. So no service goes on for ever with
a run, whatever fails and whatever is started again.
-/

namespace Flowlite

open Store Host Threads Crud Yaml Machine Outline Sums Relation

variable {lib : Library} {cond : (flowlite lib).Condition}

/-! ## The weight of a run -/

def Store.TaskRunAttempt.weight (a : TaskRunAttempt) : Nat := a.status.rank + 1

def Store.Database.taskRunWeight (db : Database) (x : TaskRun) : Nat :=
  x.status.rank + 1 + ((db.attemptsOf x.id).map TaskRunAttempt.weight).sum

/-- How much has happened to the run. -/
def Store.Database.weight (db : Database) (id : Nat) : Nat :=
  ((db.jobRuns.find id).map (·.status.rank)).getD 0 +
    ((db.taskRunsOf id).map db.taskRunWeight).sum

/-- As many changes as the tasks of a run and their retries allow. -/
def changesAllowed (tasks : List Task) : Nat :=
  4 + (tasks.map fun task => 4 + 3 * max 1 (TaskRunMonitor.addU32 task.maxRetries 1)).sum

/-- No row of the run is new, and none reads otherwise. -/
structure Unmoved (db db' : Database) (j j' : JobRun) : Prop where
  jobRun : j'.status = j.status
  taskRun : ∀ x' ∈ db'.taskRunsOf j.id, ∃ x ∈ db.taskRunsOf j.id,
    x'.id = x.id ∧ x'.status = x.status
  attempt : ∀ x' ∈ db'.taskRunsOf j.id, ∀ a' ∈ db'.attemptsOf x'.id,
    ∃ a ∈ db.attemptsOf x'.id, a'.id = a.id ∧ a'.status = a.status

/-- The run is there in both, and some row of it is new or reads otherwise. -/
def Changes (db db' : Database) (id : Nat) : Prop :=
  ∃ j j', db.jobRuns.find id = some j ∧ db'.jobRuns.find id = some j' ∧ ¬ Unmoved db db' j j'

/-- What a state has of a run is there in a later one, as far on or further. -/
structure Later (w w' : World) (id : Nat) : Prop where
  forward : StatusesMoveForward w w'
  taskRun : ∀ x ∈ w.db.taskRunsOf id, ∃ x' ∈ w'.db.taskRunsOf id, x'.id = x.id
  attempt : ∀ x ∈ w.db.taskRunsOf id, ∀ a ∈ w.db.attemptsOf x.id,
    ∃ a' ∈ w'.db.attemptsOf x.id, a'.id = a.id

theorem later_star (ho : Ordered cond) {c c' : (flowlite lib).Config} (hc : Reachable cond c)
    (hstar : ReflTransGen (Next cond) c c') {id : Nat}
    (hthere : (c'.state.db.jobRuns.find id).isSome = true) : Later c.state c'.state id := by
  have hg := ho.grounded
  have hlinked : Linked c.state.db :=
    ((retries_valid hg.base hg.attempts hg.releases).inv hc).1
  have hfirst : ReleasedFirst c.state := (releases_valid hg.base).inv hc
  have hknown : ∀ {x : TaskRun}, x ∈ c.state.db.taskRuns.rows →
      x.jobRunId < c.state.db.jobRuns.next := fun {x} hx => by
    obtain ⟨j, hj⟩ := Option.isSome_iff_exists.mp (hlinked.jobRun_of_taskRun x hx)
    exact Table.lt_next_of_find hj
  refine ⟨statusesMoveForward_star ho hstar, fun x hx => ?_, fun x hx a ha => ?_⟩
  · obtain ⟨hrow, rfl⟩ := mem_taskRunsOf.mp hx
    have hstays : Permanent cond (Stays Database.taskRuns TaskRun.jobRunId TaskRun.jobRunId x) :=
      stays_permanent fun _ _ _ _ _ h y hy => (taskRun_fate h hy).imp_right
        fun ⟨y', hy', hsame⟩ => by
          have hsame : y' = _ := hsame
          exact ⟨y', hy', by rw [hsame], by rw [hsame]⟩
    obtain ⟨x', hx', hrun, -⟩ := (hstays.star hstar
      ⟨hknown hrow, fun _ => ⟨x, Table.find_of_mem hrow, rfl, rfl⟩⟩).2 hthere
    exact ⟨x', mem_taskRunsOf.mpr ⟨Table.mem_of_find hx', hrun⟩, Table.key_of_find hx'⟩
  · obtain ⟨hrow, rfl⟩ := mem_taskRunsOf.mp hx
    obtain ⟨harow, htask⟩ := mem_attemptsOf.mp ha
    have hrun : a.jobRunId = x.jobRunId := ((hfirst.attempted a harow).2 x hrow htask.symm).1
    obtain ⟨a', ha', -, htask'⟩ := ((attemptStays_permanent a).star hstar
      (attemptStays_of_find hlinked (Table.find_of_mem harow))).2 (by rw [hrun]; exact hthere)
    exact ⟨a', mem_attemptsOf.mpr ⟨Table.mem_of_find ha', htask'.trans htask⟩,
      Table.key_of_find ha'⟩

/-! ## The weight rises -/

section Weights

variable {w w' : World} {id : Nat}

theorem nodup_attemptsOf (db : Database) (id : Nat) : ((db.attemptsOf id).map (·.id)).Nodup :=
  db.taskRunAttempts.nodup_keys_where _

theorem nodup_taskRunsOf (db : Database) (id : Nat) : ((db.taskRunsOf id).map (·.id)).Nodup :=
  db.taskRuns.nodup_keys_where _

theorem find_of_mem_taskRunsOf {db : Database} {x : TaskRun} (hx : x ∈ db.taskRunsOf id) :
    db.taskRuns.find x.id = some x :=
  Table.find_of_mem (mem_taskRunsOf.mp hx).1

theorem find_of_mem_attemptsOf {db : Database} {a : TaskRunAttempt} (ha : a ∈ db.attemptsOf id) :
    db.taskRunAttempts.find a.id = some a :=
  Table.find_of_mem (mem_attemptsOf.mp ha).1

theorem Later.attempts (h : Later w w' id) {x : TaskRun} (hx : x ∈ w.db.taskRunsOf id) :
    Outweighs (·.id) (·.id) TaskRunAttempt.weight TaskRunAttempt.weight
      (w.db.attemptsOf x.id) (w'.db.attemptsOf x.id) := by
  intro a ha
  obtain ⟨a', ha', hid⟩ := h.attempt x hx a ha
  refine ⟨a', ha', hid, ?_⟩
  have hforward := h.forward.attempts a.id a a' (find_of_mem_attemptsOf ha)
    (hid ▸ find_of_mem_attemptsOf ha')
  unfold TaskRunAttempt.weight
  rcases hforward with heq | hlt
  · rw [heq]
  · omega

/-- The two parts of the weight of a task run: neither falls. -/
theorem Later.parts (h : Later w w' id) {x x' : TaskRun} (hx : x ∈ w.db.taskRunsOf id)
    (hx' : x' ∈ w'.db.taskRunsOf id) (hid : x'.id = x.id) :
    (x'.status = x.status ∨ x.status.rank < x'.status.rank) ∧
      ((w.db.attemptsOf x.id).map TaskRunAttempt.weight).sum ≤
        ((w'.db.attemptsOf x'.id).map TaskRunAttempt.weight).sum := by
  refine ⟨h.forward.taskRuns x.id x x' (find_of_mem_taskRunsOf hx)
    (hid ▸ find_of_mem_taskRunsOf hx'), ?_⟩
  rw [hid]
  exact sum_le (nodup_attemptsOf w.db x.id) (h.attempts hx)

theorem Later.taskRuns (h : Later w w' id) :
    Outweighs (·.id) (·.id) w.db.taskRunWeight w'.db.taskRunWeight
      (w.db.taskRunsOf id) (w'.db.taskRunsOf id) := by
  intro x hx
  obtain ⟨x', hx', hid⟩ := h.taskRun x hx
  refine ⟨x', hx', hid, ?_⟩
  obtain ⟨hstatus, hattempts⟩ := h.parts hx hx' hid
  unfold Database.taskRunWeight
  rcases hstatus with heq | hlt
  · rw [heq]
    omega
  · omega

theorem Later.unmoved (h : Later w w' id) {j j' : JobRun} (hj : w.db.jobRuns.find id = some j)
    (hstatus : j'.status = j.status)
    (hsum : ((w.db.taskRunsOf id).map w.db.taskRunWeight).sum =
      ((w'.db.taskRunsOf id).map w'.db.taskRunWeight).sum) : Unmoved w.db w'.db j j' := by
  have hkey : j.id = id := Table.key_of_find hj
  have hpos : ∀ x' ∈ w'.db.taskRunsOf id, 0 < w'.db.taskRunWeight x' := fun x' _ => by
    unfold Database.taskRunWeight
    omega
  have hall := of_sum_eq (nodup_taskRunsOf w.db id) h.taskRuns hpos hsum
  -- neither part of the weight of a task run rises
  have hparts : ∀ x' ∈ w'.db.taskRunsOf id, ∃ x ∈ w.db.taskRunsOf id, x'.id = x.id ∧
      x'.status = x.status ∧ ((w.db.attemptsOf x.id).map TaskRunAttempt.weight).sum =
        ((w'.db.attemptsOf x'.id).map TaskRunAttempt.weight).sum := by
    intro x' hx'
    obtain ⟨x, hx, hid, hweight⟩ := hall x' hx'
    obtain ⟨hmoved, hattempts⟩ := h.parts hx hx' hid
    unfold Database.taskRunWeight at hweight
    rcases hmoved with heq | hlt
    · rw [heq] at hweight
      exact ⟨x, hx, hid, heq, by omega⟩
    · omega
  rw [← hkey] at hparts
  refine ⟨hstatus, fun x' hx' => ?_, fun x' hx' a' ha' => ?_⟩
  · obtain ⟨x, hx, hid, hsame, -⟩ := hparts x' hx'
    exact ⟨x, hx, hid, hsame⟩
  · obtain ⟨x, hx, hid, -, hattempts⟩ := hparts x' hx'
    rw [hid] at ha' hattempts ⊢
    obtain ⟨a, ha, haid, hweight⟩ := of_sum_eq (nodup_attemptsOf w.db x.id)
      (h.attempts (hkey ▸ hx)) (fun a _ => Nat.succ_pos a.status.rank) hattempts a' ha'
    refine ⟨a, ha, haid, ?_⟩
    have hforward := h.forward.attempts a.id a a' (find_of_mem_attemptsOf ha)
      (haid ▸ find_of_mem_attemptsOf ha')
    unfold TaskRunAttempt.weight at hweight
    exact hforward.resolve_right (by omega)

/-- **The weight rises** with everything that changes. -/
theorem Later.weight_lt (h : Later w w' id) (hchanges : Changes w.db w'.db id) :
    w.db.weight id < w'.db.weight id := by
  obtain ⟨j, j', hj, hj', hmoved⟩ := hchanges
  have hsum := sum_le (nodup_taskRunsOf w.db id) h.taskRuns
  unfold Database.weight
  rw [hj, hj']
  show j.status.rank + _ < j'.status.rank + _
  rcases h.forward.jobRuns id j j' hj hj' with heq | hlt
  · have hne : ((w.db.taskRunsOf id).map w.db.taskRunWeight).sum ≠
        ((w'.db.taskRunsOf id).map w'.db.taskRunWeight).sum :=
      fun hsame => hmoved (h.unmoved hj heq hsame)
    rw [heq]
    omega
  · omega

end Weights

/-! ## The bound -/

theorem rank_le_of_jobRun (status : JobRunStatus) : status.rank ≤ 4 := by
  cases status <;> decide

theorem rank_le_of_taskRun (status : TaskRunStatus) : status.rank ≤ 3 := by
  cases status <;> decide

theorem rank_le_of_attempt (status : TaskRunAttemptStatus) : status.rank ≤ 2 := by
  cases status <;> decide

/-- The attempts of a task run are numbered, and weigh three each at most. -/
theorem attempts_weight_le {db : Database} {x : TaskRun} {k : Nat} (h : Retried db x k) :
    ((db.attemptsOf x.id).map TaskRunAttempt.weight).sum ≤ 3 * x.mostAttempts := by
  have hnodup : ((db.attemptsOf x.id).map (·.attempt)).Nodup :=
    List.Nodup.map_on (fun a ha b hb heq => h.numbered.once a ha b hb heq)
      (nodup_attemptsOf db x.id).of_map
  have hle : Outweighs (·.attempt) id TaskRunAttempt.weight (fun _ => 3) (db.attemptsOf x.id)
      (List.range' 1 k) := by
    intro a ha
    obtain ⟨hfirst, hlast⟩ := h.numbered.within a ha
    refine ⟨a.attempt, List.mem_range'_1.mpr ⟨hfirst, by omega⟩, rfl, ?_⟩
    have hrank := rank_le_of_attempt a.status
    show a.status.rank + 1 ≤ 3
    omega
  calc ((db.attemptsOf x.id).map TaskRunAttempt.weight).sum
      ≤ ((List.range' 1 k).map fun _ => 3).sum := sum_le hnodup hle
    _ = 3 * k := by rw [List.map_const', List.sum_replicate_nat, List.length_range', Nat.mul_comm]
    _ ≤ 3 * x.mostAttempts := Nat.mul_le_mul_left 3 h.most

theorem weight_le (ho : Ordered cond) {c : (flowlite lib).Config} (hc : Reachable cond c)
    {id : Nat} {tasks : List Task} (hwritten : WrittenFrom c.state.db id tasks) :
    c.state.db.weight id ≤ changesAllowed tasks := by
  have hg := ho.grounded
  have hsameJob := (sameJob_valid hg.base).inv hc
  have hretries := ((retries_valid hg.base hg.attempts hg.releases).inv hc).2
  have hnodup : ((c.state.db.taskRunsOf id).map (·.taskId)).Nodup := by
    refine List.Nodup.map_on (fun x hx y hy heq => ?_) (nodup_taskRunsOf c.state.db id).of_map
    obtain ⟨hxrow, hxrun⟩ := mem_taskRunsOf.mp hx
    obtain ⟨hyrow, hyrun⟩ := mem_taskRunsOf.mp hy
    exact taskRun_eq hsameJob hxrow hyrow (hxrun.trans hyrun.symm) heq
  have hle : Outweighs (·.taskId) (·.taskId) c.state.db.taskRunWeight
      (fun task : Task => 4 + 3 * max 1 (TaskRunMonitor.addU32 task.maxRetries 1))
      (c.state.db.taskRunsOf id) tasks := by
    intro x hx
    obtain ⟨task, htask, hid, -, hmax⟩ := hwritten.run x hx
    refine ⟨task, htask, hid.symm, ?_⟩
    obtain ⟨k, hretried⟩ := hretries x (mem_taskRunsOf.mp hx).1
    have hattempts := attempts_weight_le hretried
    have hrank := rank_le_of_taskRun x.status
    rw [TaskRun.mostAttempts, hmax] at hattempts
    show x.status.rank + 1 + _ ≤ 4 + 3 * max 1 (TaskRunMonitor.addU32 task.maxRetries 1)
    omega
  have hsum := sum_le hnodup hle
  have hrank : ((c.state.db.jobRuns.find id).map (·.status.rank)).getD 0 ≤ 4 := by
    cases c.state.db.jobRuns.find id with
    | none => exact Nat.zero_le 4
    | some j => exact rank_le_of_jobRun j.status
  unfold Database.weight changesAllowed
  omega

end Flowlite

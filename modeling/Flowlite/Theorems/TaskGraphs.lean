import Flowlite.Logic.TaskGraph

/-!
# The task graphs that are accepted

A job file becomes rows only if its tasks can be worked off one after the other, and the
walk that decides it goes through the dependencies of each task once.
-/

namespace Flowlite

open Store Host Yaml Crud Flowlite.Graph Relation

/-- A task with the id `a` depends on `b`. -/
def DependsOn (tasks : List JobYamlTask) (a b : String) : Prop :=
  ∃ task ∈ tasks, task.id = a ∧ b ∈ task.dependsOn

/-- The last task with the id `a` depends on `b`: what a lookup by id says, which is the
same where no id is there twice. -/
def LastDependsOn (tasks : List JobYamlTask) : String → String → Prop :=
  Looks (dependsOnByTaskId tasks)

theorem lastDependsOn_iff {tasks : List JobYamlTask} (h : (tasks.map (·.id)).Nodup)
    (a b : String) : LastDependsOn tasks a b ↔ DependsOn tasks a b := by
  constructor
  · intro hlook
    unfold LastDependsOn Looks at hlook
    cases hdeps : dependsOnByTaskId tasks a with
    | none => rw [hdeps] at hlook; cases hlook
    | some deps =>
        rw [hdeps] at hlook
        obtain ⟨task, htask, hid, rfl⟩ := dependsOnByTaskId_mem hdeps
        exact ⟨task, htask, hid, hlook⟩
  · rintro ⟨task, htask, rfl, hdep⟩
    unfold LastDependsOn Looks dependsOnByTaskId
    cases hfind : tasks.reverse.find? (fun t => decide (t.id = task.id)) with
    | none =>
        have hno := List.find?_eq_none.mp hfind task (List.mem_reverse.mpr htask)
        simp at hno
    | some found =>
        have hfound := List.mem_reverse.mp (List.mem_of_find?_eq_some hfind)
        have hid : found.id = task.id := by simpa using List.find?_some hfind
        have hsame := List.inj_on_of_nodup_map h hfound htask hid
        rw [hsame]
        exact hdep

/-- What the walk says of the dependencies it looks up. -/
theorem findTaskDependencyCycle_spec (tasks : List JobYamlTask) :
    (findTaskDependencyCycle tasks = none ↔ Acyclic (LastDependsOn tasks)) ∧
      ∀ cycle, findTaskDependencyCycle tasks = some cycle →
        IsCycle (LastDependsOn tasks) cycle := by
  obtain ⟨w, hrun⟩ := walkTasks_terminates tasks
  have hfinds := walkTasks_finds hrun
  cases hcycle : findTaskDependencyCycle tasks with
  | some cycle =>
      rw [hcycle] at hfinds
      refine ⟨iff_of_false nofun hfinds.1.not_acyclic, fun found heq => ?_⟩
      rw [← Option.some.inj heq]
      exact hfinds.1
  | none =>
      rw [hcycle] at hfinds
      refine ⟨iff_of_true rfl (acyclic_of_noCycleBelow fun a b hab => ?_), nofun⟩
      refine hfinds.2.2 a ?_
      -- a task with dependencies is a task of the job
      unfold LastDependsOn Looks at hab
      cases hdeps : dependsOnByTaskId tasks a with
      | none => rw [hdeps] at hab; cases hab
      | some deps =>
          obtain ⟨task, htask, rfl, -⟩ := dependsOnByTaskId_mem hdeps
          exact List.mem_map_of_mem htask

/-- **The validation of a task graph is exact**: it accepts the graphs whose tasks have
each an id of their own, depend on tasks of the job and on no cycle. The walk comes to an
end, reports a cycle exactly when there is one, and walks no task's dependencies twice. -/
theorem task_graph_validation (jobYaml : JobYaml) :
    (validateJobTasks jobYaml = .ok () ↔
      (jobYaml.tasks.map (·.id)).Nodup ∧
      (∀ task ∈ jobYaml.tasks, ∀ b ∈ task.dependsOn, b ∈ jobYaml.tasks.map (·.id)) ∧
      Acyclic (DependsOn jobYaml.tasks)) ∧
    (∃ w, (∀ fuel, jobYaml.tasks.length < fuel →
        walkTasks fuel jobYaml.tasks = some (findTaskDependencyCycle jobYaml.tasks, w)) ∧
      w.walked.Nodup) ∧
    (findTaskDependencyCycle jobYaml.tasks = none ↔ Acyclic (LastDependsOn jobYaml.tasks)) ∧
    (∀ cycle, findTaskDependencyCycle jobYaml.tasks = some cycle →
      IsCycle (LastDependsOn jobYaml.tasks) cycle) ∧
    ((jobYaml.tasks.map (·.id)).Nodup →
      ∀ a b, LastDependsOn jobYaml.tasks a b ↔ DependsOn jobYaml.tasks a b) := by
  obtain ⟨hnone, hsome⟩ := findTaskDependencyCycle_spec jobYaml.tasks
  have hsame : (jobYaml.tasks.map (·.id)).Nodup →
      (Acyclic (LastDependsOn jobYaml.tasks) ↔ Acyclic (DependsOn jobYaml.tasks)) := by
    intro hnodup
    rw [show LastDependsOn jobYaml.tasks = DependsOn jobYaml.tasks from
      funext fun a => funext fun b => propext (lastDependsOn_iff hnodup a b)]
  refine ⟨?_, ?_, hnone, hsome, lastDependsOn_iff⟩
  · rw [validateJobTasks_eq_ok, declaredTwice_eq_none, hnone]
    constructor
    · rintro ⟨⟨hnodup, -⟩, hdeps, hacyclic⟩
      exact ⟨hnodup, fun task ht b hb => (dependencyError_eq_none.mp (hdeps task ht b hb)).2,
        (hsame hnodup).mp hacyclic⟩
    · rintro ⟨hnodup, hdeps, hacyclic⟩
      refine ⟨⟨hnodup, fun _ _ => List.not_mem_nil⟩, fun task ht b hb => ?_,
        (hsame hnodup).mpr hacyclic⟩
      refine dependencyError_eq_none.mpr ⟨?_, hdeps task ht b hb⟩
      -- a task that depends on itself would be a cycle
      rintro rfl
      exact hacyclic task.id (.single ⟨task, ht, rfl, hb⟩)
  · obtain ⟨w, hrun⟩ := walkTasks_terminates jobYaml.tasks
    refine ⟨w, fun fuel hfuel => ?_, ?_⟩
    · obtain ⟨more, rfl⟩ := Nat.exists_eq_add_of_le hfuel
      exact walkTasks_mono hrun
    · have hfinds := walkTasks_finds hrun
      cases hcycle : findTaskDependencyCycle jobYaml.tasks with
      | none =>
          rw [hcycle] at hfinds
          exact hfinds.1.once
      | some cycle =>
          rw [hcycle] at hfinds
          exact hfinds.2

/-- Three tasks that depend on each other in a ring, and one that depends on them. -/
example : findTaskDependencyCycle
    [{ id := "report", command := "", dependsOn := ["load"] },
      { id := "load", command := "", dependsOn := ["clean"] },
      { id := "clean", command := "", dependsOn := ["extract"] },
      { id := "extract", command := "", dependsOn := ["load"] }] =
    some ["load", "clean", "extract", "load"] := by
  decide +kernel

end Flowlite

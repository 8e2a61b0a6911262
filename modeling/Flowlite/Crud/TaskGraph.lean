import Flowlite.Yaml.JobYaml

/-!
# The task graph of a job

What `seed_job` rejects a job file for before it becomes rows: a task declared twice, a
dependency that is no task of the job, and tasks that depend on each other in a cycle. The
last is a depth-first walk with a shared path and a set of tasks known to be free of
cycles. It recurses as deep as the graph is, so it is given fuel, and runs out of it only
if there is too little.
-/

namespace Flowlite.Crud

open Store Host Yaml

/-- The map the walk looks dependencies up in: of two tasks with one id, the last. -/
def dependsOnByTaskId (tasks : List JobYamlTask) (taskId : String) : Option (List String) :=
  (tasks.reverse.find? (·.id = taskId)).map (·.dependsOn)

/-- What a walk through the tasks carries along. -/
structure TaskWalk where
  acyclicTaskIds : List String := []
  path : List String := []
  /-- The tasks whose dependencies have been gone through, in order. Auxiliary. -/
  walked : List String := []
  deriving DecidableEq

/-- A cycle, if one was found, and what the walk carries from there. -/
abbrev TaskWalk.Outcome := Option (Option (List String) × TaskWalk)

/-- Walks one task after the other, up to the first that is on a cycle. -/
def walkEach (walk : String → TaskWalk → TaskWalk.Outcome) :
    List String → TaskWalk → TaskWalk.Outcome
  | [], w => some (none, w)
  | taskId :: taskIds, w =>
      match walk taskId w with
      | some (none, w) => walkEach walk taskIds w
      | found => found

def walkTaskDependencies (dependsOn : String → Option (List String)) :
    Nat → String → TaskWalk → TaskWalk.Outcome
  | 0, _, _ => none
  | fuel + 1, taskId, w =>
      match w.path.idxOf? taskId with
      | some position => some (some (w.path.drop position ++ [taskId]), w)
      | none =>
          if w.acyclicTaskIds.contains taskId then some (none, w)
          else
            match walkEach (walkTaskDependencies dependsOn fuel)
              ((dependsOn taskId).getD [])
              { w with path := w.path ++ [taskId], walked := w.walked ++ [taskId] } with
            | some (none, w) =>
                some (none, { w with
                  path := w.path.dropLast, acyclicTaskIds := taskId :: w.acyclicTaskIds })
            | found => found

/-- The walk from every task of the job, with so much fuel for each. -/
def walkTasks (fuel : Nat) (tasks : List JobYamlTask) : TaskWalk.Outcome :=
  walkEach (walkTaskDependencies (dependsOnByTaskId tasks) fuel) (tasks.map (·.id)) {}

/-- The tasks of the first dependency cycle, in the order they depend on each other. -/
def findTaskDependencyCycle (tasks : List JobYamlTask) : Option (List String) :=
  (walkTasks (tasks.length + 1) tasks).bind (·.1)

/-- The first id that a task before it has. -/
def declaredTwice (taskIds : List String) : List JobYamlTask → Option String
  | [] => none
  | task :: tasks =>
      if taskIds.contains task.id then some task.id
      else declaredTwice (task.id :: taskIds) tasks

/-- What is wrong with a dependency, if anything is. -/
def dependencyError (taskIds : List String) (taskId dependentTaskId : String) : Option Err :=
  if dependentTaskId = taskId then some ⟨s!"Task '{taskId}' depends on itself"⟩
  else if !taskIds.contains dependentTaskId then
    some ⟨s!"Task '{taskId}' depends on '{dependentTaskId}', which is not a task of this job"⟩
  else none

/-- Rejects a task graph the orchestrator could never finish. -/
def validateJobTasks (jobYaml : JobYaml) : Except Err Unit :=
  match declaredTwice [] jobYaml.tasks with
  | some taskId => .error ⟨s!"Task '{taskId}' is declared more than once"⟩
  | none =>
      match jobYaml.tasks.findSome? fun task =>
        task.dependsOn.findSome? (dependencyError (jobYaml.tasks.map (·.id)) task.id) with
      | some e => .error e
      | none =>
          match findTaskDependencyCycle jobYaml.tasks with
          | some cycle =>
              .error ⟨s!"Tasks depend on each other in a cycle: " ++
                String.intercalate " -> " cycle⟩
          | none => .ok ()

end Flowlite.Crud

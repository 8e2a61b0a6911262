import Flowlite.Crud.TaskGraph
import Flowlite.Graph.Cycles
import Mathlib.Data.List.Perm.Subperm

/-!
# The walk through a task graph

The path of the walk is a walk along the dependencies, so coming back to it is a cycle; a
task is remembered once nothing below it is on one (`TaskWalk.Sound`). A path has no task
twice and only tasks with dependencies are gone below, so the walk is no deeper than there
are tasks (`walk_terminates`).
-/

namespace Flowlite.Crud

open Store Host Yaml Flowlite.Graph

variable {dependsOn : String → Option (List String)} {w w' : TaskWalk} {fuel : Nat}
  {taskId : String} {taskIds : List String}

/-- The dependencies as the walk looks them up. -/
def Looks (dependsOn : String → Option (List String)) (a b : String) : Prop :=
  b ∈ (dependsOn a).getD []

/-! ## What a walk finds -/

/-- What a walk carries is right. -/
structure TaskWalk.Sound (dependsOn : String → Option (List String)) (w : TaskWalk) :
    Prop where
  path_nodup : w.path.Nodup
  chain : w.path.IsChain (Looks dependsOn)
  memo : ∀ a ∈ w.acyclicTaskIds, NoCycleBelow (Looks dependsOn) a
  once : w.walked.Nodup
  walked : ∀ a ∈ w.walked, a ∈ w.path ∨ a ∈ w.acyclicTaskIds

/-- The walk comes to `taskId` along a dependency, unless it starts there. -/
def TaskWalk.ComesTo (dependsOn : String → Option (List String)) (w : TaskWalk)
    (taskId : String) : Prop :=
  ∀ last ∈ w.path.getLast?, Looks dependsOn last taskId

/-- What has been found once these tasks have been walked. -/
def Finds (dependsOn : String → Option (List String)) (w : TaskWalk) (taskIds : List String) :
    Option (List String) × TaskWalk → Prop
  | (none, w') => w'.Sound dependsOn ∧ w'.path = w.path ∧
      ∀ a ∈ taskIds, NoCycleBelow (Looks dependsOn) a
  | (some cycle, w') => IsCycle (Looks dependsOn) cycle ∧ w'.walked.Nodup

theorem walkEach_finds {walk : String → TaskWalk → TaskWalk.Outcome}
    (hwalk : ∀ a w r, w.Sound dependsOn → w.ComesTo dependsOn a → walk a w = some r →
      Finds dependsOn w [a] r)
    (hw : w.Sound dependsOn) (hcomes : ∀ a ∈ taskIds, w.ComesTo dependsOn a)
    {r : Option (List String) × TaskWalk} (h : walkEach walk taskIds w = some r) :
    Finds dependsOn w taskIds r := by
  induction taskIds generalizing w with
  | nil =>
      cases h
      exact ⟨hw, rfl, fun a ha => (List.not_mem_nil ha).elim⟩
  | cons a taskIds ih =>
      unfold walkEach at h
      cases hfirst : walk a w with
      | none => rw [hfirst] at h; cases h
      | some first =>
          have hfound := hwalk a w first hw (hcomes a List.mem_cons_self) hfirst
          obtain ⟨_ | cycle, w₁⟩ := first
          · obtain ⟨hw₁, hpath, hbelow⟩ := hfound
            rw [hfirst] at h
            have hlater := ih hw₁ (fun b hb => by
              have hcome := hcomes b (List.mem_cons_of_mem _ hb)
              unfold TaskWalk.ComesTo at hcome ⊢
              rwa [hpath]) h
            obtain ⟨_ | cycle, w₂⟩ := r
            · obtain ⟨hw₂, hpath₂, hrest⟩ := hlater
              refine ⟨hw₂, hpath₂.trans hpath, fun b hb => ?_⟩
              cases hb with
              | head => exact hbelow a List.mem_cons_self
              | tail _ hb => exact hrest b hb
            · exact hlater
          · rw [hfirst] at h
            cases h
            exact hfound

/-- Setting out from a task that is neither on the path nor remembered. -/
theorem TaskWalk.Sound.enter (hw : w.Sound dependsOn) (hcomes : w.ComesTo dependsOn taskId)
    (hpath : taskId ∉ w.path) (hmemo : taskId ∉ w.acyclicTaskIds) :
    TaskWalk.Sound dependsOn
      { w with path := w.path ++ [taskId], walked := w.walked ++ [taskId] } where
  path_nodup := by
    refine hw.path_nodup.append (List.nodup_singleton _) ?_
    rw [List.disjoint_singleton]
    exact hpath
  chain := by
    refine hw.chain.append (.singleton _) ?_
    intro last hlast b hb
    rw [List.head?_singleton, Option.mem_some_iff] at hb
    rw [← hb]
    exact hcomes last hlast
  memo := hw.memo
  once := by
    refine hw.once.append (List.nodup_singleton _) ?_
    rw [List.disjoint_singleton]
    intro hmem
    rcases hw.walked taskId hmem with h | h
    · exact hpath h
    · exact hmemo h
  walked := by
    intro a ha
    rw [List.mem_append] at ha ⊢
    rcases ha with ha | ha
    · rcases hw.walked a ha with h | h
      · exact .inl (.inl h)
      · exact .inr h
    · exact .inl (.inr ha)

/-- Going back from a task below which there is no cycle. -/
theorem TaskWalk.Sound.leave {path : List String} (hw : w.Sound dependsOn)
    (hpath : w.path = path ++ [taskId]) (hbelow : NoCycleBelow (Looks dependsOn) taskId) :
    TaskWalk.Sound dependsOn
      { w with path := path, acyclicTaskIds := taskId :: w.acyclicTaskIds } where
  path_nodup := (List.nodup_append.mp (hpath ▸ hw.path_nodup)).1
  chain := (hpath ▸ hw.chain).left_of_append
  memo := by
    intro a ha
    cases ha with
    | head => exact hbelow
    | tail _ ha => exact hw.memo a ha
  once := hw.once
  walked := by
    intro a ha
    rcases hw.walked a ha with h | h
    · rw [hpath, List.mem_append, List.mem_singleton] at h
      rcases h with h | h
      · exact .inl h
      · exact .inr (h ▸ List.mem_cons_self)
    · exact .inr (List.mem_cons_of_mem _ h)

theorem walkTaskDependencies_finds {r : Option (List String) × TaskWalk}
    (hw : w.Sound dependsOn) (hcomes : w.ComesTo dependsOn taskId)
    (h : walkTaskDependencies dependsOn fuel taskId w = some r) :
    Finds dependsOn w [taskId] r := by
  induction fuel generalizing taskId w r with
  | zero => cases h
  | succ fuel ih =>
      unfold walkTaskDependencies at h
      cases hposition : w.path.idxOf? taskId with
      | some position =>
          rw [hposition] at h
          cases h
          obtain ⟨hlt, hat, -⟩ := List.idxOf?_eq_some_iff.mp hposition
          have hsplit : w.path = w.path.take position ++ taskId :: w.path.drop (position + 1) := by
            rw [← hat, ← List.drop_eq_getElem_cons hlt, List.take_append_drop]
          have hcycle := isCycle_of_mem_path (hsplit ▸ hw.chain) (hsplit ▸ hcomes)
          rw [List.drop_eq_getElem_cons hlt, hat]
          exact ⟨hcycle, hw.once⟩
      | none =>
          have hpath : taskId ∉ w.path := List.idxOf?_eq_none_iff.mp hposition
          simp only [hposition] at h
          by_cases hmemo : w.acyclicTaskIds.contains taskId = true
          · rw [if_pos hmemo] at h
            cases h
            refine ⟨hw, rfl, fun a ha => ?_⟩
            rw [List.mem_singleton.mp ha]
            exact hw.memo taskId (by simpa using hmemo)
          · rw [if_neg hmemo] at h
            have hmemo : taskId ∉ w.acyclicTaskIds := by simpa using hmemo
            generalize hrun : walkEach (walkTaskDependencies dependsOn fuel)
              ((dependsOn taskId).getD [])
              { w with path := w.path ++ [taskId], walked := w.walked ++ [taskId] } = run at h
            cases run with
            | none => cases h
            | some found =>
                have hfound := walkEach_finds (fun a w r => ih) (hw.enter hcomes hpath hmemo)
                  (fun a ha last hlast => by
                    rw [List.getLast?_append, List.getLast?_singleton, Option.some_or,
                      Option.mem_some_iff] at hlast
                    rw [← hlast]
                    exact ha) hrun
                obtain ⟨_ | cycle, w₁⟩ := found
                · obtain ⟨hw₁, hpath₁, hbelow⟩ := hfound
                  cases h
                  have hdone : NoCycleBelow (Looks dependsOn) taskId :=
                    noCycleBelow_of_next hbelow
                  have hback : w₁.path.dropLast = w.path := by
                    rw [hpath₁, List.dropLast_concat]
                  simp only [hback]
                  refine ⟨hw₁.leave hpath₁ hdone, rfl, fun a ha => ?_⟩
                  rw [List.mem_singleton.mp ha]
                  exact hdone
                · cases h
                  exact hfound

/-! ## The walk comes to an end -/

theorem walkEach_path {walk : String → TaskWalk → TaskWalk.Outcome}
    (hwalk : ∀ a w w', walk a w = some (none, w') → w'.path = w.path)
    (h : walkEach walk taskIds w = some (none, w')) : w'.path = w.path := by
  induction taskIds generalizing w with
  | nil => cases h; rfl
  | cons a taskIds ih =>
      unfold walkEach at h
      cases hfirst : walk a w with
      | none => rw [hfirst] at h; cases h
      | some first =>
          rw [hfirst] at h
          obtain ⟨_ | cycle, w₁⟩ := first
          · exact (ih h).trans (hwalk a w w₁ hfirst)
          · cases h

/-- A walk that found no cycle is back where it set out. -/
theorem walkTaskDependencies_path
    (h : walkTaskDependencies dependsOn fuel taskId w = some (none, w')) :
    w'.path = w.path := by
  induction fuel generalizing taskId w w' with
  | zero => cases h
  | succ fuel ih =>
      unfold walkTaskDependencies at h
      split at h
      · cases h
      · split at h
        · cases h; rfl
        · split at h
          · rename_i w₁ hrun
            cases h
            have hpath := walkEach_path (fun a w w' => ih) hrun
            show w₁.path.dropLast = w.path
            rw [hpath, List.dropLast_concat]
          · rename_i hno
            exact absurd h (hno w')

theorem walkEach_terminates {walk : String → TaskWalk → TaskWalk.Outcome}
    (hpath : ∀ a w w', walk a w = some (none, w') → w'.path = w.path)
    (hwalk : ∀ a ∈ taskIds, ∀ w', w'.path = w.path → (walk a w').isSome) :
    (walkEach walk taskIds w).isSome := by
  induction taskIds generalizing w with
  | nil => rfl
  | cons a taskIds ih =>
      obtain ⟨first, hfirst⟩ := Option.isSome_iff_exists.mp (hwalk a List.mem_cons_self w rfl)
      unfold walkEach
      rw [hfirst]
      obtain ⟨_ | cycle, w₁⟩ := first
      · have hback := hpath a w w₁ hfirst
        exact ih fun b hb w₂ hw₂ => hwalk b (List.mem_cons_of_mem _ hb) w₂ (hw₂.trans hback)
      · rfl

/-- The fuel a walk needs: no task is on its path twice, and below a task without
dependencies there is nothing to walk. -/
theorem walkTaskDependencies_terminates (keys : List String)
    (hkeys : ∀ a, (dependsOn a).isSome → a ∈ keys) (hnodup : w.path.Nodup)
    (hpath : w.path ⊆ keys) (hfuel : keys.length < fuel + w.path.length) :
    (walkTaskDependencies dependsOn fuel taskId w).isSome := by
  induction fuel generalizing taskId w with
  | zero =>
      have hle := (hnodup.subperm hpath).length_le
      omega
  | succ fuel ih =>
      unfold walkTaskDependencies
      cases hposition : w.path.idxOf? taskId with
      | some position => rfl
      | none =>
          have hfresh : taskId ∉ w.path := List.idxOf?_eq_none_iff.mp hposition
          dsimp only
          by_cases hmemo : w.acyclicTaskIds.contains taskId = true
          · rw [if_pos hmemo]
            rfl
          · rw [if_neg hmemo]
            have hrun : (walkEach (walkTaskDependencies dependsOn fuel)
                ((dependsOn taskId).getD [])
                { w with path := w.path ++ [taskId], walked := w.walked ++ [taskId] }).isSome := by
              cases hdeps : dependsOn taskId with
              | none => rfl
              | some deps =>
                  have hkey : taskId ∈ keys := hkeys taskId (by rw [hdeps]; rfl)
                  refine walkEach_terminates (fun a w w' => walkTaskDependencies_path)
                    (fun a _ w' hw' => ih ?_ ?_ ?_)
                  · rw [hw']
                    refine hnodup.append (List.nodup_singleton _) ?_
                    rw [List.disjoint_singleton]
                    exact hfresh
                  · rw [hw']
                    exact List.append_subset.mpr
                      ⟨hpath, fun b hb => List.mem_singleton.mp hb ▸ hkey⟩
                  · rw [hw', List.length_append, List.length_singleton]
                    omega
            obtain ⟨found, hfound⟩ := Option.isSome_iff_exists.mp hrun
            rw [hfound]
            obtain ⟨_ | cycle, w₁⟩ := found <;> rfl

/-! ## More fuel changes nothing -/

theorem walkEach_mono {walk walk' : String → TaskWalk → TaskWalk.Outcome}
    (hwalk : ∀ a w r, walk a w = some r → walk' a w = some r)
    {r : Option (List String) × TaskWalk} (h : walkEach walk taskIds w = some r) :
    walkEach walk' taskIds w = some r := by
  induction taskIds generalizing w with
  | nil => exact h
  | cons a taskIds ih =>
      unfold walkEach at h ⊢
      cases hfirst : walk a w with
      | none => rw [hfirst] at h; cases h
      | some first =>
          rw [hfirst] at h
          rw [hwalk a w first hfirst]
          obtain ⟨_ | cycle, w₁⟩ := first
          · exact ih h
          · exact h

theorem walkTaskDependencies_succ {r : Option (List String) × TaskWalk}
    (h : walkTaskDependencies dependsOn fuel taskId w = some r) :
    walkTaskDependencies dependsOn (fuel + 1) taskId w = some r := by
  induction fuel generalizing taskId w r with
  | zero => cases h
  | succ fuel ih =>
      unfold walkTaskDependencies at h ⊢
      cases hposition : w.path.idxOf? taskId with
      | some position =>
          rw [hposition] at h
          exact h
      | none =>
          simp only [hposition] at h ⊢
          by_cases hmemo : w.acyclicTaskIds.contains taskId = true
          · rw [if_pos hmemo] at h ⊢
            exact h
          · rw [if_neg hmemo] at h ⊢
            generalize hrun : walkEach (walkTaskDependencies dependsOn fuel)
              ((dependsOn taskId).getD [])
              { w with path := w.path ++ [taskId], walked := w.walked ++ [taskId] } = run at h
            cases run with
            | none => cases h
            | some found =>
                rw [walkEach_mono (fun a w r => ih) hrun]
                exact h

theorem walkTasks_mono {tasks : List JobYamlTask} {more : Nat}
    {r : Option (List String) × TaskWalk} (h : walkTasks fuel tasks = some r) :
    walkTasks (fuel + more) tasks = some r := by
  induction more with
  | zero => exact h
  | succ more ih => exact walkEach_mono (fun a w r => walkTaskDependencies_succ) ih

/-! ## The tasks of a job -/

variable {tasks : List JobYamlTask}

theorem dependsOnByTaskId_mem {a : String} {deps : List String}
    (h : dependsOnByTaskId tasks a = some deps) :
    ∃ task ∈ tasks, task.id = a ∧ task.dependsOn = deps := by
  obtain ⟨task, hfind, hdeps⟩ := Option.map_eq_some_iff.mp h
  exact ⟨task, List.mem_reverse.mp (List.mem_of_find?_eq_some hfind),
    by simpa using List.find?_some hfind, hdeps⟩

/-- With as much fuel as there are tasks, and one, the walk comes to an end. -/
theorem walkTasks_terminates (tasks : List JobYamlTask) :
    ∃ w, walkTasks (tasks.length + 1) tasks = some (findTaskDependencyCycle tasks, w) := by
  have hsome : (walkTasks (tasks.length + 1) tasks).isSome := by
    refine walkEach_terminates (fun a w w' => walkTaskDependencies_path) fun a _ w' hw' => ?_
    refine walkTaskDependencies_terminates (tasks.map (·.id)) ?_ ?_ ?_ ?_
    · intro b hb
      obtain ⟨deps, hdeps⟩ := Option.isSome_iff_exists.mp hb
      obtain ⟨task, htask, rfl, -⟩ := dependsOnByTaskId_mem hdeps
      exact List.mem_map_of_mem htask
    · rw [hw']
      exact List.nodup_nil
    · rw [hw']
      exact List.nil_subset _
    · rw [List.length_map]
      omega
  obtain ⟨⟨cycle, w⟩, hrun⟩ := Option.isSome_iff_exists.mp hsome
  refine ⟨w, ?_⟩
  unfold findTaskDependencyCycle
  rw [hrun]
  rfl

theorem walkTasks_finds {cycle : Option (List String)} (h : walkTasks fuel tasks = some (cycle, w)) :
    Finds (dependsOnByTaskId tasks) {} (tasks.map (·.id)) (cycle, w) := by
  refine walkEach_finds (fun a w r => walkTaskDependencies_finds) ?_ ?_ h
  · exact ⟨List.nodup_nil, List.isChain_nil, fun a ha => (List.not_mem_nil ha).elim,
      List.nodup_nil, fun a ha => (List.not_mem_nil ha).elim⟩
  · exact fun a _ last hlast => by cases hlast

/-! ## What is asked of the tasks -/

theorem declaredTwice_eq_none :
    declaredTwice taskIds tasks = none ↔
      (tasks.map (·.id)).Nodup ∧ ∀ task ∈ tasks, task.id ∉ taskIds := by
  induction tasks generalizing taskIds with
  | nil => simp [declaredTwice]
  | cons task tasks ih =>
      unfold declaredTwice
      by_cases hseen : task.id ∈ taskIds
      · rw [if_pos (by simpa using hseen)]
        simp [hseen]
      · rw [if_neg (by simpa using hseen), ih]
        simp only [List.map_cons, List.nodup_cons, List.mem_map, not_exists, not_and,
          List.mem_cons, not_or, forall_eq_or_imp, forall_and]
        tauto

theorem dependencyError_eq_none {a b : String} :
    dependencyError taskIds a b = none ↔ b ≠ a ∧ b ∈ taskIds := by
  unfold dependencyError
  by_cases hself : b = a
  · simp [hself]
  · by_cases hmem : b ∈ taskIds <;> simp [hself, hmem]

/-- Everything `validate_job_tasks` asks of the tasks, in its order. -/
theorem validateJobTasks_eq_ok (jobYaml : JobYaml) :
    validateJobTasks jobYaml = .ok () ↔
      declaredTwice [] jobYaml.tasks = none ∧
      (∀ task ∈ jobYaml.tasks, ∀ b ∈ task.dependsOn,
        dependencyError (jobYaml.tasks.map (·.id)) task.id b = none) ∧
      findTaskDependencyCycle jobYaml.tasks = none := by
  unfold validateJobTasks
  have hdeps : (jobYaml.tasks.findSome? fun task =>
      task.dependsOn.findSome? (dependencyError (jobYaml.tasks.map (·.id)) task.id)) = none ↔
      ∀ task ∈ jobYaml.tasks, ∀ b ∈ task.dependsOn,
        dependencyError (jobYaml.tasks.map (·.id)) task.id b = none := by
    simp only [List.findSome?_eq_none_iff]
  rw [← hdeps]
  cases declaredTwice [] jobYaml.tasks with
  | some taskId => simp
  | none =>
      cases jobYaml.tasks.findSome? fun task =>
          task.dependsOn.findSome? (dependencyError (jobYaml.tasks.map (·.id)) task.id) with
      | some e => simp
      | none => cases findTaskDependencyCycle jobYaml.tasks <;> simp

end Flowlite.Crud

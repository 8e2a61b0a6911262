import Flowlite.Crud.Seeding
import Flowlite.Logic.Reruns
import Flowlite.Logic.TaskGraph
import Flowlite.Store.Maps

/-!
# The environment of a spawn

What the layers of `build_task_run_attempt_env` come to. The names flowlite sets are those
of a list, `flowliteVariables`, in which no name stands twice, because the validators of
task ids and parameter names see to it; any other name is the task run's own, and the merge
of `job_run_task_definition` says whose that is.
-/

namespace Flowlite

open Store Host Threads Crud Yaml

/-! ## Names -/

/-- The string begins with the prefix. -/
def HasPrefix (start s : String) : Prop := start.toList <+: s.toList

instance (start s : String) : Decidable (HasPrefix start s) := by
  unfold HasPrefix
  infer_instance

theorem hasPrefix_append (start s : String) : HasPrefix start (start ++ s) := by
  unfold HasPrefix
  rw [String.toList_append]
  exact List.prefix_append _ _

theorem startsWith_iff {start s : String} : s.startsWith start = true ↔ HasPrefix start s :=
  String.startsWith_string_iff

/-- Two prefixes of one length are the same. -/
theorem HasPrefix.unique {a b s : String} (ha : HasPrefix a s) (hb : HasPrefix b s)
    (hlength : a.toList.length = b.toList.length) : a = b :=
  String.toList_inj.mp ((List.prefix_of_prefix_length_le ha hb hlength.le).eq_of_length hlength)

theorem HasPrefix.trans {a b s : String} (hab : HasPrefix a b) (hb : HasPrefix b s) :
    HasPrefix a s :=
  List.IsPrefix.trans hab hb

theorem parameterEnvName_eq (name : String) :
    parameterEnvName name = "FLOWLITE_PARAM_" ++ name.toUpper := by
  unfold parameterEnvName
  simp [toString]

theorem append_right_inj {a b c : String} : a ++ b = a ++ c ↔ b = c := by
  rw [← String.toList_inj, String.toList_append, String.toList_append, List.append_cancel_left_eq,
    String.toList_inj]

/-! ## What the validators establish -/

section Validators

/-- No two parameters have one name once uppercased. -/
theorem nodup_of_collidingParameter {seen : BTreeMap String String} {names : List String}
    (h : collidingParameter seen names = none) :
    (names.map (·.toUpper)).Nodup ∧ ∀ name ∈ names, name.toUpper ∉ seen.keys := by
  induction names generalizing seen with
  | nil => exact ⟨List.nodup_nil, fun name hname => absurd hname List.not_mem_nil⟩
  | cons name rest ih =>
      unfold collidingParameter at h
      dsimp only at h
      cases hseen : seen.get name.toUpper with
      | some other =>
          rw [hseen] at h
          cases h
      | none =>
          rw [hseen] at h
          obtain ⟨hrest, hnew⟩ := ih h
          have hname : name.toUpper ∉ seen.keys := BTreeMap.get_eq_none.mp hseen
          refine ⟨List.nodup_cons.mpr ⟨fun hmem => ?_, hrest⟩, ?_⟩
          · obtain ⟨other, hother, heq⟩ := List.mem_map.mp hmem
            exact hnew other hother (heq ▸ BTreeMap.mem_keys_insert.mpr (.inl rfl))
          · intro other hother
            rcases List.mem_cons.mp hother with rfl | hother
            · exact hname
            · exact fun hmem => hnew other hother (BTreeMap.mem_keys_insert.mpr (.inr hmem))

theorem nodup_parameters {jobId : String} {declared overrides parameters : BTreeMap String String}
    (h : resolveJobParameters jobId declared overrides = .ok parameters) :
    (parameters.map fun e => parameterEnvName e.1).Nodup := by
  unfold resolveJobParameters at h
  split at h
  · cases h
  dsimp only at h
  split at h
  · cases h
  split at h
  · cases h
  · rename_i hnone
    cases h
    have hupper := (nodup_of_collidingParameter hnone).1
    rw [BTreeMap.keys, List.map_map] at hupper
    have hinj : Function.Injective fun s => "FLOWLITE_PARAM_" ++ s :=
      fun a b hab => append_right_inj.mp hab
    have hnames := hupper.map hinj
    rw [List.map_map] at hnames
    simp only [parameterEnvName_eq]
    exact hnames

theorem nodup_of_validateTaskIdsFrom {jobId : String} {seen : BTreeMap String String}
    {tasks : List JobYamlTask} (h : JobYaml.validateTaskIdsFrom jobId seen tasks = .ok ()) :
    (tasks.map fun task => taskInputEnvName task.id).Nodup ∧
      ∀ task ∈ tasks, taskInputEnvName task.id ∉ seen.keys := by
  induction tasks generalizing seen with
  | nil => exact ⟨List.nodup_nil, fun task htask => absurd htask List.not_mem_nil⟩
  | cons task rest ih =>
      unfold JobYaml.validateTaskIdsFrom at h
      split at h
      · cases h
      dsimp only at h
      split at h
      · cases h
      · rename_i hseen
        obtain ⟨hrest, hnew⟩ := ih h
        have hname : taskInputEnvName task.id ∉ seen.keys := BTreeMap.get_eq_none.mp hseen
        refine ⟨List.nodup_cons.mpr ⟨fun hmem => ?_, hrest⟩, ?_⟩
        · obtain ⟨other, hother, heq⟩ := List.mem_map.mp hmem
          exact hnew other hother (heq ▸ BTreeMap.mem_keys_insert.mpr (.inl rfl))
        · intro other hother
          rcases List.mem_cons.mp hother with rfl | hother
          · exact hname
          · exact fun hmem => hnew other hother (BTreeMap.mem_keys_insert.mpr (.inr hmem))

/-- What `from_yaml_str` accepts has been through each of its checks. -/
theorem validate_ok {job : JobYaml} (h : job.validate = .ok ()) :
    job.validateTaskIds = .ok () ∧ job.validateSecretEnv = .ok () ∧
      job.validateEnvNames = .ok () := by
  unfold JobYaml.validate at h
  cases htaskIds : job.validateTaskIds with
  | error e =>
      rw [htaskIds] at h
      cases h
  | ok _ =>
      rw [htaskIds] at h
      cases hsecretEnv : job.validateSecretEnv with
      | error e =>
          rw [hsecretEnv] at h
          cases h
      | ok _ =>
          rw [hsecretEnv] at h
          exact ⟨rfl, rfl, h⟩

theorem forM_ok {α : Type} {xs : List α} {f : α → Except Err Unit} (h : xs.forM f = .ok ()) :
    ∀ x ∈ xs, f x = .ok () := by
  induction xs with
  | nil => exact fun x hx => absurd hx List.not_mem_nil
  | cons x rest ih =>
      have h : (f x >>= fun _ => rest.forM f) = .ok () := h
      cases hx : f x with
      | error e =>
          rw [hx] at h
          cases h
      | ok _ =>
          rw [hx] at h
          exact List.forall_mem_cons.mpr ⟨hx, ih h⟩

/-- At one level, no name is in both blocks. -/
theorem disjoint_of_validateSecretEnv {job : JobYaml} (h : job.validateSecretEnv = .ok ())
    {task : JobYamlTask} (htask : task ∈ job.tasks) :
    ∀ name ∈ task.secretEnv.keys, name ∉ task.env.keys := by
  intro name hname hdeclared
  obtain ⟨⟨_, secretName⟩, hentry, rfl⟩ := List.mem_map.mp hname
  have hblock : (some task.id, task.env, task.secretEnv) ∈ job.blocks :=
    List.mem_cons_of_mem _ (List.mem_map.mpr ⟨task, htask, rfl⟩)
  have hchecked : JobYaml.validateSecretEnvEntry _ task.env _ secretName = .ok () :=
    forM_ok (forM_ok h _ hblock) _ hentry
  unfold JobYaml.validateSecretEnvEntry at hchecked
  split at hchecked
  · cases hchecked
  split at hchecked
  · cases hchecked
  split at hchecked
  · cases hchecked
  · rw [if_pos (BTreeMap.containsKey_iff.mpr hdeclared)] at hchecked
    cases hchecked

end Validators

/-! ## The merge of the job's blocks and the task's -/

section Merge

variable {env secretEnv secrets : BTreeMap String String} {name : String}

theorem get_withoutKeysOf (m names : BTreeMap String String) (name : String) :
    (withoutKeysOf m names).get name = if name ∈ names.keys then none else m.get name := by
  unfold withoutKeysOf
  induction names.keys generalizing m with
  | nil => simp
  | cons key rest ih =>
      rw [List.foldl_cons, ih, BTreeMap.get_remove]
      by_cases hkey : name = key <;> by_cases hrest : name ∈ rest <;> simp [hkey, hrest]

theorem withoutKeysOf_ordered {m : BTreeMap String String} (hm : m.Ordered)
    (names : BTreeMap String String) : (withoutKeysOf m names).Ordered := by
  unfold withoutKeysOf
  induction names.keys generalizing m with
  | nil => exact hm
  | cons key rest ih => exact ih (hm.remove key)

/-- Every secret that is named is there, and goes over the variable of its name. -/
theorem resolveSecrets_ok {taskRun : TaskRun} {entries env' : BTreeMap String String}
    (honce : entries.keys.Nodup)
    (h : resolveSecrets taskRun secrets env entries = .ok env') (name : String) :
    env'.get name = match entries.get name with
      | some secretName => secrets.get secretName
      | none => env.get name := by
  induction entries generalizing env with
  | nil =>
      cases h
      rfl
  | cons entry rest ih =>
      obtain ⟨hnew, hrest⟩ := List.nodup_cons.mp honce
      obtain ⟨key, secretName⟩ := entry
      unfold resolveSecrets at h
      cases hsecret : secrets.get secretName with
      | none =>
          rw [hsecret] at h
          cases h
      | some value =>
          rw [hsecret] at h
          rw [ih hrest h, BTreeMap.get_cons]
          by_cases hkey : name = key
          · have hnone : BTreeMap.get rest key = none := BTreeMap.get_eq_none.mpr hnew
            rw [if_pos hkey, hkey, hnone, BTreeMap.get_insert, if_pos rfl]
            exact hsecret.symm
          · rw [if_neg hkey, BTreeMap.get_insert, if_neg hkey]

/-- What a variable of a task is bound to, by the block of the file that declares it. -/
def declaredValue (job : JobYaml) (task : JobYamlTask) (secrets : BTreeMap String String)
    (name : String) : Option String :=
  match task.env.get name with
  | some value => some value
  | none =>
      match task.secretEnv.get name with
      | some secretName => secrets.get secretName
      | none =>
          match job.secretEnv.get name with
          | some secretName => secrets.get secretName
          | none => job.env.get name

/-- The merge and the secrets together bind a name as it is declared. -/
theorem get_declared {defaults : AppConfigJobDefaults} {job : JobYaml} {task : JobYamlTask}
    {definition : JobRunTaskDefinition} {taskRun : TaskRun} {env : BTreeMap String String}
    (hdefinition : definition =
      jobRunTaskDefinition (taskRow defaults job.id task) (jobRow defaults job))
    (hjob : job.secretEnv.Ordered) (henv : task.env.Ordered)
    (hsecretEnv : task.secretEnv.Ordered)
    (hdisjoint : ∀ name ∈ task.secretEnv.keys, name ∉ task.env.keys)
    (h : resolveSecrets taskRun secrets definition.env definition.secretEnv = .ok env)
    (name : String) : env.get name = declaredValue job task secrets name := by
  subst hdefinition
  have hordered : BTreeMap.Ordered (withoutKeysOf (job.secretEnv.extend task.secretEnv) task.env) :=
    withoutKeysOf_ordered (hjob.extend task.secretEnv) task.env
  refine (resolveSecrets_ok hordered.nodup h name).trans ?_
  have hsecret : (withoutKeysOf (job.secretEnv.extend task.secretEnv) task.env).get name =
      if name ∈ task.env.keys then none
      else (task.secretEnv.get name).or (job.secretEnv.get name) := by
    rw [← BTreeMap.get_extend hsecretEnv.nodup]
    exact get_withoutKeysOf _ _ _
  have hplain : (withoutKeysOf (job.env.extend task.env) task.secretEnv).get name =
      if name ∈ task.secretEnv.keys then none
      else (task.env.get name).or (job.env.get name) := by
    rw [← BTreeMap.get_extend henv.nodup]
    exact get_withoutKeysOf _ _ _
  show (match (withoutKeysOf (job.secretEnv.extend task.secretEnv) task.env).get name with
    | some secretName => secrets.get secretName
    | none => (withoutKeysOf (job.env.extend task.env) task.secretEnv).get name) = _
  rw [hsecret, hplain]
  unfold declaredValue
  cases hown : task.env.get name with
  | some value =>
      have hkey : name ∈ task.env.keys := BTreeMap.isSome_get.mp (by rw [hown]; rfl)
      have hother : name ∉ task.secretEnv.keys := fun hmem => hdisjoint name hmem hkey
      rw [if_pos hkey, if_neg hother]
      rfl
  | none =>
      rw [if_neg (BTreeMap.get_eq_none.mp hown)]
      cases hownSecret : task.secretEnv.get name with
      | some secretName => rfl
      | none =>
          rw [if_neg (BTreeMap.get_eq_none.mp hownSecret)]
          rfl

end Merge

/-! ## The results of dependencies -/

/-- The results a task run is handed: of its dependencies, by their task ids. -/
structure ResultsOf (taskRun : TaskRun) (inputs : BTreeMap String String) : Prop where
  once : inputs.keys.Nodup
  dependencies : inputs.keys ⊆ taskRun.dependsOn

section Results

variable (dir : String) (outputs : BTreeMap String Nat)

/-- What `get_inputs` collects for the dependencies, over what it has already. -/
def collectInputs (inputs : BTreeMap String String) (taskIds : List String) :
    BTreeMap String String :=
  taskIds.foldl (fun inputs taskId =>
    match outputs.get taskId with
    | none => inputs
    | some attempt => BTreeMap.insert inputs taskId (taskOutputPath dir taskId attempt)) inputs

/-- A result goes in under the task id of a dependency. -/
theorem collectInputs_cons (inputs : BTreeMap String String) (taskId : String)
    (rest : List String) : collectInputs dir outputs inputs (taskId :: rest) =
      match outputs.get taskId with
      | none => collectInputs dir outputs inputs rest
      | some attempt => collectInputs dir outputs
          (BTreeMap.insert inputs taskId (taskOutputPath dir taskId attempt)) rest := by
  unfold collectInputs
  rw [List.foldl_cons]
  cases outputs.get taskId <;> rfl

variable {dir}

theorem collectInputs_ordered {inputs : BTreeMap String String} (h : inputs.Ordered)
    (taskIds : List String) : (collectInputs dir outputs inputs taskIds).Ordered := by
  induction taskIds generalizing inputs with
  | nil => exact h
  | cons taskId rest ih =>
      rw [collectInputs_cons]
      cases outputs.get taskId with
      | none => exact ih h
      | some attempt => exact ih (h.insert _ _)

variable (dir) in
/-- A dependency is looked up as the number of its attempt says. -/
theorem get_collectInputs (inputs : BTreeMap String String) (taskIds : List String)
    (taskId : String) : (collectInputs dir outputs inputs taskIds).get taskId =
      if taskId ∈ taskIds then
        ((outputs.get taskId).map (taskOutputPath dir taskId)).or (inputs.get taskId)
      else inputs.get taskId := by
  induction taskIds generalizing inputs with
  | nil => rfl
  | cons other rest ih =>
      rw [collectInputs_cons]
      cases houtput : outputs.get other with
      | none =>
          dsimp only
          rw [ih]
          by_cases hother : taskId = other
          · subst hother
            simp [houtput]
          · simp [hother]
      | some attempt =>
          dsimp only
          rw [ih, BTreeMap.get_insert]
          by_cases hother : taskId = other
          · subst hother
            simp [houtput]
          · simp [hother]

theorem resultsOf_collected {taskRun : TaskRun} : ResultsOf taskRun
    (collectInputs dir outputs [] taskRun.dependsOn) where
  once := (collectInputs_ordered outputs List.Pairwise.nil _).nodup
  dependencies taskId hmem := by
    by_contra hnot
    have hget := get_collectInputs dir outputs [] taskRun.dependsOn taskId
    rw [if_neg hnot] at hget
    exact BTreeMap.get_eq_none.mp hget hmem

end Results

/-! ## The names flowlite sets -/

section Variables

variable (lib : Library) (taskRun : TaskRun) (jobRun : JobRun) (attempt : TaskRunAttempt)
  (dataDir jobRunDir : String) (inputs : BTreeMap String String)
  (previousAttempt : Option PreviousAttemptFiles)

def metadataVariables : List (String × String) :=
  [("FLOWLITE_DATA_DIR", dataDir),
   ("FLOWLITE_JOB_ID", jobRun.jobId),
   ("FLOWLITE_JOB_RUN_ID", toString jobRun.id),
   ("FLOWLITE_TASK_ID", taskRun.taskId),
   ("FLOWLITE_TASK_RUN_ID", toString taskRun.id),
   ("FLOWLITE_TASK_RUN_ATTEMPT_ID", toString attempt.id),
   ("FLOWLITE_ATTEMPT", toString attempt.attempt),
   ("FLOWLITE_SCHEDULED_AT", lib.toRfc3339 jobRun.scheduledAt),
   ("FLOWLITE_TASK_OUTPUT", taskOutputPath jobRunDir taskRun.taskId attempt.attempt)]

def previousAttemptVariables : List (String × String) :=
  match previousAttempt with
  | none => []
  | some previous =>
      ("FLOWLITE_PREVIOUS_ATTEMPT_LOG", previous.log) ::
        (previous.output.map fun output => ("FLOWLITE_PREVIOUS_ATTEMPT_OUTPUT", output)).toList

/-- Every variable flowlite sets itself, with its value: the parameters, the run's metadata,
the results of dependencies, and the files of the attempt before. -/
def flowliteVariables : List (String × String) :=
  (jobRun.parameters.map fun e => ("FLOWLITE_PARAM_" ++ e.1.toUpper, e.2)) ++
    (metadataVariables lib taskRun jobRun attempt dataDir jobRunDir ++
      ((inputs.map fun e => (taskInputEnvName e.1, e.2)) ++
        previousAttemptVariables previousAttempt))

variable {lib taskRun jobRun attempt dataDir jobRunDir inputs previousAttempt}
  {secrets env : BTreeMap String String}

theorem extend_append (m a b : BTreeMap String String) :
    m.extend (a ++ b) = (m.extend a).extend b := List.foldl_append ..

/-- The layers, one over the other. -/
theorem build_ok (h : buildTaskRunAttemptEnv lib taskRun jobRun attempt dataDir jobRunDir inputs
    previousAttempt secrets = .ok env) :
    ∃ own, resolveSecrets taskRun secrets taskRun.env taskRun.secretEnv = .ok own ∧
      env = BTreeMap.extend (own.filter fun e => !e.1.startsWith "FLOWLITE_")
        (flowliteVariables lib taskRun jobRun attempt dataDir jobRunDir inputs
          previousAttempt) := by
  unfold buildTaskRunAttemptEnv at h
  cases hown : resolveSecrets taskRun secrets taskRun.env taskRun.secretEnv with
  | error e =>
      rw [hown] at h
      cases h
  | ok own =>
      rw [hown] at h
      refine ⟨own, rfl, ?_⟩
      unfold flowliteVariables
      rw [extend_append, extend_append, extend_append]
      cases previousAttempt with
      | none =>
          cases h
          simp only [parameterEnvName_eq]
          rfl
      | some previous =>
          obtain ⟨log, output⟩ := previous
          cases output with
          | none =>
              cases h
              simp only [parameterEnvName_eq]
              rfl
          | some output =>
              cases h
              simp only [parameterEnvName_eq]
              rfl

/-- A name that neither a parameter nor a dependency can have. -/
def Apart (name : String) : Prop :=
  ¬ HasPrefix "FLOWLITE_PARAM_" name ∧ ¬ HasPrefix "FLOWLITE_INPUT_" name

instance (name : String) : Decidable (Apart name) := by
  unfold Apart
  infer_instance

theorem taskInputEnvName_hasPrefix (taskId : String) :
    HasPrefix "FLOWLITE_INPUT_" (taskInputEnvName taskId) := hasPrefix_append _ _

/-- A parameter is no dependency. -/
theorem not_parameter_of_input {name : String} (h : HasPrefix "FLOWLITE_INPUT_" name) :
    ¬ HasPrefix "FLOWLITE_PARAM_" name := by
  intro hparameter
  have heq := hparameter.unique h (by decide)
  revert heq
  decide

theorem previous_names : ((previousAttemptVariables previousAttempt).map (·.1)).Sublist
    ["FLOWLITE_PREVIOUS_ATTEMPT_LOG", "FLOWLITE_PREVIOUS_ATTEMPT_OUTPUT"] := by
  cases previousAttempt with
  | none => exact List.nil_sublist _
  | some previous =>
      obtain ⟨log, output⟩ := previous
      cases output with
      | none => exact (List.nil_sublist _).cons_cons _
      | some output => exact List.Sublist.refl _

/-- The names that are always the same. -/
def fixedNames : List String :=
  ["FLOWLITE_DATA_DIR", "FLOWLITE_JOB_ID", "FLOWLITE_JOB_RUN_ID", "FLOWLITE_TASK_ID",
   "FLOWLITE_TASK_RUN_ID", "FLOWLITE_TASK_RUN_ATTEMPT_ID", "FLOWLITE_ATTEMPT",
   "FLOWLITE_SCHEDULED_AT", "FLOWLITE_TASK_OUTPUT", "FLOWLITE_PREVIOUS_ATTEMPT_LOG",
   "FLOWLITE_PREVIOUS_ATTEMPT_OUTPUT"]

theorem fixedNames_apart : ∀ name ∈ fixedNames, Apart name ∧ HasPrefix "FLOWLITE_" name := by
  decide

variable (lib taskRun jobRun attempt dataDir jobRunDir previousAttempt) in
theorem fixed_names : ((metadataVariables lib taskRun jobRun attempt dataDir jobRunDir).map (·.1) ++
    (previousAttemptVariables previousAttempt).map (·.1)).Sublist fixedNames :=
  (List.append_sublist_append_left _).mpr previous_names

/-- The variables flowlite sets but for those of the parameters. -/
def ownVariables (lib : Library) (taskRun : TaskRun) (jobRun : JobRun) (attempt : TaskRunAttempt)
    (dataDir jobRunDir : String) (inputs : BTreeMap String String)
    (previousAttempt : Option PreviousAttemptFiles) : List (String × String) :=
  metadataVariables lib taskRun jobRun attempt dataDir jobRunDir ++
    ((inputs.map fun e => (taskInputEnvName e.1, e.2)) ++ previousAttemptVariables previousAttempt)

theorem flowliteVariables_eq :
    flowliteVariables lib taskRun jobRun attempt dataDir jobRunDir inputs previousAttempt =
      (jobRun.parameters.map fun e => ("FLOWLITE_PARAM_" ++ e.1.toUpper, e.2)) ++
        ownVariables lib taskRun jobRun attempt dataDir jobRunDir inputs previousAttempt := rfl

/-- Their names: the results go in between names that are always the same. -/
theorem ownVariables_names :
    ((ownVariables lib taskRun jobRun attempt dataDir jobRunDir inputs previousAttempt).map
      (·.1)).Perm ((inputs.map fun e => taskInputEnvName e.1) ++
        ((metadataVariables lib taskRun jobRun attempt dataDir jobRunDir).map (·.1) ++
          (previousAttemptVariables previousAttempt).map (·.1))) := by
  unfold ownVariables
  rw [List.map_append, List.map_append, List.map_map, ← List.append_assoc, ← List.append_assoc]
  exact List.perm_append_comm.append_right _

theorem nodup_ownVariables (hinputs : (inputs.map fun e => taskInputEnvName e.1).Nodup) :
    ((ownVariables lib taskRun jobRun attempt dataDir jobRunDir inputs previousAttempt).map
      (·.1)).Nodup := by
  have hfixed := fixed_names lib taskRun jobRun attempt dataDir jobRunDir previousAttempt
  refine ownVariables_names.nodup_iff.mpr (hinputs.append ?_ fun name hname hother => ?_)
  · exact (by decide : fixedNames.Nodup).sublist hfixed
  · obtain ⟨e, -, rfl⟩ := List.mem_map.mp hname
    exact (fixedNames_apart _ (hfixed.mem hother)).1.2 (taskInputEnvName_hasPrefix e.1)

/-- None of them has the name of a parameter. -/
theorem not_parameter_of_own {name : String}
    (h : name ∈ (ownVariables lib taskRun jobRun attempt dataDir jobRunDir inputs
      previousAttempt).map (·.1)) : ¬ HasPrefix "FLOWLITE_PARAM_" name := by
  have hfixed := fixed_names lib taskRun jobRun attempt dataDir jobRunDir previousAttempt
  rcases List.mem_append.mp (ownVariables_names.mem_iff.mp h) with h | h
  · obtain ⟨e, -, rfl⟩ := List.mem_map.mp h
    exact not_parameter_of_input (taskInputEnvName_hasPrefix e.1)
  · exact (fixedNames_apart name (hfixed.mem h)).1.1

/-- No two of the variables flowlite sets have one name. -/
theorem nodup_flowliteVariables
    (hparameters : (jobRun.parameters.map fun e => parameterEnvName e.1).Nodup)
    (hinputs : (inputs.map fun e => taskInputEnvName e.1).Nodup) :
    ((flowliteVariables lib taskRun jobRun attempt dataDir jobRunDir inputs
      previousAttempt).map (·.1)).Nodup := by
  have hnames : (flowliteVariables lib taskRun jobRun attempt dataDir jobRunDir inputs
      previousAttempt).map (·.1) = (jobRun.parameters.map fun e => parameterEnvName e.1) ++
        (ownVariables lib taskRun jobRun attempt dataDir jobRunDir inputs previousAttempt).map
          (·.1) := by
    rw [flowliteVariables_eq, List.map_append, List.map_map]
    simp only [parameterEnvName_eq]
    rfl
  rw [hnames]
  refine hparameters.append (nodup_ownVariables hinputs) fun name hname hother => ?_
  obtain ⟨e, -, rfl⟩ := List.mem_map.mp hname
  exact not_parameter_of_own hother (parameterEnvName_eq e.1 ▸ hasPrefix_append _ _)

/-- What is under flowlite's prefix and no parameter is what flowlite sets. -/
theorem get_own (h : buildTaskRunAttemptEnv lib taskRun jobRun attempt dataDir jobRunDir inputs
      previousAttempt secrets = .ok env)
    (hinputs : (inputs.map fun e => taskInputEnvName e.1).Nodup) {name : String}
    (hname : HasPrefix "FLOWLITE_" name) (hparameter : ¬ HasPrefix "FLOWLITE_PARAM_" name) :
    env.get name = BTreeMap.get (ownVariables lib taskRun jobRun attempt dataDir jobRunDir inputs
      previousAttempt) name := by
  obtain ⟨own, -, rfl⟩ := build_ok h
  rw [flowliteVariables_eq, extend_append, BTreeMap.get_extend (nodup_ownVariables hinputs)]
  have hnone : BTreeMap.get (BTreeMap.extend (own.filter fun e => !e.1.startsWith "FLOWLITE_")
      (jobRun.parameters.map fun e => ("FLOWLITE_PARAM_" ++ e.1.toUpper, e.2))) name = none := by
    refine BTreeMap.get_eq_none.mpr fun hmem => ?_
    rcases BTreeMap.mem_keys_extend.mp hmem with hmem | hmem
    · obtain ⟨e, he, rfl⟩ := List.mem_map.mp hmem
      have hstays := (List.mem_filter.mp he).2
      rw [startsWith_iff.mpr hname] at hstays
      cases hstays
    · obtain ⟨e, he, rfl⟩ := List.mem_map.mp hmem
      obtain ⟨parameter, -, rfl⟩ := List.mem_map.mp he
      exact hparameter (hasPrefix_append _ _)
  rw [hnone, Option.or_none]

/-- Where the command is to write its result. -/
theorem get_taskOutput (h : buildTaskRunAttemptEnv lib taskRun jobRun attempt dataDir jobRunDir
      inputs previousAttempt secrets = .ok env)
    (hinputs : (inputs.map fun e => taskInputEnvName e.1).Nodup) :
    env.get "FLOWLITE_TASK_OUTPUT" =
      some (taskOutputPath jobRunDir taskRun.taskId attempt.attempt) := by
  rw [get_own h hinputs (by decide) (by decide)]
  refine BTreeMap.get_of_mem (nodup_ownVariables hinputs) (List.mem_append_left _ ?_)
  exact List.mem_of_getElem? (i := 8) rfl

/-- A variable of a dependency is one of the results. -/
theorem mem_inputs_of_own {name : String} (hname : HasPrefix "FLOWLITE_INPUT_" name)
    (h : name ∈ (ownVariables lib taskRun jobRun attempt dataDir jobRunDir inputs
      previousAttempt).map (·.1)) : ∃ e ∈ inputs, name = taskInputEnvName e.1 := by
  have hfixed := fixed_names lib taskRun jobRun attempt dataDir jobRunDir previousAttempt
  rcases List.mem_append.mp (ownVariables_names.mem_iff.mp h) with h | h
  · obtain ⟨e, he, heq⟩ := List.mem_map.mp h
    exact ⟨e, he, heq.symm⟩
  · exact absurd hname (fixedNames_apart name (hfixed.mem h)).1.2

/-- What is under a dependency's name is its result, if there is one. -/
theorem get_taskInput (h : buildTaskRunAttemptEnv lib taskRun jobRun attempt dataDir jobRunDir
      inputs previousAttempt secrets = .ok env)
    (hinputs : (inputs.map fun e => taskInputEnvName e.1).Nodup) {taskId : String}
    (hinj : ∀ e ∈ inputs, taskInputEnvName e.1 = taskInputEnvName taskId → e.1 = taskId) :
    env.get (taskInputEnvName taskId) = inputs.get taskId := by
  have hprefix := taskInputEnvName_hasPrefix taskId
  rw [get_own h hinputs (HasPrefix.trans (by decide) hprefix) (not_parameter_of_input hprefix)]
  cases hget : inputs.get taskId with
  | some path =>
      refine BTreeMap.get_of_mem (nodup_ownVariables hinputs) (List.mem_append_right _
        (List.mem_append_left _ (List.mem_map.mpr ⟨(taskId, path), BTreeMap.mem_of_get hget, rfl⟩)))
  | none =>
      refine BTreeMap.get_eq_none.mpr fun hmem => ?_
      obtain ⟨e, he, heq⟩ := mem_inputs_of_own hprefix hmem
      have hid := hinj e he heq.symm
      exact BTreeMap.get_eq_none.mp hget (hid ▸ List.mem_map_of_mem he)

/-- Every one of them is under flowlite's own prefix. -/
theorem hasPrefix_flowliteVariables {name : String}
    (h : name ∈ (flowliteVariables lib taskRun jobRun attempt dataDir jobRunDir inputs
      previousAttempt).map (·.1)) : HasPrefix "FLOWLITE_" name := by
  have hfixed := fixed_names lib taskRun jobRun attempt dataDir jobRunDir previousAttempt
  unfold flowliteVariables at h
  rw [List.map_append, List.map_append, List.map_append, List.map_map, List.map_map] at h
  rcases List.mem_append.mp h with h | h
  · obtain ⟨e, -, rfl⟩ := List.mem_map.mp h
    exact HasPrefix.trans (by decide) (hasPrefix_append "FLOWLITE_PARAM_" _)
  rcases List.mem_append.mp h with h | h
  · exact (fixedNames_apart name (hfixed.mem (List.mem_append_left _ h))).2
  rcases List.mem_append.mp h with h | h
  · obtain ⟨e, -, rfl⟩ := List.mem_map.mp h
    exact HasPrefix.trans (by decide) (taskInputEnvName_hasPrefix e.1)
  · exact (fixedNames_apart name (hfixed.mem (List.mem_append_right _ h))).2

end Variables

end Flowlite

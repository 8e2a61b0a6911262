import Flowlite.Host.World

/-!
# Job files

A job as its YAML file declares it, and what `JobYaml::from_yaml_str` checks once the file
is parsed. A field the file may leave out is an `Option` where flowlite.toml has the
default, and empty otherwise.
-/

namespace Flowlite.Yaml

open Store Host

structure JobYamlTask where
  id : String
  command : String
  stdin : String := ""
  dependsOn : List String := []
  limits : List String := []
  timeout : Option Nat := none
  idleTimeout : Option Nat := none
  maxRetries : Option Nat := none
  retryDelay : Option Nat := none
  env : BTreeMap String String := []
  secretEnv : BTreeMap String String := []
  workingDir : String := ""

/-- Who to tell about one way a run can end, channel by channel. -/
structure JobYamlNotify where
  email : List String := []
  slack : List String := []

structure JobYaml where
  id : String
  name : String
  description : String := ""
  maxParallelRuns : Option Nat := none
  keepRuns : Option Nat := none
  parameters : BTreeMap String String := []
  env : BTreeMap String String := []
  secretEnv : BTreeMap String String := []
  limits : List String := []
  onFailure : JobYamlNotify := {}
  onSuccess : JobYamlNotify := {}
  tasks : List JobYamlTask := []

def isValidTaskId (id : String) : Bool :=
  !id.isEmpty && id.toList.all fun c => c.isAlphanum || c = '-' || c = '_'

/-- The variable a dependent task reads this task's result path from, as the parser has
it. -/
def taskInputEnvName (taskId : String) : String :=
  "FLOWLITE_INPUT_" ++ taskId.toUpper.map fun c => if c = '-' then '_' else c

def isValidEnvVarName (name : String) : Bool :=
  match name.toList with
  | [] => false
  | first :: rest =>
      (first.isAlpha || first = '_') && rest.all fun c => c.isAlphanum || c = '_'

/-- Two underscores one after the other. -/
def hasDoubleUnderscore : List Char → Bool
  | '_' :: '_' :: _ => true
  | _ :: rest => hasDoubleUnderscore rest
  | [] => false

def isValidSecretName (name : String) : Bool :=
  !name.isEmpty && !hasDoubleUnderscore name.toList &&
    name.toList.all fun c => c.isLower || c.isDigit || c = '_'

/-- Whose `env` and `secret_env` an error is about. -/
def blockSubject (jobId : String) : Option String → String
  | some taskId => s!"Job '{jobId}' task '{taskId}'"
  | none => s!"Job '{jobId}'"

namespace JobYaml

/-- Each task in turn, with the variable names of those before it. -/
def validateTaskIdsFrom (jobId : String) (seenInputNames : BTreeMap String String) :
    List JobYamlTask → Except Err Unit
  | [] => .ok ()
  | task :: tasks =>
      if !isValidTaskId task.id then
        .error ⟨s!"Job '{jobId}' has a task with id '{task.id}'. A task id may contain only " ++
          "ASCII letters, digits, hyphens and underscores: it names a file inside the run's " ++
          "directory, where a path separator would write outside it, and it names the " ++
          "FLOWLITE_INPUT_ variable every dependent task reads its result from."⟩
      else
        let inputName := taskInputEnvName task.id
        match seenInputNames.get inputName with
        | some otherTaskId =>
            .error ⟨s!"Job '{jobId}' has tasks '{otherTaskId}' and '{task.id}', which both " ++
              s!"name {inputName}. A hyphen and an underscore are the same character in a " ++
              "variable name, so a task depending on both would be given one path twice and " ++
              "could not tell which result it had."⟩
        | none =>
            validateTaskIdsFrom jobId (BTreeMap.insert seenInputNames inputName task.id) tasks

def validateTaskIds (job : JobYaml) : Except Err Unit :=
  validateTaskIdsFrom job.id [] job.tasks

/-- The blocks a name may be declared in: the job's own, then each task's. -/
def blocks (job : JobYaml) :
    List (Option String × BTreeMap String String × BTreeMap String String) :=
  (none, job.env, job.secretEnv) ::
    job.tasks.map fun task => (some task.id, task.env, task.secretEnv)

/-- `Err` for the first name of a block that starts with `FLOWLITE_`. -/
def validateEnvNames (job : JobYaml) : Except Err Unit :=
  job.blocks.forM fun (taskId, env, _) =>
    match env.keys.find? (·.startsWith "FLOWLITE_") with
    | some name =>
        .error ⟨s!"{blockSubject job.id taskId} has an env variable named '{name}', which " ++
          "starts with FLOWLITE_. That prefix belongs to flowlite, which sets the variables " ++
          "under it itself and drops any other from env: before the command starts."⟩
    | none => .ok ()

/-- One entry of a `secret_env` block, beside the `env` of the same level. -/
def validateSecretEnvEntry (subject : String) (env : BTreeMap String String)
    (variableName secretName : String) : Except Err Unit :=
  if !isValidEnvVarName variableName then
    .error ⟨s!"{subject} has a secret_env variable named '{variableName}', which is not a " ++
      "valid environment variable name. A variable name may contain only ASCII letters, " ++
      "digits and underscores, and may not start with a digit."⟩
  else if variableName.startsWith "FLOWLITE_" then
    .error ⟨s!"{subject} has a secret_env variable named '{variableName}', which starts with " ++
      "FLOWLITE_. Run metadata is applied last under that prefix and would silently " ++
      "overwrite it, leaving the task without its credential."⟩
  else if !isValidSecretName secretName then
    .error ⟨s!"{subject} names secret '{secretName}' for variable '{variableName}', which is " ++
      "not a valid secret name. A secret name may contain only lowercase ASCII letters, " ++
      "digits and underscores, and may not contain a double underscore: flowlite.toml can " ++
      "hold any other character but FLOWLITE_SECRETS__* cannot reach it, and __ is the " ++
      "separator that form uses for nested keys, so FLOWLITE_SECRETS__A__B sets a.b rather " ++
      "than a__b. Either way the name would work on a development box and be unreachable in " ++
      "production."⟩
  else if env.containsKey variableName then
    .error ⟨s!"{subject} declares '{variableName}' in both env and secret_env. A name may " ++
      "appear in only one of the two blocks at the same level; a job-level env or secret_env " ++
      "may still be overridden by the other block on a task."⟩
  else .ok ()

def validateSecretEnvBlock (jobId : String) (taskId : Option String)
    (env secretEnv : BTreeMap String String) : Except Err Unit :=
  secretEnv.forM fun (variableName, secretName) =>
    validateSecretEnvEntry (blockSubject jobId taskId) env variableName secretName

def validateSecretEnv (job : JobYaml) : Except Err Unit :=
  job.blocks.forM fun (taskId, env, secretEnv) =>
    validateSecretEnvBlock job.id taskId env secretEnv

/-- What `from_yaml_str` checks of a file that parses. -/
def validate (job : JobYaml) : Except Err Unit := do
  job.validateTaskIds
  job.validateSecretEnv
  job.validateEnvNames

end JobYaml

end Flowlite.Yaml

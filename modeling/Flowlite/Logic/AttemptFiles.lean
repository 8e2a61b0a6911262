import Std.Data.String.ToNat
import Flowlite.Logic.SpawnEnvironment

/-!
# The files of an attempt

The result and the log of an attempt are named after its task and its number, and a task
id has neither a dot nor a slash in it. So a name is the name of one file of one attempt,
and all of them are entries of the run's output directory.

* `Files` is what an attempt of a run has in a directory;
* `files_apart`: those of two attempts are four different paths;
* `output_entry` and `log_entry` say where they lie.
-/

namespace Flowlite

open Yaml

/-! ## A text up to a separator -/

/-- Two texts with a separator in them are the same up to the first one, and from there on. -/
theorem cut_inj {sep : Char} {name name' rest rest' : List Char} (hname : sep ∉ name)
    (hname' : sep ∉ name') (h : name ++ sep :: rest = name' ++ sep :: rest') :
    name = name' ∧ rest = rest' := by
  induction name generalizing name' with
  | nil =>
      cases name' with
      | nil => exact ⟨rfl, (List.cons.inj h).2⟩
      | cons c cs => exact absurd (List.mem_cons.mpr (.inl (List.cons.inj h).1)) hname'
  | cons c cs ih =>
      cases name' with
      | nil => exact absurd (List.mem_cons.mpr (.inl (List.cons.inj h).1.symm)) hname
      | cons c' cs' =>
          obtain ⟨hhead, htail⟩ := List.cons.inj h
          obtain ⟨hname, hrest⟩ := ih (fun hmem => hname (List.mem_cons_of_mem c hmem))
            (fun hmem => hname' (List.mem_cons_of_mem c' hmem)) htail
          exact ⟨by rw [hhead, hname], hrest⟩

/-- They are the same from the last one on. -/
theorem last_cut_inj {sep : Char} {front front' name name' : List Char} (hname : sep ∉ name)
    (hname' : sep ∉ name') (h : front ++ sep :: name = front' ++ sep :: name') : name = name' := by
  have hreversed := congrArg List.reverse h
  simp only [List.reverse_append, List.reverse_cons, List.append_assoc, List.singleton_append]
    at hreversed
  have hnames := (cut_inj (fun hmem => hname (List.mem_reverse.mp hmem))
    (fun hmem => hname' (List.mem_reverse.mp hmem)) hreversed).1
  exact List.reverse_injective hnames

theorem isDigit_of_mem_repr {n : Nat} {c : Char} (h : c ∈ (toString n).toList) :
    c.isDigit = true := by
  have h : c ∈ n.repr.toList := h
  rw [Nat.toList_repr] at h
  exact Nat.isDigit_of_mem_toDigits (by decide) (by decide) h

/-- The characters a task id is made of. -/
theorem isValidTaskId_iff {id : String} : isValidTaskId id = true ↔
    id ≠ "" ∧ ∀ c ∈ id.toList, (c.isAlphanum || c = '-' || c = '_') = true := by
  unfold isValidTaskId
  rw [Bool.and_eq_true, List.all_eq_true]
  refine and_congr_left' ?_
  simp

theorem isValidTaskId_not_mem {id : String} (h : isValidTaskId id = true) {c : Char}
    (hc : (c.isAlphanum || c = '-' || c = '_') = false) : c ∉ id.toList := by
  intro hmem
  rw [(isValidTaskId_iff.mp h).2 c hmem] at hc
  cases hc

/-! ## The names -/

/-- What the result of an attempt is named in the output directory. -/
def outputName (taskId : String) (attempt : Nat) : String := s!"{taskId}.{attempt}"

/-- What its log is named. -/
def logName (taskId : String) (attempt : Nat) : String := s!"{taskId}.{attempt}.log"

theorem taskOutputPath_eq (jobRunDir taskId : String) (attempt : Nat) :
    taskOutputPath jobRunDir taskId attempt =
      jobRunDir ++ "/.output/" ++ outputName taskId attempt := by
  show jobRunDir ++ "/.output/" ++ taskId ++ "." ++ toString attempt =
    jobRunDir ++ "/.output/" ++ (taskId ++ "." ++ toString attempt)
  simp only [String.append_assoc]

theorem taskLogPath_eq (jobRunDir taskId : String) (attempt : Nat) :
    taskLogPath jobRunDir taskId attempt = jobRunDir ++ "/.output/" ++ logName taskId attempt := by
  show jobRunDir ++ "/.output/" ++ taskId ++ "." ++ toString attempt ++ ".log" =
    jobRunDir ++ "/.output/" ++ (taskId ++ "." ++ toString attempt ++ ".log")
  simp only [String.append_assoc]

theorem toList_outputName (taskId : String) (attempt : Nat) :
    (outputName taskId attempt).toList = taskId.toList ++ '.' :: (toString attempt).toList := by
  show (taskId ++ "." ++ toString attempt).toList = _
  simp only [String.toList_append, List.append_assoc]
  rfl

theorem toList_logName (taskId : String) (attempt : Nat) :
    (logName taskId attempt).toList =
      taskId.toList ++ '.' :: ((toString attempt).toList ++ ".log".toList) := by
  show (taskId ++ "." ++ toString attempt ++ ".log").toList = _
  simp only [String.toList_append, List.append_assoc]
  rfl

section Names

variable {taskId taskId' : String} {attempt attempt' : Nat}

theorem toString_inj (h : (toString attempt).toList = (toString attempt').toList) :
    attempt = attempt' := Nat.repr_injective (String.toList_injective h)

theorem outputName_inj (hid : isValidTaskId taskId = true) (hid' : isValidTaskId taskId' = true)
    (h : outputName taskId attempt = outputName taskId' attempt') :
    taskId = taskId' ∧ attempt = attempt' := by
  have hlists := congrArg String.toList h
  rw [toList_outputName, toList_outputName] at hlists
  obtain ⟨hname, hnumber⟩ := cut_inj (isValidTaskId_not_mem hid rfl)
    (isValidTaskId_not_mem hid' rfl) hlists
  exact ⟨String.toList_injective hname, toString_inj hnumber⟩

theorem logName_inj (hid : isValidTaskId taskId = true) (hid' : isValidTaskId taskId' = true)
    (h : logName taskId attempt = logName taskId' attempt') :
    taskId = taskId' ∧ attempt = attempt' := by
  have hlists := congrArg String.toList h
  rw [toList_logName, toList_logName] at hlists
  obtain ⟨hname, hrest⟩ := cut_inj (isValidTaskId_not_mem hid rfl)
    (isValidTaskId_not_mem hid' rfl) hlists
  exact ⟨String.toList_injective hname, toString_inj (List.append_cancel_right hrest)⟩

/-- A number has no dot in it, so no result is named as a log is. -/
theorem outputName_ne_logName (hid : isValidTaskId taskId = true)
    (hid' : isValidTaskId taskId' = true) : outputName taskId attempt ≠ logName taskId' attempt' := by
  intro h
  have hlists := congrArg String.toList h
  rw [toList_outputName, toList_logName] at hlists
  obtain ⟨-, hrest⟩ := cut_inj (isValidTaskId_not_mem hid rfl)
    (isValidTaskId_not_mem hid' rfl) hlists
  have hdot : '.' ∈ (toString attempt).toList := by
    rw [hrest]
    exact List.mem_append_right _ (by decide)
  have hdigit := isDigit_of_mem_repr hdot
  revert hdigit
  decide

end Names

/-! ## Where they lie -/

/-- The path is that of an entry of the directory. -/
def EntryOf (dir path : String) : Prop :=
  ∃ name : String, path = dir ++ "/" ++ name ∧ '/' ∉ name.toList ∧
    name ≠ "" ∧ name ≠ "." ∧ name ≠ ".."

theorem entryOf_named {dir taskId : String} {rest : List Char} (hid : isValidTaskId taskId = true)
    (hrest : '/' ∉ rest) {name : String} (hname : name.toList = taskId.toList ++ '.' :: rest) :
    EntryOf (dir ++ "/.output") (dir ++ "/.output/" ++ name) := by
  -- a task id starts with a character that is no dot
  obtain ⟨c, cs, hcs⟩ : ∃ c cs, taskId.toList = c :: cs := by
    cases h : taskId.toList with
    | nil => exact absurd (String.toList_eq_nil_iff.mp h) (isValidTaskId_iff.mp hid).1
    | cons c cs => exact ⟨c, cs, rfl⟩
  have hdot : c ≠ '.' := by
    rintro rfl
    exact isValidTaskId_not_mem hid (c := '.') rfl (by simp [hcs])
  have hne : ∀ other : String, other.toList = [] ∨ other.toList.head? = some '.' → name ≠ other := by
    rintro other hother rfl
    rw [hname, hcs] at hother
    rcases hother with h | h
    · cases h
    · exact hdot (Option.some.inj h)
  refine ⟨name, ?_, ?_, hne _ (.inl rfl), hne _ (.inr rfl), hne _ (.inr rfl)⟩
  · simp only [String.append_assoc]
    rfl
  · rw [hname]
    intro hmem
    rcases List.mem_append.mp hmem with hmem | hmem
    · exact isValidTaskId_not_mem hid rfl hmem
    · rcases List.mem_cons.mp hmem with heq | hmem
      · cases heq
      · exact hrest hmem

theorem slash_not_mem_repr (n : Nat) : '/' ∉ (toString n).toList := by
  intro hmem
  have hdigit := isDigit_of_mem_repr hmem
  revert hdigit
  decide

theorem output_entry {taskId : String} (hid : isValidTaskId taskId = true) (dir : String)
    (attempt : Nat) : EntryOf (dir ++ "/.output") (taskOutputPath dir taskId attempt) := by
  rw [taskOutputPath_eq]
  exact entryOf_named hid (slash_not_mem_repr attempt) (toList_outputName taskId attempt)

theorem log_entry {taskId : String} (hid : isValidTaskId taskId = true) (dir : String)
    (attempt : Nat) : EntryOf (dir ++ "/.output") (taskLogPath dir taskId attempt) := by
  rw [taskLogPath_eq]
  refine entryOf_named hid (fun hmem => ?_) (toList_logName taskId attempt)
  rcases List.mem_append.mp hmem with hmem | hmem
  · exact slash_not_mem_repr attempt hmem
  · revert hmem
    decide

/-- The files of two attempts, or of one. -/
theorem files_apart (dir : String) {taskId taskId' : String} (attempt attempt' : Nat)
    (hid : isValidTaskId taskId = true) (hid' : isValidTaskId taskId' = true) :
    (taskOutputPath dir taskId attempt = taskOutputPath dir taskId' attempt' →
        taskId = taskId' ∧ attempt = attempt') ∧
      (taskLogPath dir taskId attempt = taskLogPath dir taskId' attempt' →
        taskId = taskId' ∧ attempt = attempt') ∧
      taskOutputPath dir taskId attempt ≠ taskLogPath dir taskId' attempt' := by
  have hcancel : ∀ {a b : String}, dir ++ "/.output/" ++ a = dir ++ "/.output/" ++ b → a = b := by
    intro a b h
    exact append_right_inj.mp h
  simp only [taskOutputPath_eq, taskLogPath_eq]
  exact ⟨fun h => outputName_inj hid hid' (hcancel h), fun h => logName_inj hid hid' (hcancel h),
    fun h => outputName_ne_logName hid hid' (hcancel h)⟩

/-- A result has its own name wherever the run's directory is. -/
theorem output_named {dir dir' taskId taskId' : String} {attempt attempt' : Nat}
    (hid : isValidTaskId taskId = true) (hid' : isValidTaskId taskId' = true)
    (h : taskOutputPath dir taskId attempt = taskOutputPath dir' taskId' attempt') :
    taskId = taskId' ∧ attempt = attempt' := by
  have hslash : ∀ {other : String}, isValidTaskId other = true → ∀ n,
      '/' ∉ (outputName other n).toList := by
    intro other hother n hmem
    rw [toList_outputName] at hmem
    rcases List.mem_append.mp hmem with hmem | hmem
    · exact isValidTaskId_not_mem hother rfl hmem
    · rcases List.mem_cons.mp hmem with heq | hmem
      · cases heq
      · exact slash_not_mem_repr n hmem
  have hlist : ∀ (front name : String), (front ++ "/.output/" ++ name).toList =
      (front ++ "/.output").toList ++ '/' :: name.toList := by
    intro front name
    simp only [String.toList_append, List.append_assoc]
    rfl
  rw [taskOutputPath_eq, taskOutputPath_eq] at h
  have hlists := congrArg String.toList h
  rw [hlist, hlist] at hlists
  exact outputName_inj hid hid'
    (String.toList_injective (last_cut_inj (hslash hid attempt) (hslash hid' attempt') hlists))

/-- Every id the parser lets through is one. -/
theorem isValidTaskId_of_validateTaskIdsFrom {jobId : String} {seen : Store.BTreeMap String String}
    {tasks : List JobYamlTask} (h : JobYaml.validateTaskIdsFrom jobId seen tasks = .ok ()) :
    ∀ task ∈ tasks, isValidTaskId task.id = true := by
  induction tasks generalizing seen with
  | nil => exact fun task htask => absurd htask List.not_mem_nil
  | cons task rest ih =>
      unfold JobYaml.validateTaskIdsFrom at h
      split at h
      · cases h
      rename_i hvalid
      dsimp only at h
      split at h
      · cases h
      · intro other hother
        rcases List.mem_cons.mp hother with rfl | hother
        · simpa using hvalid
        · exact ih h other hother

end Flowlite

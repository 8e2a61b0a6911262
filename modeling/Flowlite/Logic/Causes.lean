import Flowlite.Logic.Books
import Flowlite.Logic.Handover
import Flowlite.Logic.Ownership

/-!
# What a status of an attempt stands for

The monitor settles an attempt on what it has found out about its command: how it ended, that
it ran past a limit, that its run was stopped. Between finding out and writing it down lie a
grace period, several calls that may fail, and the other threads; the child carries the
decision over to the next pass. `causes` is the outline that keeps them together: no status
is written that is not founded on what was found.
-/

namespace Flowlite

open Store Host Threads Crud Machine Outline

variable {lib : Library} {cond : (flowlite lib).Condition} {O : Outline (flowlite lib)}

/-! ## What lasts as long as an attempt -/

/-- The attempt with this id, as long as it is there, is as `R` says. -/
def AttemptHas (R : TaskRunAttempt → World → Prop) (id : Nat) (w : World) : Prop :=
  id < w.db.taskRunAttempts.next ∧ ∀ a, w.db.taskRunAttempts.find id = some a → R a w

/-- A row that is there after a step was there before it. -/
theorem AttemptHas.step {R S : TaskRunAttempt → World → Prop} {t : Tid} {o : Op} {w w' : World}
    {r : Result o} {id : Nat} (ha : AttemptHas R id w) (h : Performs cond t o w r w')
    (himp : ∀ a a', a.id = id → w'.db.taskRunAttempts.find id = some a' →
      TaskRunAttempt.Same a a' → R a w → S a' w') : AttemptHas S id w' := by
  refine ⟨lt_of_lt_of_le ha.1 (taskRunAttempts_next_le h), fun a' ha' => ?_⟩
  rcases taskRunAttempt_origin h ha' with hx | ⟨i, now, -, -, hid, -⟩ | ⟨x, hx, f, i, -, -, -, hnew⟩
  · exact himp a' a' (Table.key_of_find hx) ha' rfl (ha.2 a' hx)
  · exact absurd ha.1 (by omega)
  · exact himp x a' (Table.key_of_find hx) ha' (by rw [hnew]; rfl) (ha.2 x hx)

/-- What is so of an attempt stays so, as long as the attempt is there. -/
structure Abiding (cond : (flowlite lib).Condition) (R : TaskRunAttempt → World → Prop) :
    Prop where
  performs : ∀ {t : Tid} {o : Op} {w w' : World} {r : Result o} {a a' : TaskRunAttempt},
    Performs cond t o w r w' → w'.db.taskRunAttempts.find a.id = some a' →
      TaskRunAttempt.Same a a' → R a w → R a' w'
  happens : ∀ {w w' : World} {kill : Tid → Bool} {a : TaskRunAttempt}, Happens cond w w' kill →
    R a w → R a w'

namespace Abiding

variable {R S : TaskRunAttempt → World → Prop}

theorem and (hR : Abiding cond R) (hS : Abiding cond S) :
    Abiding cond fun a w => R a w ∧ S a w where
  performs h ha' hsame := And.imp (hR.performs h ha' hsame) (hS.performs h ha' hsame)
  happens h := And.imp (hR.happens h) (hS.happens h)

theorem or (hR : Abiding cond R) (hS : Abiding cond S) :
    Abiding cond fun a w => R a w ∨ S a w where
  performs h ha' hsame := Or.imp (hR.performs h ha' hsame) (hS.performs h ha' hsame)
  happens h := Or.imp (hR.happens h) (hS.happens h)

theorem ex {ι : Sort*} {R : ι → TaskRunAttempt → World → Prop} (hR : ∀ i, Abiding cond (R i)) :
    Abiding cond fun a w => ∃ i, R i a w where
  performs h ha' hsame := Exists.imp fun i => (hR i).performs h ha' hsame
  happens h := Exists.imp fun i => (hR i).happens h

/-- What is permanent, of what never changes about an attempt. -/
theorem of_permanent (hR : ∀ a, Permanent cond (R a))
    (hsame : ∀ {a a' w}, TaskRunAttempt.Same a a' → R a w → R a' w) : Abiding cond R where
  performs h _ hs hw := hsame hs ((hR _).performs h hw)
  happens h hw := (hR _).happens h hw

theorem const (F : Prop) : Abiding cond fun _ _ => F :=
  .of_permanent (fun _ => .const F) fun _ h => h

theorem permanent (hR : Abiding cond R) (id : Nat) : Permanent cond (AttemptHas R id) where
  performs h ha := ha.step h fun _ _ hkey ha' hsame => hR.performs h (hkey ▸ ha') hsame
  happens h ha := by
    unfold AttemptHas at ha ⊢
    rw [happens_db h]
    exact ⟨ha.1, fun a hfind => hR.happens h (ha.2 a hfind)⟩

end Abiding

/-- What is so of the row that was selected is so of the attempt. -/
theorem attemptHas_of_known {R : TaskRunAttempt → World → Prop} {a : TaskRunAttempt} {w : World}
    (hknown : Known a w) (hsame : ∀ {a'}, TaskRunAttempt.Same a a' → R a w → R a' w) (ha : R a w) :
    AttemptHas R a.id w :=
  ⟨hknown.1, fun a' ha' => hsame (hknown.2 a' ha') ha⟩

theorem AttemptHas.mono {R S : TaskRunAttempt → World → Prop} {id : Nat} {w : World}
    (h : AttemptHas R id w) (himp : ∀ a, R a w → S a w) : AttemptHas S id w :=
  ⟨h.1, fun a ha => himp a (h.2 a ha)⟩

theorem AttemptHas.and {R S : TaskRunAttempt → World → Prop} {id : Nat} {w : World}
    (hR : AttemptHas R id w) (hS : AttemptHas S id w) :
    AttemptHas (fun a w => R a w ∧ S a w) id w :=
  ⟨hR.1, fun a ha => ⟨hR.2 a ha, hS.2 a ha⟩⟩

/-! ## What was found -/

/-- Somebody made the call, and was answered so. -/
def Answered (o : Op) (r : o.Ret) (w : World) : Prop := ∃ t, ⟨t, o, .ok r⟩ ∈ w.log

theorem answered_permanent (o : Op) (r : o.Ret) : Permanent cond (Answered o r) where
  performs h := fun ⟨t, hmem⟩ => ⟨t, by
    rw [log_performs h]
    exact List.mem_cons_of_mem _ hmem⟩
  happens h hw := by
    unfold Answered
    rwa [log_happens h]

theorem answered_performs {t : Tid} {o : Op} {w w' : World} {a : o.Ret}
    (h : Performs cond t o w (.ok a) w') : Answered o a w' :=
  ⟨t, by rw [log_performs h]; exact List.mem_cons_self⟩

theorem exited_permanent (n : Nat) (status : ExitStatus) : Permanent cond (Exited n status) where
  performs h := exited_performs h
  happens h := exited_happens h

theorem spawnedFor_permanent (n id : Nat) : Permanent cond (SpawnedFor n id) where
  performs h := fun ⟨_, hp, hid⟩ => ⟨_, process_fate h hp, by simpa using hid⟩
  happens h := fun ⟨p, hp, hid⟩ => by
    obtain ⟨e, -, -, hprocs⟩ := process_happens h
    exact ⟨p.afterExternal e, by rw [hprocs, hp]; rfl, by simpa using hid⟩

/-- The command of the attempt has ended so. -/
def EndedAs (status : ExitStatus) (a : TaskRunAttempt) (w : World) : Prop :=
  ∃ n, SpawnedFor n a.id w ∧ Exited n status w

/-- The group was asked to exit. -/
def AskedToExit (n : Nat) (log : List Host.Event) : Prop :=
  ∃ t, ⟨t, .terminateProcessGroup n, .ok ()⟩ ∈ log

/-- A child of this process was handed back, to be ended once a grace is over. -/
def GivenGrace (n : Nat) (log : List Host.Event) : Prop :=
  ∃ t id, ∃ child : TaskRunAttemptChild, ⟨t, .childrenInsert id child, .ok ()⟩ ∈ log ∧
    child.process = n ∧ child.terminating.isSome = true

/-- The group was killed, and if it had a grace before that, it had been asked to exit. -/
def Signalled (n : Nat) (w : World) : Prop :=
  ∃ t after before, w.log = after ++ ⟨t, .killProcessGroup n, .ok ()⟩ :: before ∧
    (GivenGrace n before → AskedToExit n before)

/-- The command of the attempt was told to end, and has ended. -/
def ToldToEnd (a : TaskRunAttempt) (w : World) : Prop :=
  ∃ n status, SpawnedFor n a.id w ∧ Exited n status w ∧ Signalled n w

/-- A spawn was begun for the attempt. -/
def SpawnBegun (a : TaskRunAttempt) (w : World) : Prop :=
  ∃ startedAt : Instant, Answered (.write (.updateTaskRunAttempts { id := some a.id }
    { startedAt := some (some startedAt) })) () w

/-- The command of the attempt was spawned as process `n` at this time, for this task run. -/
structure SpawnedUnder (x : TaskRun) (startedAt : Instant) (n : Nat) (a : TaskRunAttempt)
    (w : World) : Prop where
  taskRun : TaskRunKnown x w ∧ x.id = a.taskRunId
  process : SpawnedFor n a.id w
  spawned : ∃ command group, Answered (.spawn a.id command startedAt) (n, group) w

/-- The clock went past the time the task run has, or past the time it may be silent. -/
inductive PastLimit (a : TaskRunAttempt) (w : World) : Prop
  | timeout {x : TaskRun} {startedAt now : Instant} {n : Nat} :
      SpawnedUnder x startedAt n a w → Answered .now now w →
      startedAt + seconds x.timeout < now → PastLimit a w
  | idle {x : TaskRun} {startedAt now last : Instant} {n : Nat} :
      SpawnedUnder x startedAt n a w → 0 < x.idleTimeout → Answered .now now w →
      Answered (.lastOutputAt n) last w → seconds x.idleTimeout ≤ now - last → PastLimit a w

/-- This was printed on the attempt's stderr, by flowlite itself. -/
def Remarked (text : String) (a : TaskRunAttempt) (w : World) : Prop :=
  ∃ id, Answered (.write (.insertTaskRunAttemptOutput
    (TaskRunAttemptMonitor.outputInput a .stderr text))) id w

/-- The file the attempt was told to write its result to. -/
def ResultFile (path : String) (a : TaskRunAttempt) (w : World) : Prop :=
  ∃ canonical, Resolved canonical w ∧
    path = taskOutputPath (runDirIn canonical a.jobRunId) a.taskId a.attempt

/-- The result is what was read there, and empty where there was nothing to read. -/
inductive ResultRead (text : String) (a : TaskRunAttempt) (w : World) : Prop
  | absent {path : String} : ResultFile path a w → Answered (.metadata path) none w → text = "" →
      ResultRead text a w
  | read {path : String} {len : Nat} {bytes : ByteArray} : ResultFile path a w →
      Answered (.metadata path) (some len) w → Answered (.readFile path) bytes w →
      String.fromUTF8? bytes = some text → ResultRead text a w

/-- The command is to be ended, and the attempt to settle so. -/
def Decided : TaskRunAttemptStatus → TaskRunAttempt → World → Prop
  | .timedOut, a, w => PastLimit a w ∧
      ∃ child now, Remarked (TaskRunAttemptMonitor.timeoutNote child now) a w
  | .aborted, a, w => IsStopped w a.jobRunId
  | _, _, _ => False

/-- What has to be so for an attempt to be given this status, and this result. -/
def Cause : TaskRunAttemptStatus → Option String → TaskRunAttempt → World → Prop
  | .queued, _, _, _ => True
  | .running, _, a, w | .invalid, _, a, w => SpawnBegun a w
  | .skipped, _, a, w => IsStopped w a.jobRunId
  | .succeeded, output, a, w => EndedAs (.code 0) a w ∧
      ∃ text, output = some text ∧ ResultRead text a w
  | .failed, _, a, w => (∃ status, status.success = false ∧ EndedAs status a w) ∨
      EndedAs (.code 0) a w ∧ ∃ text, Rejection text ∧ Remarked text a w
  | .timedOut, _, a, w => Decided .timedOut a w ∧ ToldToEnd a w
  | .aborted, _, a, w => Decided .aborted a w ∧ ToldToEnd a w

/-- The child is the one that was spawned for the attempt, under the limits of its task run;
and what it carries with it was decided. -/
def Carries (child : TaskRunAttemptChild) (a : TaskRunAttempt) (w : World) : Prop :=
  (∃ x startedAt, SpawnedUnder x startedAt child.process a w ∧
    { child with terminating := none } =
      TaskRunAttemptDispatcher.childOf x startedAt child.process) ∧
  ∀ termination, child.terminating = some termination → Decided termination.status a w

/-- The child is what the attempt with this id is waited for with, and if a grace of it
is running, its group was asked to exit. -/
def Fits (child : TaskRunAttemptChild) (id : Nat) (w : World) : Prop :=
  AttemptHas (Carries child) id w ∧
    (child.terminating.isSome = true → AskedToExit child.process w.log)

section Lasts

theorem spawnBegun_abiding : Abiding cond SpawnBegun :=
  .of_permanent (fun _ => .ex fun _ => answered_permanent _ _) fun hsame h => by
    have hsame : _ = _ := hsame
    rw [hsame]
    exact h

theorem endedAs_abiding (status : ExitStatus) : Abiding cond (EndedAs status) :=
  .of_permanent (fun _ => .ex fun _ => (spawnedFor_permanent _ _).and (exited_permanent _ _))
    fun hsame h => by
      have hsame : _ = _ := hsame
      rw [hsame]
      exact h

theorem askedToExit_permanent (n : Nat) :
    Permanent cond fun w => AskedToExit n w.log where
  performs h := fun ⟨t, hmem⟩ => ⟨t, by
    rw [log_performs h]
    exact List.mem_cons_of_mem _ hmem⟩
  happens h hw := by rwa [log_happens h]

theorem signalled_permanent (n : Nat) : Permanent cond (Signalled n) where
  performs h := fun ⟨t, after, before, hlog, hasked⟩ => ⟨t, _ :: after, before, by
    rw [log_performs h, hlog]
    rfl, hasked⟩
  happens h hw := by
    unfold Signalled
    rwa [log_happens h]

theorem toldToEnd_abiding : Abiding cond ToldToEnd :=
  .of_permanent (fun _ => .ex fun _ => .ex fun _ => (spawnedFor_permanent _ _).and
    ((exited_permanent _ _).and (signalled_permanent _))) fun hsame h => by
      have hsame : _ = _ := hsame
      rw [hsame]
      exact h

theorem SpawnedUnder.same {x : TaskRun} {startedAt : Instant} {n : Nat} {a a' : TaskRunAttempt}
    {w : World} (hsame : TaskRunAttempt.Same a a') (h : SpawnedUnder x startedAt n a w) :
    SpawnedUnder x startedAt n a' w := by
  have hsame : _ = _ := hsame
  rw [hsame]
  exact ⟨h.taskRun, h.process, h.spawned⟩

theorem spawnedUnder_abiding (x : TaskRun) (startedAt : Instant) (n : Nat) :
    Abiding cond (SpawnedUnder x startedAt n) where
  performs h _ hsame hw := by
    obtain ⟨command, group, hspawned⟩ := hw.spawned
    exact .same hsame ⟨⟨taskRunKnown_performs h hw.taskRun.1, hw.taskRun.2⟩,
      (spawnedFor_permanent n _).performs h hw.process, command, group,
      (answered_permanent _ _).performs h hspawned⟩
  happens h hw := by
    obtain ⟨command, group, hspawned⟩ := hw.spawned
    exact ⟨⟨taskRunKnown_happens h hw.taskRun.1, hw.taskRun.2⟩,
      (spawnedFor_permanent n _).happens h hw.process, command, group,
      (answered_permanent _ _).happens h hspawned⟩

theorem pastLimit_abiding : Abiding cond PastLimit where
  performs h ha' hsame hw := by
    cases hw with
    | timeout hspawned hnow hpast =>
        exact .timeout ((spawnedUnder_abiding _ _ _).performs h ha' hsame hspawned)
          ((answered_permanent _ _).performs h hnow) hpast
    | idle hspawned hlimit hnow hlast hpast =>
        exact .idle ((spawnedUnder_abiding _ _ _).performs h ha' hsame hspawned) hlimit
          ((answered_permanent _ _).performs h hnow) ((answered_permanent _ _).performs h hlast)
          hpast
  happens h hw := by
    cases hw with
    | timeout hspawned hnow hpast =>
        exact .timeout ((spawnedUnder_abiding _ _ _).happens h hspawned)
          ((answered_permanent _ _).happens h hnow) hpast
    | idle hspawned hlimit hnow hlast hpast =>
        exact .idle ((spawnedUnder_abiding _ _ _).happens h hspawned) hlimit
          ((answered_permanent _ _).happens h hnow) ((answered_permanent _ _).happens h hlast)
          hpast

theorem remarked_abiding (text : String) : Abiding cond (Remarked text) :=
  .of_permanent (fun _ => .ex fun _ => answered_permanent _ _) fun hsame h => by
    have hsame : _ = _ := hsame
    rw [hsame]
    exact h

theorem resultFile_permanent (path : String) (a : TaskRunAttempt) :
    Permanent cond (ResultFile path a) :=
  .ex fun _ => (resolved_permanent _).and (.const _)

/-- What was read is so of every row of the attempt. -/
theorem ResultRead.same {text : String} {a a' : TaskRunAttempt} {w : World}
    (hsame : TaskRunAttempt.Same a a') (h : ResultRead text a w) : ResultRead text a' w := by
  have hfile : ∀ {path : String}, ResultFile path a w → ResultFile path a' w := by
    intro path hfile
    have hsame : _ = _ := hsame
    rw [hsame]
    exact hfile
  cases h with
  | absent hread hnone hempty => exact .absent (hfile hread) hnone hempty
  | read hread hlen hbytes htext => exact .read (hfile hread) hlen hbytes htext

theorem resultRead_abiding (text : String) : Abiding cond (ResultRead text) where
  performs h ha' hsame hw := by
    refine .same hsame ?_
    cases hw with
    | absent hfile hnone hempty =>
        exact .absent ((resultFile_permanent _ _).performs h hfile)
          ((answered_permanent _ _).performs h hnone) hempty
    | read hfile hlen hbytes htext =>
        exact .read ((resultFile_permanent _ _).performs h hfile)
          ((answered_permanent _ _).performs h hlen) ((answered_permanent _ _).performs h hbytes)
          htext
  happens h hw := by
    cases hw with
    | absent hfile hnone hempty =>
        exact .absent ((resultFile_permanent _ _).happens h hfile)
          ((answered_permanent _ _).happens h hnone) hempty
    | read hfile hlen hbytes htext =>
        exact .read ((resultFile_permanent _ _).happens h hfile)
          ((answered_permanent _ _).happens h hlen) ((answered_permanent _ _).happens h hbytes)
          htext

theorem attemptStopped_abiding : Abiding cond fun a w => IsStopped w a.jobRunId where
  performs h ha' hsame hstopped := by
    have hstays : ¬ Removes _ _ _ _ := fun hremoves =>
      (hremoves.gone h).2.2.1 _ (Table.mem_of_find ha') rfl
    have hsame : _ = _ := hsame
    rw [hsame] at hstays ⊢
    exact (isStopped_fate h hstopped).resolve_left hstays
  happens h := by
    unfold IsStopped
    rw [happens_db h]
    exact id

theorem decided_abiding (status : TaskRunAttemptStatus) : Abiding cond (Decided status) := by
  cases status with
  | timedOut =>
      exact pastLimit_abiding.and (.ex fun _ => .ex fun _ => remarked_abiding _)
  | aborted => exact attemptStopped_abiding
  | _ => exact .const False

theorem cause_abiding (status : TaskRunAttemptStatus) (output : Option String) :
    Abiding cond (Cause status output) := by
  cases status with
  | queued => exact Abiding.const True
  | running => exact spawnBegun_abiding
  | invalid => exact spawnBegun_abiding
  | skipped => exact attemptStopped_abiding
  | succeeded =>
      exact (endedAs_abiding _).and (.ex fun text => (Abiding.const _).and (resultRead_abiding text))
  | failed =>
      exact (Abiding.ex fun status => (Abiding.const _).and (endedAs_abiding status)).or
        ((endedAs_abiding _).and (.ex fun text => (Abiding.const _).and (remarked_abiding text)))
  | timedOut => exact (decided_abiding _).and toldToEnd_abiding
  | aborted => exact (decided_abiding _).and toldToEnd_abiding

theorem carries_abiding (child : TaskRunAttemptChild) : Abiding cond (Carries child) :=
  (Abiding.ex fun x => .ex fun startedAt =>
    (spawnedUnder_abiding x startedAt _).and (.const _)).and
    { performs := fun h ha' hsame hall termination hchild =>
        (decided_abiding _).performs h ha' hsame (hall termination hchild)
      happens := fun h hall termination hchild =>
        (decided_abiding _).happens h (hall termination hchild) }

theorem fits_permanent (child : TaskRunAttemptChild) (id : Nat) : Permanent cond (Fits child id) :=
  ((carries_abiding child).permanent id).and (.imp_const (askedToExit_permanent child.process))

end Lasts

/-- Every status stands for what was found, and no grace runs of what was not asked to exit. -/
def causes (lib : Library) : Outline (flowlite lib) where
  inv w := (∀ a ∈ w.db.taskRunAttempts.rows, Cause a.status (some a.output) a w ∧
      (a.startedAt.isSome = true → SpawnBegun a w)) ∧
    (∀ id child, w.children id = some child → Fits child id w) ∧
      ∀ n, GivenGrace n w.log → AskedToExit n w.log
  pre _ o w :=
    match o with
    | .write (.updateTaskRunAttempts f i) => ∀ id, f.id = some id → ∀ status, i.status = some status →
        AttemptHas (Cause status i.output) id w
    | .childrenInsert id child => Fits child id w
    | _ => True
  idle _ _ := True

theorem Silent.causes_pre {o : Op} (h : Silent o) (t : Tid) (w : World) :
    (causes lib).pre t o w := by
  cases o <;> trivial

/-! ## One step -/

section Steps

variable {t : Tid} {o : Op} {w w' : World} {r : Result o}

/-- A result is asked for where it is recorded only. -/
theorem cause_output {status : TaskRunAttemptStatus} {output output' : Option String}
    {a : TaskRunAttempt} (houtput : ∀ text, output = some text → output' = some text)
    (h : Cause status output a w) : Cause status output' a w := by
  cases status with
  | succeeded =>
      obtain ⟨hended, text, htext, hrecorded⟩ := h
      exact ⟨hended, text, houtput text htext, hrecorded⟩
  | _ => exact h

theorem cause_performs (hb : cond.Le (base lib).established) (hi : (causes lib).inv w)
    (hpre : (causes lib).pre t o w) (h : Performs cond t o w r w') {a' : TaskRunAttempt}
    (ha' : a' ∈ w'.db.taskRunAttempts.rows) : Cause a'.status (some a'.output) a' w' := by
  have hfind : w'.db.taskRunAttempts.find a'.id = some a' := Table.find_of_mem ha'
  rcases taskRunAttempt_origin h hfind with hx | ⟨i, now, rfl, -, -, -, -, -, hnew⟩ |
    ⟨x, hx, f, i, rfl, -, hf, hnew⟩
  · exact (cause_abiding _ _).performs h hfind rfl (hi.1 a' (Table.mem_of_find hx)).1
  · -- an attempt is queued when it is added
    cases allowed_of hb h with
    | addAttempt hqueued =>
        have hstatus : a'.status = .queued := by rw [hnew]; exact hqueued
        rw [hstatus]
        trivial
  · have hkey : x.id = a'.id := Table.key_of_find hx
    have hsame : TaskRunAttempt.Same x a' := by rw [hnew]; rfl
    rw [← hkey] at hfind
    cases hset : i.status with
    | none =>
        have houtput := output_allowed (allowed_of hb h) hset
        have hstatus : a'.status = x.status := by
          rw [hnew]
          simp [UpdateTaskRunAttemptsInput.patch, hset]
        have htext : a'.output = x.output := by
          rw [hnew]
          simp [UpdateTaskRunAttemptsInput.patch, houtput]
        rw [hstatus, htext]
        exact (cause_abiding _ _).performs h hfind hsame (hi.1 x (Table.mem_of_find hx)).1
    | some status =>
        have hstatus : a'.status = status := by
          rw [hnew]
          simp [UpdateTaskRunAttemptsInput.patch, hset]
        obtain ⟨id, hid⟩ := updateTaskRunAttempts_id (allowed_of hb h)
        obtain rfl : x.id = id := updateTaskRunAttemptsFilter_holds hid hf
        have hcause := (hpre x.id hid status hset).2 x (hkey ▸ hx)
        rw [hstatus]
        refine cause_output (fun text htext => ?_)
          ((cause_abiding _ _).performs h hfind hsame hcause)
        rw [hnew]
        simp [UpdateTaskRunAttemptsInput.patch, htext]

/-- Who reads as started has been begun. -/
theorem spawnBegun_performs (hb : cond.Le (base lib).established) (hi : (causes lib).inv w)
    (h : Performs cond t o w r w') {a' : TaskRunAttempt}
    (ha' : a' ∈ w'.db.taskRunAttempts.rows) (hstarted : a'.startedAt.isSome = true) :
    SpawnBegun a' w' := by
  have hfind : w'.db.taskRunAttempts.find a'.id = some a' := Table.find_of_mem ha'
  rcases taskRunAttempt_origin h hfind with hx | ⟨i, now, rfl, -, -, -, -, -, hnew⟩ |
    ⟨x, hx, f, i, rfl, ⟨answer, rfl⟩, hf, hnew⟩
  · exact spawnBegun_abiding.performs h hfind rfl ((hi.1 a' (Table.mem_of_find hx)).2 hstarted)
  · rw [hnew] at hstarted
    cases hstarted
  · have hkey : x.id = a'.id := Table.key_of_find hx
    have hkept : i.startedAt = none → SpawnBegun a' w' := by
      intro hnone
      have hbefore : a'.startedAt = x.startedAt := by
        rw [hnew]
        simp [UpdateTaskRunAttemptsInput.patch, hnone]
      rw [hbefore] at hstarted
      exact spawnBegun_abiding.performs h (hkey ▸ hfind) (by rw [hnew]; rfl)
        ((hi.1 x (Table.mem_of_find hx)).2 hstarted)
    cases allowed_of hb h with
    | markStarted =>
        rename_i id startedAt
        obtain rfl : x.id = id := updateTaskRunAttemptsFilter_holds rfl hf
        cases startedAt with
        | none =>
            rw [hnew] at hstarted
            cases hstarted
        | some startedAt =>
            refine ⟨startedAt, ?_⟩
            rw [← hkey]
            exact answered_performs h
    | _ => exact hkept rfl

theorem fits_performs (hi : (causes lib).inv w) (hpre : (causes lib).pre t o w)
    (h : Performs cond t o w r w') {id : Nat} {child : TaskRunAttemptChild}
    (hchild : w'.children id = some child) : Fits child id w' := by
  refine (fits_permanent child id).performs h ?_
  rcases children_cases h with ⟨a, inserted, rfl, heq⟩ | ⟨a, rfl, heq⟩ | ⟨-, -, heq⟩ <;>
    rw [heq] at hchild
  · by_cases hid : id = a
    · subst hid
      rw [Function.update_self] at hchild
      cases hchild
      exact hpre
    · rw [Function.update_of_ne hid] at hchild
      exact hi.2.1 id child hchild
  · by_cases hid : id = a
    · subst hid
      rw [Function.update_self] at hchild
      cases hchild
    · rw [Function.update_of_ne hid] at hchild
      exact hi.2.1 id child hchild
  · exact hi.2.1 id child hchild

/-- Who is handed back with a grace was asked to exit before. -/
theorem grace_performs (hi : (causes lib).inv w) (hpre : (causes lib).pre t o w)
    (h : Performs cond t o w r w') (n : Nat) (hgrace : GivenGrace n w'.log) :
    AskedToExit n w'.log := by
  refine (askedToExit_permanent n).performs h ?_
  obtain ⟨u, id, child, hmem, hprocess, hterminating⟩ := hgrace
  rw [log_performs h] at hmem
  rcases List.mem_cons.mp hmem with heq | hmem
  · cases heq
    exact hprocess ▸ hpre.2 hterminating
  · exact hi.2.2 n ⟨u, id, child, hmem, hprocess, hterminating⟩

theorem causes_performs (hb : cond.Le (base lib).established) (hi : (causes lib).inv w)
    (hpre : (causes lib).pre t o w) (h : Performs cond t o w r w') : (causes lib).inv w' :=
  ⟨fun _ ha' => ⟨cause_performs hb hi hpre h ha', spawnBegun_performs hb hi h ha'⟩,
    fun _ _ hchild => fits_performs hi hpre h hchild, grace_performs hi hpre h⟩

theorem causes_happens {kill : Tid → Bool} (hi : (causes lib).inv w)
    (h : Happens cond w w' kill) : (causes lib).inv w' := by
  refine ⟨fun a ha => ?_, fun id child hchild => ?_, ?_⟩
  · rw [happens_db h] at ha
    exact ⟨(cause_abiding _ _).happens h (hi.1 a ha).1,
      fun hstarted => spawnBegun_abiding.happens h ((hi.1 a ha).2 hstarted)⟩
  · obtain ⟨e, he, -⟩ := process_happens h
    refine (fits_permanent child id).happens h (hi.2.1 id child ?_)
    rcases external_children he with ⟨-, heq⟩ | ⟨-, heq⟩ <;> rw [heq] at hchild
    · cases hchild
    · exact hchild
  · rw [log_happens h]
    exact hi.2.2

end Steps

/-! ## The monitor -/

/-- What is permanent is so past a call, and what the call answered is on record. -/
theorem Triple.told {t : Tid} {o : Op} {P : World → Prop} (hP : Permanent cond P)
    (hpre : ∀ w, P w → O.pre t o w) :
    O.Triple cond t P (Crud.perform o) fun r w => P w ∧ ∀ a, r = .ok a → Answered o a w := by
  refine Triple.perform (hP.stable t) (fun w _ _ _ hw _ => hpre w hw) fun w r w' _ hw h _ => ?_
  refine ⟨hP.performs h hw, ?_⟩
  rintro a rfl
  exact answered_performs h

/-- Code that sets no status, and puts no child into the map. -/
theorem causes_uses {α : Type} {t : Tid} {P : World → Prop} {p : Code α} (hP : Permanent cond P)
    (hp : p.Uses fun o => ∀ w, (causes lib).pre t o w) :
    (causes lib).Triple cond t P p fun _ => P :=
  Triple.permanent hP (hp.mono fun _ ho w _ _ => ho w)

theorem causes_silent {α : Type} {t : Tid} {P : World → Prop} {p : Code α} (hP : Permanent cond P)
    (hp : p.Uses Silent) : (causes lib).Triple cond t P p fun _ => P :=
  causes_uses hP (hp.mono fun _ ho w => ho.causes_pre t w)

/-- The run was stopped, if that is the answer. -/
theorem causes_isStopped {t : Tid} {P : World → Prop} (hP : Permanent cond P) (id : Nat) :
    (causes lib).Triple cond t P (isJobRunStopped id) fun r w =>
      P w ∧ (r = .ok true → IsStopped w id) := by
  have htrue : (causes lib).Stable cond t fun _ => True := stable_true _
  have hselect := @Triple.selectJobRunStop _ _ _ _ _ id htrue (fun _ _ _ => trivial)
    fun _ _ => trivial
  refine Triple.bind ((hselect.past hP).pre fun _ _ h => ⟨trivial, h⟩)
    (fun stop => Triple.ret fun w _ h => ⟨h.2, fun hstopped => ?_⟩) fun _ _ _ h => ⟨h.2, nofun⟩
  cases stop with
  | none => cases hstopped
  | some stop => exact h.1.2 stop rfl

theorem success_code {status : ExitStatus} (h : status.success = true) : status = .code 0 := by
  cases status with
  | code n => exact congrArg _ (of_decide_eq_true h)
  | signaled => cases h

theorem Carries.endedAs {child : TaskRunAttemptChild} {a : TaskRunAttempt} {w : World}
    (h : Carries child a w) {status : ExitStatus} (hexited : Exited child.process status w) :
    EndedAs status a w := by
  obtain ⟨⟨x, startedAt, hspawned, -⟩, -⟩ := h
  exact ⟨child.process, hspawned.process, hexited⟩

theorem Carries.timeout {child : TaskRunAttemptChild} {a : TaskRunAttempt} {w : World}
    (h : Carries child a w) {now : Instant} (hnow : Answered .now now w)
    (hpast : child.timesOutAt < now) : PastLimit a w := by
  obtain ⟨⟨x, startedAt, hspawned, hlimits⟩, -⟩ := h
  have htimesOut : child.timesOutAt = startedAt + seconds x.timeout :=
    congrArg TaskRunAttemptChild.timesOutAt hlimits
  exact .timeout hspawned hnow (htimesOut ▸ hpast)

theorem Carries.idle {child : TaskRunAttemptChild} {a : TaskRunAttempt} {w : World}
    (h : Carries child a w) {now last : Instant} (hnow : Answered .now now w)
    (hlast : Answered (.lastOutputAt child.process) last w) (hidle : child.isIdle last now = true) :
    PastLimit a w := by
  obtain ⟨⟨x, startedAt, hspawned, hlimits⟩, -⟩ := h
  have hlimit : child.idleTimeout = if x.idleTimeout > 0 then some (seconds x.idleTimeout) else none :=
    congrArg TaskRunAttemptChild.idleTimeout hlimits
  unfold TaskRunAttemptChild.isIdle at hidle
  by_cases hpositive : x.idleTimeout > 0
  · rw [hlimit, if_pos hpositive] at hidle
    exact .idle hspawned hpositive hnow hlast (of_decide_eq_true hidle)
  · rw [hlimit, if_neg hpositive] at hidle
    cases hidle

namespace TaskRunAttemptMonitor

/-- The monitor has this child of the attempt. -/
def Has (a : TaskRunAttempt) (child : TaskRunAttemptChild) (w : World) : Prop :=
  Known a w ∧ Fits child a.id w

theorem has_permanent (a : TaskRunAttempt) (child : TaskRunAttemptChild) :
    Permanent cond (Has a child) :=
  (known_permanent a).and (fits_permanent child a.id)

/-- What deriving a status of the child finds out. -/
def Found (a : TaskRunAttempt) : TaskRunAttemptStatus → World → Prop
  | .succeeded => AttemptHas (EndedAs (.code 0)) a.id
  | .failed => AttemptHas (fun x w => ∃ status, status.success = false ∧ EndedAs status x w) a.id
  | .timedOut => AttemptHas PastLimit a.id
  | .aborted => AttemptHas (fun x w => IsStopped w x.jobRunId) a.id
  | .running => fun _ => True
  | _ => fun _ => False

theorem causes_derive (a : TaskRunAttempt) (child : TaskRunAttemptChild) :
    (causes lib).Triple cond thread (Has a child) (deriveNextStatus a child) fun r w =>
      Has a child w ∧ ∀ status, r = .ok status → Found a status w := by
  have hhas : Permanent cond (Has a child) := has_permanent a child
  refine Triple.bind (R := fun r w => Has a child w ∧ ∀ status, r = .ok (some status) →
    Exited child.process status w) ?_ (fun exited => ?_) fun _ _ _ h => ⟨h.1, nofun⟩
  · refine Triple.perform (hhas.stable _) (fun _ _ _ _ _ _ => trivial) fun w r w' _ hw h _ =>
      ⟨hhas.performs h hw, ?_⟩
    rintro status rfl
    obtain ⟨p, hp, hexited⟩ := Option.bind_eq_some_iff.mp (tryWait_answer h)
    exact exited_performs h ⟨p, hp, hexited⟩
  cases exited with
  | some status =>
      refine Triple.ret fun w _ h => ⟨h.1, fun derived hderived => ?_⟩
      cases hderived
      have hended : AttemptHas (EndedAs status) a.id w :=
        h.1.2.1.mono fun _ hcarries => hcarries.endedAs (h.2 status rfl)
      cases hsuccess : status.success with
      | true =>
          rw [success_code hsuccess] at hended
          exact hended
      | false =>
          show AttemptHas (fun x w => ∃ status, status.success = false ∧ EndedAs status x w) a.id w
          exact hended.mono fun _ hends => ⟨status, hsuccess, hends⟩
  | none =>
      refine Triple.pre (W := Has a child) ?_ fun _ _ h => h.1
      refine Triple.bind (Triple.told hhas fun _ _ => trivial) (fun wallNow => ?_)
        fun _ _ _ h => ⟨h.1, nofun⟩
      split
      · rename_i hpast
        refine Triple.ret fun w _ h => ⟨h.1, fun derived hderived => ?_⟩
        cases hderived
        exact h.1.2.1.mono fun _ hcarries => hcarries.timeout (h.2 wallNow rfl) hpast
      refine Triple.pre (W := Has a child) ?_ fun _ _ h => h.1
      refine Triple.bind (Triple.told hhas fun _ _ => trivial) (fun idleNow => ?_)
        fun _ _ _ h => ⟨h.1, nofun⟩
      have hread : Permanent cond fun w => Has a child w ∧ Answered .now idleNow w :=
        hhas.and (answered_permanent _ _)
      refine Triple.bind ((Triple.told hread fun _ _ => trivial).pre fun _ _ h =>
        ⟨h.1, h.2 idleNow rfl⟩) (fun last => ?_) fun _ _ _ h => ⟨h.1.1, nofun⟩
      split
      · rename_i hidle
        refine Triple.ret fun w _ h => ⟨h.1.1, fun derived hderived => ?_⟩
        cases hderived
        exact h.1.1.2.1.mono fun _ hcarries => hcarries.idle h.1.2 (h.2 last rfl) hidle
      refine Triple.pre (W := Has a child) ?_ fun _ _ h => h.1.1
      refine Triple.bind (causes_isStopped hhas a.jobRunId) (fun isStopped =>
        Triple.ret fun w _ h => ⟨h.1, fun derived hderived => ?_⟩) fun _ _ _ h => ⟨h.1, nofun⟩
      cases hderived
      cases isStopped with
      | false => trivial
      | true =>
          refine attemptHas_of_known (R := fun x w => IsStopped w x.jobRunId) h.1.1
            (fun hsame hstopped => ?_) (h.2 rfl)
          have hsame : _ = _ := hsame
          rw [hsame]
          exact hstopped

/-- The attempt may be given this status. -/
def MaySettle (a : TaskRunAttempt) (status : TaskRunAttemptStatus) (output : Option String) :
    World → Prop :=
  AttemptHas (Cause status output) a.id

theorem causes_finish (a : TaskRunAttempt) (status : TaskRunAttemptStatus)
    (output : Option String) :
    (causes lib).Triple cond thread (MaySettle a status output)
      (finishTaskRunAttempt a status output) fun _ _ => True := by
  refine (Triple.permanent ((cause_abiding status output).permanent a.id)
    (finishTaskRunAttempt_uses (fun _ ho w _ _ => ho.causes_pre _ w) (fun _ _ _ _ => trivial) a
      status output fun now w _ hw => ?_)).post fun _ _ _ _ => trivial
  intro id hid settled hsettled
  cases hid
  cases hsettled
  exact hw

theorem causes_read {P : World → Prop} (hP : Permanent cond P) (a : TaskRunAttempt)
    (child : TaskRunAttemptChild) :
    (causes lib).Triple cond thread P (finishReading a child) fun _ => P :=
  causes_uses hP (finishReading_uses a (fun _ _ _ => trivial) child (fun _ => trivial)
    fun _ => trivial)

/-- What is left of the command is killed, so it has ended. -/
theorem causes_kill (a : TaskRunAttempt) (child : TaskRunAttemptChild) :
    (causes lib).Triple cond thread (Has a child)
      (Crud.perform (.killProcessGroup child.process))
      fun _ => AttemptHas ToldToEnd a.id := by
  refine Triple.perform ((has_permanent a child).stable _) (fun _ _ _ _ _ _ => trivial)
    fun w r w' hi hw h _ => hw.2.1.step h fun x x' _ _ hsame hcarries => ?_
  obtain ⟨⟨task, startedAt, hspawned, -⟩, -⟩ := hcarries
  obtain ⟨p, hp, hid⟩ := hspawned.process
  obtain ⟨status, hended⟩ := kill_exits hp h
  obtain rfl := kill_answer h
  have hsame : x' = _ := hsame
  rw [hsame]
  exact ⟨child.process, status, (spawnedFor_permanent _ _).performs h ⟨p, hp, hid⟩, hended,
    thread, [], w.log, log_performs h, hi.2.2 child.process⟩

/-- The attempt settles as was decided, behind the end of its command. -/
theorem causes_terminate (a : TaskRunAttempt) (child : TaskRunAttemptChild)
    (status : TaskRunAttemptStatus) :
    (causes lib).Triple cond thread (fun w => Has a child w ∧ AttemptHas (Decided status) a.id w)
      (finishTermination a child status) fun _ _ => True := by
  have hdecided : Permanent cond (AttemptHas (Decided status) a.id) :=
    (decided_abiding status).permanent a.id
  have hended : Permanent cond (AttemptHas ToldToEnd a.id) := toldToEnd_abiding.permanent a.id
  refine Triple.seq ((causes_kill a child).past hdecided) fun _ => ?_
  refine Triple.seq (causes_read (hended.and hdecided) a child) fun _ => ?_
  refine (causes_finish a status none).pre fun w _ h => (h.1.and h.2).mono fun x hx => ?_
  cases status with
  | timedOut | aborted => exact hx.symm
  | _ => exact hx.2.elim

/-- A line of flowlite's own is on record. -/
theorem causes_remark {P : World → Prop} (hP : Permanent cond P) (a : TaskRunAttempt)
    {text : String} (htext : text ≠ "") :
    (causes lib).Triple cond thread (fun w => Known a w ∧ P w) (insertOutput a "" text)
      fun r w => P w ∧ (r = .ok () → AttemptHas (Remarked text) a.id w) := by
  rw [insertOutput_stderr, if_neg htext]
  have hinsert : (causes lib).Triple cond thread (fun w => Known a w ∧ P w)
      ((insertTaskRunAttemptOutput (outputInput a .stderr text)).bind fun _ => .ret ())
      fun r w => P w ∧ (r = .ok () → AttemptHas (Remarked text) a.id w) := by
    refine Triple.bind (Triple.told ((known_permanent a).and hP) fun _ _ => trivial)
      (fun id => Triple.ret fun w _ h => ⟨h.1.2, fun _ => ?_⟩) fun _ _ _ h => ⟨h.1.2, nofun⟩
    refine attemptHas_of_known h.1.1 (fun hsame hremarked => ?_) ⟨id, h.2 id rfl⟩
    have hsame : _ = _ := hsame
    rw [hsame]
    exact hremarked
  exact Triple.bind hinsert (fun _ => Triple.ret fun _ _ h => h) fun _ _ _ h => ⟨h.1, nofun⟩

/-- A timeout is remarked on before the command is asked to exit. -/
theorem causes_note (a : TaskRunAttempt) (child : TaskRunAttemptChild)
    (status : TaskRunAttemptStatus) (hstatus : status = .timedOut ∨ status = .aborted) :
    (causes lib).Triple cond thread (fun w => Has a child w ∧ Found a status w)
      (noteTimeout a child status) fun r w => r = .ok () →
        Has a child w ∧ AttemptHas (Decided status) a.id w := by
  have hhas : Permanent cond (Has a child) := has_permanent a child
  rcases hstatus with rfl | rfl
  · have hpast : Permanent cond (AttemptHas PastLimit a.id) := pastLimit_abiding.permanent a.id
    refine Triple.bind (causes_silent (hhas.and hpast) now_silent) (fun now => ?_)
      fun _ _ _ _ => nofun
    refine ((causes_remark (hhas.and hpast) a (timeoutNote_ne child now)).pre
      fun w _ h => ⟨h.1.1, h⟩).post fun r w _ h hr => ⟨h.1.1, ?_⟩
    exact (h.1.2.and (h.2 hr)).mono fun x hx => ⟨hx.1, child, now, hx.2⟩
  · exact Triple.ret fun w _ h _ => h

/-- A child is handed back with what it carries. -/
theorem causes_putBack (a : TaskRunAttempt) (child : TaskRunAttemptChild) :
    (causes lib).Triple cond thread (Fits child a.id)
      (Crud.perform (.childrenInsert a.id child)) fun _ _ => True :=
  Triple.perform ((fits_permanent child a.id).stable _) (fun _ _ _ _ hw _ => hw)
    fun _ _ _ _ _ _ _ => trivial

theorem causes_keep (a : TaskRunAttempt) (child : TaskRunAttemptChild) :
    (causes lib).Triple cond thread (Fits child a.id)
      (recordAndPutBack a child) fun _ _ => True :=
  recordAndPutBack_triple (causes_uses (fits_permanent child a.id)
    (recordOutput_uses a (fun _ _ _ => trivial) child fun _ => trivial)) (causes_putBack a child)

theorem causes_begin (config : Config) (a : TaskRunAttempt) (child : TaskRunAttemptChild)
    (status : TaskRunAttemptStatus) (hstatus : status = .timedOut ∨ status = .aborted) :
    (causes lib).Triple cond thread (fun w => Has a child w ∧ Found a status w)
      (beginTermination config a child status) fun _ _ => True := by
  have hboth : Permanent cond fun w => Has a child w ∧ AttemptHas (Decided status) a.id w :=
    (has_permanent a child).and ((decided_abiding status).permanent a.id)
  refine Triple.bind (causes_note a child status hstatus) (fun _ => Triple.pre ?_
    fun w _ h => h rfl) fun _ _ _ _ => trivial
  split
  · exact causes_terminate a child status
  · have hasked : Permanent cond fun w =>
        (Has a child w ∧ AttemptHas (Decided status) a.id w) ∧ AskedToExit child.process w.log :=
      hboth.and (askedToExit_permanent child.process)
    refine Triple.seq (Triple.told hboth fun _ _ => trivial) fun _ => ?_
    refine Triple.seq ((causes_silent hasked now_silent).pre fun w _ h => ⟨h.1, h.2 () rfl⟩)
      fun now => ?_
    refine (causes_keep a _).pre fun w _ h =>
      ⟨(h.1.1.2.1.and h.1.2).mono fun x hx => ⟨hx.1.1, ?_⟩, fun _ => h.2⟩
    rintro termination ⟨⟩
    exact hx.2

/-- A child that was asked to exit carries what was decided. -/
theorem causes_terminating (a : TaskRunAttempt) (child : TaskRunAttemptChild)
    (termination : Termination) (hchild : child.terminating = some termination) :
    (causes lib).Triple cond thread (Has a child) (handleTerminating a child termination)
      fun _ _ => True := by
  have hterminate : (causes lib).Triple cond thread (Has a child)
      (finishTermination a child termination.status) fun _ _ => True :=
    (causes_terminate a child termination.status).pre fun w _ h =>
      ⟨h, h.2.1.mono fun x hx => hx.2 termination hchild⟩
  refine Triple.seq (causes_silent (has_permanent a child) now_silent) fun now => ?_
  split
  · exact hterminate
  · refine Triple.seq (causes_uses (has_permanent a child) (uses_op fun _ => trivial))
      fun isGone => ?_
    split
    · exact hterminate
    · exact (causes_keep a child).pre fun w _ h => h.2

/-- What a read of the result says: the result, or why there is none. -/
def ReadAs (a : TaskRunAttempt) : Except Err (Except String String) → World → Prop
  | .ok (.ok text) => AttemptHas (ResultRead text) a.id
  | .ok (.error rejection) => fun _ => Rejection rejection
  | .error _ => fun _ => True

theorem causes_result {P : World → Prop} (hP : Permanent cond P) (config : Config)
    (a : TaskRunAttempt) :
    (causes lib).Triple cond thread (fun w => Known a w ∧ P w) (readTaskOutput config a)
      fun r w => P w ∧ ReadAs a r w := by
  have hknown : Permanent cond fun w => Known a w ∧ P w := (known_permanent a).and hP
  refine Triple.attempt_bind (Triple.jobRunDir hknown (fun _ w ho _ => ho.causes_pre _ w) config
    a.jobRunId) fun dir => ?_
  cases dir with
  | error error => exact Triple.ret fun w _ h => ⟨h.1.2, .noDirectory error⟩
  | ok dir =>
      have hfile : Permanent cond fun w => (Known a w ∧ P w) ∧
          ResultFile (taskOutputPath dir a.taskId a.attempt) a w :=
        hknown.and (resultFile_permanent _ a)
      refine Triple.pre (W := fun w => (Known a w ∧ P w) ∧
        ResultFile (taskOutputPath dir a.taskId a.attempt) a w) ?_ fun w _ h => ⟨h.1, ?_⟩
      · have hread : ∀ {text : String} {w : World}, Known a w → ResultRead text a w →
            AttemptHas (ResultRead text) a.id w :=
          fun hknown => attemptHas_of_known hknown fun hsame => .same hsame
        refine Triple.attempt_bind (Triple.told hfile fun _ _ => trivial) fun metadata => ?_
        cases metadata with
        | error error => exact Triple.ret fun w _ h => ⟨h.1.1.2, .unreadable _ error⟩
        | ok found =>
            cases found with
            | none =>
                exact Triple.ret fun w _ h =>
                  ⟨h.1.1.2, hread h.1.1.1 (.absent h.1.2 (h.2 none rfl) rfl)⟩
            | some len =>
                dsimp only
                split
                · rename_i hlen
                  exact Triple.ret fun w _ h => ⟨h.1.1.2, .tooLong hlen⟩
                refine Triple.pre (W := fun w => ((Known a w ∧ P w) ∧
                    ResultFile (taskOutputPath dir a.taskId a.attempt) a w) ∧
                  Answered (.metadata (taskOutputPath dir a.taskId a.attempt)) (some len) w) ?_
                  fun w _ h => ⟨h.1, h.2 _ rfl⟩
                refine Triple.attempt_bind (Triple.told (hfile.and (answered_permanent _ _))
                  fun _ _ => trivial) fun bytes => ?_
                cases bytes with
                | error error => exact Triple.ret fun w _ h => ⟨h.1.1.1.2, .unreadable _ error⟩
                | ok bytes =>
                    dsimp only
                    split
                    · exact Triple.ret fun w _ h => ⟨h.1.1.1.2, .notUtf8⟩
                    · rename_i text htext
                      exact Triple.ret fun w _ h => ⟨h.1.1.1.2, hread h.1.1.1.1
                        (.read h.1.1.2 h.1.2 (h.2 bytes rfl) htext)⟩
      · obtain ⟨canonical, hresolved, rfl⟩ := h.2 dir rfl
        exact ⟨canonical, hresolved, rfl⟩

theorem rejection_ne {text : String} (h : Rejection text) : text ≠ "" := by
  cases h with
  | noDirectory | unreadable | tooLong =>
      intro hempty
      obtain ⟨-, hempty⟩ := String.append_eq_empty_iff.mp hempty
      revert hempty
      decide
  | notUtf8 => decide

theorem causes_succeed (config : Config) (a : TaskRunAttempt) (child : TaskRunAttemptChild) :
    (causes lib).Triple cond thread (fun w => Has a child w ∧ Found a .succeeded w)
      (setToSucceeded config a child) fun _ _ => True := by
  have hended : Permanent cond (AttemptHas (EndedAs (.code 0)) a.id) :=
    (endedAs_abiding _).permanent a.id
  have hboth : Permanent cond fun w => Known a w ∧ AttemptHas (EndedAs (.code 0)) a.id w :=
    (known_permanent a).and hended
  refine Triple.seq ((causes_read hboth a child).pre fun w _ h => ⟨h.1.1, h.2⟩) fun _ => ?_
  refine Triple.seq ((causes_result hboth config a).pre fun w _ h => ⟨h.1, h⟩) fun result => ?_
  cases result with
  | ok text =>
      exact (causes_finish a .succeeded (some text)).pre fun w _ h =>
        (h.1.2.and h.2).mono fun x hx => ⟨hx.1, text, rfl, hx.2⟩
  | error rejection =>
      refine Triple.of_fact (F := Rejection rejection) (fun w _ h => h.2) fun hrejection => ?_
      refine Triple.bind ((causes_remark hended a (rejection_ne hrejection)).pre
        fun w _ h => h.1) (fun _ => Triple.pre (causes_finish a .failed none) fun w _ h => ?_)
        fun _ _ _ _ => trivial
      exact (h.1.and (h.2 rfl)).mono fun x hx => .inr ⟨hx.1, rejection, hrejection, hx.2⟩

theorem causes_fail (a : TaskRunAttempt) (child : TaskRunAttemptChild) :
    (causes lib).Triple cond thread (Found a .failed) (setToFailed a child) fun _ _ => True := by
  have hended : Permanent cond (Found a .failed) :=
    (Abiding.ex fun status => (Abiding.const _).and (endedAs_abiding status)).permanent a.id
  refine Triple.seq (causes_read hended a child) fun _ =>
    (causes_finish a .failed none).pre fun w _ h => ?_
  have hfailed : AttemptHas (fun x w => ∃ status, status.success = false ∧ EndedAs status x w)
      a.id w := h
  exact hfailed.mono fun x hx => .inl hx

theorem causes_child (config : Config) (a : TaskRunAttempt) (child : TaskRunAttemptChild) :
    (causes lib).Triple cond thread (Has a child) (handleChild config a child) fun _ _ => True := by
  refine Triple.attempt_bind (causes_derive a child) fun derived => ?_
  cases derived with
  | error e =>
      refine Triple.seq ((causes_putBack a child).pre fun w _ h => h.1.2) fun _ => ?_
      exact Triple.throw fun _ _ _ => trivial
  | ok status =>
      refine Triple.pre (W := fun w => Has a child w ∧ Found a status w) ?_
        fun w _ h => ⟨h.1, h.2 status rfl⟩
      cases status with
      | succeeded => exact causes_succeed config a child
      | failed => exact (causes_fail a child).pre fun w _ h => h.2
      | timedOut => exact causes_begin config a child .timedOut (.inl rfl)
      | aborted => exact causes_begin config a child .aborted (.inr rfl)
      | running => exact (causes_keep a child).pre fun w _ h => h.1.2
      -- nothing else is ever derived
      | _ => exact Triple.of_fact (F := False) (fun _ _ h => h.2) fun h => h.elim

/-- A running attempt that was selected has been begun. -/
def Selected (a : TaskRunAttempt) (w : World) : Prop :=
  Known a w ∧ AttemptHas SpawnBegun a.id w

theorem selected_permanent (a : TaskRunAttempt) : Permanent cond (Selected a) :=
  (known_permanent a).and (spawnBegun_abiding.permanent a.id)

theorem causes_handle (config : Config) (a : TaskRunAttempt) :
    (causes lib).Triple cond thread (Selected a) (handleRunningTaskRunAttempt config a)
      fun _ _ => True := by
  refine Triple.seq (R := fun r w => Selected a w ∧ ∀ child, r = .ok (some child) →
    Fits child a.id w) ?_ fun child => ?_
  · refine Triple.perform ((selected_permanent a).stable _) (fun _ _ _ _ _ _ => trivial)
      fun w r w' hi hw h _ => ⟨(selected_permanent a).performs h hw, ?_⟩
    rintro child rfl
    exact (fits_permanent child a.id).performs h (hi.2.1 a.id child (childrenRemove_answer h))
  · cases child with
    | none => exact (causes_finish a .invalid none).pre fun w _ h => h.1.2
    | some child =>
        dsimp only
        split
        · rename_i termination hterminating
          exact (causes_terminating a child termination hterminating).pre fun w _ h =>
            ⟨h.1.1, h.2 child rfl⟩
        · exact (causes_child config a child).pre fun w _ h => ⟨h.1.1, h.2 child rfl⟩

end TaskRunAttemptMonitor

/-! ## The dispatcher -/

namespace TaskRunAttemptDispatcher

/-- A queued attempt that was selected. -/
def Queued (a : TaskRunAttempt) (w : World) : Prop :=
  Known a w ∧ (a.startedAt.isSome = true → AttemptHas SpawnBegun a.id w)

theorem queued_permanent (a : TaskRunAttempt) : Permanent cond (Queued a) :=
  (known_permanent a).and (.imp_const (spawnBegun_abiding.permanent a.id))

theorem causes_settle (a : TaskRunAttempt) (status : TaskRunAttemptStatus) :
    (causes lib).Triple cond thread (AttemptHas (Cause status none) a.id) (settle a status)
      fun _ _ => True := by
  have hcause : Permanent cond (AttemptHas (Cause status none) a.id) :=
    (cause_abiding status none).permanent a.id
  refine Triple.seq (causes_silent hcause now_silent) fun now => ?_
  refine (Triple.permanent hcause (uses_write fun w _ hw => ?_)).post fun _ _ _ _ => trivial
  intro id hid settled hsettled
  cases hid
  cases hsettled
  exact hw

/-- What deriving a status finds out. -/
def Found (a : TaskRunAttempt) : TaskRunAttemptStatus → World → Prop
  | .invalid => AttemptHas SpawnBegun a.id
  | .skipped => AttemptHas (fun x w => IsStopped w x.jobRunId) a.id
  | .queued => fun _ => True
  | .running => Known a
  | _ => fun _ => False

theorem causes_derive (config : Config) (a : TaskRunAttempt) :
    (causes lib).Triple cond thread (Queued a) (deriveNextStatus config a) fun r w =>
      ∀ status, r = .ok status → Found a status w := by
  unfold deriveNextStatus
  split
  · rename_i hstarted
    refine Triple.ret fun w _ h status hstatus => ?_
    cases hstatus
    exact h.2 hstarted
  · refine Triple.bind (causes_isStopped (queued_permanent a) a.jobRunId) (fun isStopped => ?_)
      fun _ _ _ _ => nofun
    cases isStopped with
    | true =>
        refine Triple.ret fun w _ h status hstatus => ?_
        cases hstatus
        refine attemptHas_of_known (R := fun x w => IsStopped w x.jobRunId) h.1.1
          (fun hsame hstopped => ?_) (h.2 rfl)
        have hsame : _ = _ := hsame
        rw [hsame]
        exact hstopped
    | false =>
        refine Triple.pre (W := Queued a) ?_ fun w _ h => h.1
        refine Triple.bind (causes_silent (queued_permanent a)
          (Uses.silent (shouldStayQueued_reads config a))) (fun stayQueued =>
            Triple.ret fun w _ h status hstatus => ?_) fun _ _ _ _ => nofun
        cases hstatus
        cases stayQueued with
        | true => trivial
        | false => exact h.1

/-- The task run whose command is prepared is the attempt's. -/
theorem causes_prepare (config : Config) (a : TaskRunAttempt) :
    (causes lib).Triple cond thread (Known a) (prepare lib config a) fun r w =>
      Known a w ∧ ∀ x command, r = .ok (x, command) → TaskRunKnown x w ∧ x.id = a.taskRunId := by
  have herror : ∀ {e : Err} {w : World}, ∀ x command, (Except.error e : Except Err (TaskRun × Command))
      = .ok (x, command) → TaskRunKnown x w ∧ x.id = a.taskRunId := fun _ _ h => by cases h
  refine Triple.bind (Triple.getTaskRun (K := fun x w => TaskRunKnown x w ∧ x.id = a.taskRunId)
    ((known_permanent a).stable _) (fun _ _ _ _ h => h) (fun _ w ho _ => ho.causes_pre _ w)
    fun w o r x _ _ _ hfind hholds => ⟨taskRunKnown_of_find (w := w) hfind, ?_⟩)
    (fun x => ?_) fun _ _ _ h => ⟨h.1, herror⟩
  · simpa [SelectTaskRunsFilter.holds, clause] using hholds
  have hx : Permanent cond fun w => Known a w ∧ TaskRunKnown x w ∧ x.id = a.taskRunId :=
    (known_permanent a).and ((taskRunKnown_permanent x).and (.const _))
  have reads : ∀ {α : Type} {p : Code α}, p.Uses Reads →
      (causes lib).Triple cond thread (fun w => Known a w ∧ TaskRunKnown x w ∧ x.id = a.taskRunId)
        p fun _ w => Known a w ∧ TaskRunKnown x w ∧ x.id = a.taskRunId :=
    fun hp => causes_silent hx (Uses.silent hp)
  refine Triple.bind ((reads ((selectJobRun_reads _).bind fun _ => orBail_uses)).pre
    fun w _ h => ⟨h.1, h.2 x rfl⟩) (fun jobRun => ?_) fun _ _ _ h => ⟨h.1, herror⟩
  refine Triple.bind (reads (jobRunDir_reads _ _)) (fun dir => ?_) fun _ _ _ h => ⟨h.1, herror⟩
  refine Triple.bind (reads (getInputs_reads _ _)) (fun inputs => ?_)
    fun _ _ _ h => ⟨h.1, herror⟩
  refine Triple.bind (causes_uses hx (writePreviousAttemptFiles_uses
    (fun o ho w => ho.1.causes_pre _ w) (fun _ _ _ => trivial) a dir)) (fun previous => ?_)
    fun _ _ _ h => ⟨h.1, herror⟩
  cases hbuilt : buildTaskRunAttemptEnv lib x jobRun a config.app.dataDir dir inputs previous
      config.app.secrets with
  | error e => exact Triple.throw fun w _ h => ⟨h.1, herror⟩
  | ok env =>
      refine Triple.ret fun w _ h => ⟨h.1, fun y command heq => ?_⟩
      cases heq
      exact h.2

/-- What a spawn hands over is the attempt's own. -/
theorem causes_spawn {P : World → Prop} (hP : Permanent cond P) (a : TaskRunAttempt)
    (command : Command) (startedAt : Instant) :
    (causes lib).Triple cond thread P (Crud.perform (.spawn a.id command startedAt))
      fun r w => P w ∧ ∀ n group, r = .ok (n, group) → SpawnedFor n a.id w ∧
        Answered (.spawn a.id command startedAt) (n, group) w := by
  refine Triple.perform (hP.stable _) (fun _ _ _ _ _ _ => trivial) fun w r w' _ hw h _ =>
    ⟨hP.performs h hw, ?_⟩
  rintro n group rfl
  exact ⟨⟨_, (spawn_answer h).1, rfl⟩, answered_performs h⟩

/-- The child is handed over with its limits, and then the attempt is set to running. -/
theorem causes_handOver (a : TaskRunAttempt) (child : TaskRunAttemptChild) (group : Nat) :
    (causes lib).Triple cond thread (fun w => Fits child a.id w ∧ AttemptHas SpawnBegun a.id w)
      (handOver a child group) fun _ _ => True := by
  have hboth : Permanent cond fun w => Fits child a.id w ∧ AttemptHas SpawnBegun a.id w :=
    (fits_permanent child a.id).and (spawnBegun_abiding.permanent a.id)
  refine Triple.seq (Triple.permanent hboth ((Prog.uses_perform _).mpr fun w _ hw => hw.1))
    fun _ => ?_
  refine (Triple.permanent hboth (uses_write fun w _ hw => ?_)).post fun _ _ _ _ => trivial
  intro id hid settled hsettled
  cases hid
  cases hsettled
  exact hw.2

theorem causes_setToRunning (config : Config) (a : TaskRunAttempt) :
    (causes lib).Triple cond thread (Known a) (setToRunning lib config a) fun _ _ => True := by
  refine Triple.seq (causes_prepare config a) fun (x, command) => ?_
  have hx : Permanent cond fun w => Known a w ∧ TaskRunKnown x w ∧ x.id = a.taskRunId :=
    (known_permanent a).and ((taskRunKnown_permanent x).and (.const _))
  refine Triple.seq ((causes_silent hx now_silent).pre fun w _ h => ⟨h.1, h.2 x command rfl⟩)
    fun startedAt => ?_
  refine Triple.seq (Triple.told hx fun w _ => ?_) fun _ => ?_
  · intro id _ settled hsettled
    cases hsettled
  have hbegun : Permanent cond fun w =>
      (Known a w ∧ TaskRunKnown x w ∧ x.id = a.taskRunId) ∧ AttemptHas SpawnBegun a.id w :=
    hx.and (spawnBegun_abiding.permanent a.id)
  refine Triple.pre (W := fun w => (Known a w ∧ TaskRunKnown x w ∧ x.id = a.taskRunId) ∧
    AttemptHas SpawnBegun a.id w) ?_ fun w _ h => ⟨h.1, ?_⟩
  · refine Triple.attempt_bind (causes_spawn hbegun a command startedAt) fun spawned => ?_
    cases spawned with
    | error e =>
        refine Triple.seq (R := fun _ _ => True) ?_ fun _ => Triple.throw fun _ _ _ => trivial
        refine (causes_uses (Permanent.const True) (uses_write fun w => ?_)).pre
          fun _ _ _ => trivial
        intro id _ settled hsettled
        cases hsettled
    | ok spawned =>
        obtain ⟨n, group⟩ := spawned
        refine (causes_handOver a (childOf x startedAt n) group).pre fun w _ h => ⟨?_, h.1.2⟩
        obtain ⟨hprocess, hspawned⟩ := h.2 n group rfl
        have hunder : AttemptHas (SpawnedUnder x startedAt n) a.id w :=
          attemptHas_of_known h.1.1.1 (fun hsame => .same hsame)
            ⟨h.1.1.2, hprocess, command, group, hspawned⟩
        exact ⟨hunder.mono fun _ hunder => ⟨⟨x, startedAt, hunder, rfl⟩, nofun⟩, nofun⟩
  · refine attemptHas_of_known h.1.1 (fun hsame hbegun => ?_) ⟨startedAt, h.2 () rfl⟩
    have hsame : _ = _ := hsame
    rw [hsame]
    exact hbegun

theorem causes_handle (config : Config) (a : TaskRunAttempt) :
    (causes lib).Triple cond thread (Queued a) (handleQueuedTaskRunAttempt lib config a)
      fun _ _ => True := by
  refine Triple.bind (causes_derive config a) (fun status => ?_) fun _ _ _ _ => trivial
  refine Triple.pre (W := Found a status) ?_ fun w _ h => h status rfl
  cases status with
  | invalid => exact causes_settle a .invalid
  | skipped => exact causes_settle a .skipped
  | queued => exact Triple.ret fun _ _ _ => trivial
  | running => exact causes_setToRunning config a
  -- nothing else is ever derived
  | _ => exact Triple.of_fact (F := False) (fun _ _ h => h) fun h => h.elim

end TaskRunAttemptDispatcher

/-! ## The outline holds -/

/-- What is so of a row that is selected is so behind the selection. -/
theorem AttemptHas.selected {id : Nat} {w : World} {e : Host.Event}
    (h : AttemptHas SpawnBegun id w) :
    AttemptHas SpawnBegun id { w with log := e :: w.log } :=
  ⟨h.1, fun a ha => by
    obtain ⟨startedAt, t, hmem⟩ := h.2 a ha
    exact ⟨startedAt, t, List.mem_cons_of_mem _ hmem⟩⟩

/-- Who runs was begun. -/
theorem spawnBegun_of_running {w : World} (hi : (causes lib).inv w) {a : TaskRunAttempt}
    (ha : w.db.taskRunAttempts.find a.id = some a) (hrunning : a.status = .running) :
    AttemptHas SpawnBegun a.id w := by
  refine ⟨Table.lt_next_of_find ha, fun b hb => ?_⟩
  cases ha.symm.trans hb
  have hcause := (hi.1 a (Table.mem_of_find ha)).1
  rw [hrunning] at hcause
  exact hcause

/-- Rows that are selected as running. -/
theorem causes_selectRunning {t : Tid} (s : Option SelectTaskRunAttemptsSort) :
    (causes lib).Triple cond t (fun _ => True)
      (Crud.selectTaskRunAttempts { status := some .running } s) fun r w => True ∧
        ∀ rows, r = .ok rows → rows.Pairwise (fun a b => a.id ≠ b.id) ∧
          ∀ a ∈ rows, TaskRunAttemptMonitor.Selected a w := by
  refine Triple.selectTaskRunAttempts (K := TaskRunAttemptMonitor.Selected) (stable_true _)
    (fun _ _ _ => trivial) (fun _ _ => trivial) fun w r a hi _ hfind hholds => ⟨?_, ?_⟩
  · exact known_of_find (w := { w with log := _ :: w.log }) hfind
  · have hrunning : a.status = .running := by
      simpa [SelectTaskRunAttemptsFilter.holds, clause] using hholds
    exact (spawnBegun_of_running hi hfind hrunning).selected

theorem causes_recover (bootTime : Option Instant) (a : TaskRunAttempt) :
    (causes lib).Triple cond (.service .recovery) (TaskRunAttemptMonitor.Selected a)
      (Recovery.recoverTaskRunAttempt bootTime a) fun _ _ => True := by
  refine (Triple.permanent (TaskRunAttemptMonitor.selected_permanent a)
    (recoverTaskRunAttempt_uses (fun o ho w _ _ => ho.causes_pre _ w) (fun _ _ _ _ => trivial)
      (fun _ _ _ _ => trivial) bootTime a fun now w _ hw => ?_)).post fun _ _ _ _ => trivial
  intro id hid settled hsettled
  cases hid
  cases hsettled
  exact hw.2

theorem causes_recovery :
    (causes lib).Triple cond (.service .recovery) (fun _ => True) Recovery.recoverThenStart
      fun _ _ => True := by
  refine Triple.seq (causes_uses (.const True) (uses_op fun _ => trivial)) fun bootTime => ?_
  refine Triple.seq (R := fun _ _ => True) ?_ fun _ =>
    causes_uses (.const True) (uses_op fun _ => trivial)
  refine Triple.bind (causes_selectRunning _) (fun rows => ?_) fun _ _ _ _ => trivial
  have hrows : Permanent cond fun w : World => ∀ a ∈ rows, TaskRunAttemptMonitor.Selected a w :=
    .all fun a => .imp_const (TaskRunAttemptMonitor.selected_permanent a)
  refine ((Triple.each (P := fun w => ∀ a ∈ rows, TaskRunAttemptMonitor.Selected a w)
    fun a ha => ?_).pre fun w _ h => (h.2 rows rfl).2).post fun _ _ _ _ => trivial
  exact (((causes_recover bootTime a).past hrows).pre fun w _ h => ⟨h a ha, h⟩).post
    fun _ _ _ h => h.2

theorem causes_monitor (config : Config) :
    (causes lib).Triple cond TaskRunAttemptMonitor.thread (fun _ => True)
      (TaskRunAttemptMonitor.poller config).pass fun _ _ => True :=
  Poller.pass_triple (P := fun _ => True) (K := TaskRunAttemptMonitor.Selected)
    (R := fun a b : TaskRunAttempt => a.id ≠ b.id) (causes_selectRunning _)
    (fun a => (TaskRunAttemptMonitor.selected_permanent a).stable _)
    (fun a => (TaskRunAttemptMonitor.causes_handle config a).pre fun _ _ h => h.2)
    fun _ b _ => .of_forall _ fun _ _ _ _ _ _ _ h =>
      (TaskRunAttemptMonitor.selected_permanent b).performs h

theorem causes_dispatcher (config : Config) :
    (causes lib).Triple cond TaskRunAttemptDispatcher.thread (fun _ => True)
      (TaskRunAttemptDispatcher.poller lib config).pass fun _ _ => True := by
  refine Poller.pass_triple (P := fun _ => True) (K := TaskRunAttemptDispatcher.Queued)
    (R := fun a b : TaskRunAttempt => a.id ≠ b.id) ?_
    (fun a => (TaskRunAttemptDispatcher.queued_permanent a).stable _)
    (fun a => (TaskRunAttemptDispatcher.causes_handle config a).pre fun _ _ h => h.2)
    fun _ b _ => .of_forall _ fun _ _ _ _ _ _ _ h =>
      (TaskRunAttemptDispatcher.queued_permanent b).performs h
  refine Triple.selectTaskRunAttempts (stable_true _) (fun _ _ _ => trivial) (fun _ _ => trivial)
    fun w r a hi _ hfind _ => ⟨?_, fun hstarted => ?_⟩
  · exact known_of_find (w := { w with log := _ :: w.log }) hfind
  · have hbegun : AttemptHas SpawnBegun a.id w := by
      refine ⟨Table.lt_next_of_find hfind, fun b hb => ?_⟩
      cases hfind.symm.trans hb
      exact (hi.1 a (Table.mem_of_find hfind)).2 hstarted
    exact hbegun.selected

theorem causes_valid (hb : cond.Le (base lib).established) : (causes lib).Valid cond where
  init := by
    rintro w rfl
    refine ⟨⟨fun a ha => absurd ha List.not_mem_nil, fun id child hchild => (nomatch hchild), ?_⟩,
      fun _ => trivial⟩
    rintro n ⟨_, _, _, hmem, -⟩
    cases hmem
  step _ _ _ _ _ hi hpre hperf := causes_performs hb hi hpre hperf
  env _ _ _ hi hhappens := ⟨causes_happens hi hhappens, fun _ _ => trivial⟩
  idle t := stable_true t
  start := by
    -- nobody else sets a status, or has a child
    have hothers : ∀ {t : Tid}, t ≠ TaskRunAttemptMonitor.thread →
        t ≠ TaskRunAttemptDispatcher.thread → t ≠ .service .recovery → ∀ p : Code Unit,
        (causes lib).Triple cond t (fun _ => True) p fun _ _ => True := by
      intro t hmonitor hdispatcher hrecovery p
      refine Triple.of_pre fun o w r w' _ hperf => ?_
      have hallowed := allowed_of hb hperf
      cases o with
      | childrenInsert id child => exact (hallowed.2.elim hdispatcher hmonitor).elim
      | write q =>
          cases q with
          | updateTaskRunAttempts f i =>
              cases hallowed with
              | dropAttempt | startAttempt | markStarted => exact absurd rfl hdispatcher
              | settleAttempt => exact absurd rfl hmonitor
              | recoverAttempt => exact absurd rfl hrecovery
              | wait =>
                  intro id _ settled hsettled
                  cases hsettled
          | _ => trivial
      | _ => trivial
    refine start_triple (fun config fuel s => ?_) fun c r => hothers (by nofun) (by nofun) (by nofun) _
    refine Triple.pre ?_ fun _ _ _ => trivial
    cases s with
    | recovery => exact causes_recovery
    | taskRunAttemptMonitor => exact causes_monitor config
    | taskRunAttemptDispatcher => exact causes_dispatcher config
    | _ => exact hothers (by nofun) (by nofun) (by nofun) _

end Flowlite

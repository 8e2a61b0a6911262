import Flowlite.Logic.Processes

/-!
# The monitor's way through a child it holds

From the moment the child is out of the map, each pass goes one of a few ways:
derive a status; note a timeout; ask the command to exit, or kill it; read what it
printed to the end; settle the attempt, or hand the child back. `Phases` is what an
outline says between these parts, and a triple for each of them; how they fit together
is proved here once.
-/

namespace Flowlite

open Store Host Threads Crud Machine Outline TaskRunAttemptMonitor

variable {lib : Library} {cond : (flowlite lib).Condition} {O : Outline (flowlite lib)}

/-- `P` where a part of the code went through, `Q` where it stopped at an error. -/
def Outcome {α : Type} (P Q : World → Prop) : Except Err α → World → Prop
  | .ok _ => P
  | .error _ => Q

theorem Outcome.intro {α : Type} {P Q : World → Prop} {r : Except Err α} {w : World} (hP : P w)
    (hQ : Q w) : Outcome P Q r w := by
  cases r with
  | ok _ => exact hP
  | error _ => exact hQ

/-- An operation that cannot fail stops no code. -/
theorem Triple.infallible {t : Tid} {o : Op} {P W Q : World → Prop} (ho : Infallible o)
    (h : O.Triple cond t P (Crud.perform o) fun _ => W) :
    O.Triple cond t P (Crud.perform o) (Outcome W Q) := by
  intro w hi hP w₁ hothers hi₁ r w₂ hperf
  obtain ⟨hpre, hnext⟩ := h w hi hP w₁ hothers hi₁ r w₂ hperf
  obtain ⟨a, rfl⟩ := ho.succeeds hperf
  exact ⟨hpre, hnext⟩

/-- What the monitor knows at each stage of handling a child it holds, and what leads
from one to the next. `Q` is what it leaves behind, however it ends. -/
structure Phases (O : Outline (flowlite lib)) (cond : (flowlite lib).Condition)
    (config : Config) (a : TaskRunAttempt) (Q : World → Prop) where
  /-- Nothing has been decided. -/
  held : TaskRunAttemptChild → World → Prop
  /-- The command is to be ended, and the attempt to settle so. -/
  decided : TaskRunAttemptChild → TaskRunAttemptStatus → World → Prop
  /-- A timeout has been noted by now. -/
  ending : TaskRunAttemptChild → TaskRunAttemptStatus → World → Prop
  /-- The command has exited, or was killed. -/
  dead : TaskRunAttemptChild → TaskRunAttemptStatus → World → Prop
  /-- What it printed was read to the end. -/
  received : TaskRunAttemptStatus → World → Prop
  /-- Its result will not be recorded, for this reason. -/
  refused : String → World → Prop
  /-- All that is left is to settle the attempt. -/
  settling : TaskRunAttemptStatus → World → Prop
  derive : ∀ child, O.Triple cond thread (held child) (deriveNextStatus a child) fun r w =>
    match r with
    | .ok .succeeded => dead child .succeeded w
    | .ok .failed => dead child .failed w
    | .ok .timedOut => decided child .timedOut w
    | .ok .aborted => decided child .aborted w
    | .ok .running => held child w
    | .ok _ => False
    | .error _ => held child w
  note : ∀ child status, O.Triple cond thread (decided child status)
    (noteTimeout a child status) (Outcome (ending child status) Q)
  wait : ∀ child status o, o = .now ∨ o = .processGroupIsGone child.process ∨
      o = .terminateProcessGroup child.process →
    O.Triple cond thread (ending child status) (Crud.perform o)
      (Outcome (ending child status) Q)
  kill : ∀ child status, O.Triple cond thread (ending child status)
    (Crud.perform (.killProcessGroup child.process)) (Outcome (dead child status) Q)
  receive : ∀ child status, O.Triple cond thread (dead child status) (finishReading a child)
    (Outcome (received status) Q)
  result : O.Triple cond thread (received .succeeded) (readTaskOutput config a) fun r w =>
    match r with
    | .ok (.ok _) => settling .succeeded w
    | .ok (.error rejection) => refused rejection w
    | .error _ => Q w
  refuse : ∀ rejection, O.Triple cond thread (refused rejection) (insertOutput a "" rejection)
    (Outcome (settling .failed) Q)
  settle : ∀ status w, O.inv w → status ≠ .succeeded → received status w → settling status w
  finish : ∀ status output, O.Triple cond thread (settling status)
    (finishTaskRunAttempt a status output) fun _ => Q
  putBack : ∀ child, O.Triple cond thread (held child)
    (Crud.perform (.childrenInsert a.id child)) fun _ => Q
  keep : ∀ child, O.Triple cond thread (held child) (recordAndPutBack a child) fun _ => Q
  keepEnding : ∀ child termination, O.Triple cond thread (ending child termination.status)
    (recordAndPutBack a { child with terminating := some termination }) fun _ => Q

namespace Phases

variable {config : Config} {a : TaskRunAttempt} {Q : World → Prop}
  (ph : Phases O cond config a Q)

include ph

theorem finish_received {status : TaskRunAttemptStatus} (hstatus : status ≠ .succeeded)
    (output : Option String) :
    O.Triple cond thread (ph.received status) (finishTaskRunAttempt a status output) fun _ => Q :=
  (ph.finish status output).pre fun w hi h => ph.settle status w hi hstatus h

theorem finish_ending (child : TaskRunAttemptChild) {status : TaskRunAttemptStatus}
    (hstatus : status ≠ .succeeded) :
    O.Triple cond thread (ph.ending child status) (finishTermination a child status)
      fun _ => Q := by
  refine Triple.bind (ph.kill child status) (fun _ => ?_) fun _ _ _ h => h
  refine Triple.bind (ph.receive child status) (fun _ => ?_) fun _ _ _ h => h
  exact ph.finish_received hstatus none

theorem handleTerminating (child : TaskRunAttemptChild) {termination : Termination}
    (hchild : child.terminating = some termination) (hstatus : termination.status ≠ .succeeded) :
    O.Triple cond thread (ph.ending child termination.status)
      (handleTerminating a child termination) fun _ => Q := by
  refine Triple.bind (ph.wait child _ .now (.inl rfl)) (fun now => ?_) fun _ _ _ h => h
  split
  · exact ph.finish_ending child hstatus
  · refine Triple.bind (ph.wait child _ _ (.inr (.inl rfl))) (fun isGone => ?_) fun _ _ _ h => h
    split
    · exact ph.finish_ending child hstatus
    · have := ph.keepEnding child termination
      rwa [← hchild] at this

theorem beginTermination (child : TaskRunAttemptChild) {status : TaskRunAttemptStatus}
    (hstatus : status ≠ .succeeded) :
    O.Triple cond thread (ph.decided child status) (beginTermination config a child status)
      fun _ => Q := by
  refine Triple.bind (ph.note child status) (fun _ => ?_) fun _ _ _ h => h
  split
  · exact ph.finish_ending child hstatus
  · refine Triple.bind (ph.wait child _ _ (.inr (.inr rfl))) (fun _ => ?_) fun _ _ _ h => h
    refine Triple.bind (ph.wait child _ .now (.inl rfl)) (fun now => ?_) fun _ _ _ h => h
    exact ph.keepEnding child { status, killAt := now + seconds config.app.killGraceSeconds }

theorem setToSucceeded (child : TaskRunAttemptChild) :
    O.Triple cond thread (ph.dead child .succeeded) (setToSucceeded config a child)
      fun _ => Q := by
  refine Triple.bind (ph.receive child _) (fun _ => ?_) fun _ _ _ h => h
  refine Triple.bind ph.result (fun result => ?_) fun _ _ _ h => h
  cases result with
  | ok output => exact ph.finish .succeeded (some output)
  | error rejection =>
      refine Triple.bind (ph.refuse rejection) (fun _ => ?_) fun _ _ _ h => h
      exact ph.finish .failed none

theorem setToFailed (child : TaskRunAttemptChild) :
    O.Triple cond thread (ph.dead child .failed) (setToFailed a child) fun _ => Q := by
  refine Triple.bind (ph.receive child _) (fun _ => ?_) fun _ _ _ h => h
  exact ph.finish_received (by nofun) none

/-- What the monitor knows once it has tried to derive the next status. -/
def afterDerive (child : TaskRunAttemptChild) :
    Except Err (Except Err TaskRunAttemptStatus) → World → Prop
  | .ok (.ok .succeeded) => ph.dead child .succeeded
  | .ok (.ok .failed) => ph.dead child .failed
  | .ok (.ok .timedOut) => ph.decided child .timedOut
  | .ok (.ok .aborted) => ph.decided child .aborted
  | .ok (.ok .running) | .ok (.error _) => ph.held child
  | .ok (.ok _) => fun _ => False
  | .error _ => Q

theorem handleChild (child : TaskRunAttemptChild) :
    O.Triple cond thread (ph.held child) (handleChild config a child) fun _ => Q := by
  refine Triple.bind (Triple.attempt (Q := ph.afterDerive child) ((ph.derive child).post ?_))
    (fun derived => ?_) fun _ _ _ h => h
  · intro r w _ h
    cases r with
    | error e => exact h
    | ok status => cases status <;> exact h
  · cases derived with
    | error e =>
        show O.Triple cond thread (ph.held child)
          (Crud.perform (.childrenInsert a.id child) >>= fun _ => Prog.throw e) fun _ => Q
        refine Triple.bind (ph.putBack child) (fun _ => ?_) fun _ _ _ h => h
        exact Triple.throw fun _ _ h => h
    | ok status =>
        cases status with
        | succeeded => exact ph.setToSucceeded child
        | failed => exact ph.setToFailed child
        | timedOut => exact ph.beginTermination child (by simp)
        | aborted => exact ph.beginTermination child (by simp)
        | running => exact ph.keep child
        -- nothing else is ever derived
        | _ => exact Triple.of_fact (F := False) (fun _ _ h => h) fun h => h.elim

end Phases

/-- A child is handed back whether or not what it printed was recorded. -/
theorem recordAndPutBack_triple {P P' Q : World → Prop} {a : TaskRunAttempt}
    {child : TaskRunAttemptChild}
    (hrecord : O.Triple cond thread P (recordOutput a child) fun _ => P')
    (hinsert : O.Triple cond thread P' (Crud.perform (.childrenInsert a.id child)) fun _ => Q) :
    O.Triple cond thread P (recordAndPutBack a child) fun _ => Q := by
  refine Triple.bind (Triple.attempt (Q := Outcome P' fun _ => False) hrecord)
    (fun result => ?_) fun _ _ _ h => h.elim
  refine Triple.bind hinsert (fun _ => ?_) fun _ _ _ h => h
  cases result with
  | ok _ => exact Triple.ret fun _ _ h => h
  | error _ => exact Triple.throw fun _ _ h => h

/-! ## What it derives -/

/-- Deriving only reads; it answers that the command exited only where it did, and so. -/
theorem deriveNextStatus_triple {P : World → Prop} {a : TaskRunAttempt}
    {child : TaskRunAttemptChild} (hP : O.Stable cond thread P)
    (hsilent : ∀ o, Silent o → ∀ w r w', O.inv w → P w → Performs cond thread o w r w' →
      O.pre thread o w ∧ (O.inv w' → P w')) :
    O.Triple cond thread P (deriveNextStatus a child) fun r w => match r with
      | .ok .succeeded => P w ∧ ∃ status, Exited child.process status w ∧ status.success = true
      | .ok .failed => P w ∧ ∃ status, Exited child.process status w ∧ status.success = false
      | .ok .timedOut | .ok .aborted | .ok .running => P w
      | .ok _ => False
      | .error _ => P w := by
  have silent : ∀ {α : Type} {p : Code α}, p.Uses Silent → O.Triple cond thread P p fun _ => P :=
    fun hp => Triple.of_uses hP (hp.mono hsilent)
  refine Triple.bind (R := fun r w => P w ∧ ∀ status, r = .ok (some status) →
    Exited child.process status w) ?_ (fun exited => ?_) fun _ _ _ h => h.1
  · have hwait := hsilent (.tryWait child.process) trivial
    refine Triple.perform hP (fun w r w' hi hw hperf => (hwait w r w' hi hw hperf).1)
      fun w r w' hi hw hperf hi' => ⟨(hwait w r w' hi hw hperf).2 hi', ?_⟩
    rintro status rfl
    obtain ⟨p, hp, hexited⟩ := Option.bind_eq_some_iff.mp (tryWait_answer hperf)
    have hw' := silent_performs (o := .tryWait child.process) trivial hperf
    exact ⟨p, by rw [hw']; exact hp, hexited⟩
  cases exited with
  | some status =>
      refine Triple.ret fun w _ h => ?_
      cases hsuccess : status.success with
      | false => exact ⟨h.1, status, h.2 status rfl, hsuccess⟩
      | true => exact ⟨h.1, status, h.2 status rfl, hsuccess⟩
  | none =>
      refine Triple.pre (W := P) ?_ fun _ _ h => h.1
      refine Triple.bind (silent now_silent) (fun wallNow => ?_) fun _ _ _ h => h
      split
      · exact Triple.ret fun _ _ h => h
      refine Triple.bind (silent now_silent) (fun idleNow => ?_) fun _ _ _ h => h
      refine Triple.bind (silent (p := Crud.perform (.lastOutputAt child.process))
        ((Prog.uses_perform _).mpr trivial)) (fun last => ?_) fun _ _ _ h => h
      split
      · exact Triple.ret fun _ _ h => h
      refine Triple.bind (silent (isJobRunStopped_silent _)) (fun isStopped => ?_) fun _ _ _ h => h
      cases isStopped <;> exact Triple.ret fun _ _ h => h

end Flowlite

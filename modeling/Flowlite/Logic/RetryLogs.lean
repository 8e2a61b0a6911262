import Flowlite.Logic.Transcripts

/-!
# From the monitor to the next attempt

How one pass of the monitor keeps the rows of an attempt told, up to the note behind
them; and how the dispatcher reads them back for the attempt that comes after.
-/

namespace Flowlite

open Store Host Threads Crud Machine Outline TaskRunAttemptMonitor

variable {lib : Library} {cond : (flowlite lib).Condition}

/-- What holds of every run of the system, as far as it is about the rows of attempts. -/
structure Recorded (cond : (flowlite lib).Condition) : Prop where
  attended : Attended cond
  outputs : cond.Le (outputs lib).established
  releases : cond.Le (releases lib).established
  retries : cond.Le (retries lib).established

/-! ## What the monitor knows -/

/-- The monitor has the child, its attempt runs, and the rows are told. -/
def Scribes (note rest : String) (n : Nat) (a : TaskRunAttempt) (w : World) : Prop :=
  (Attending n a.id w ∧ Known a w) ∧ Scribed note rest n a.id w

/-- Neither a child nor a failure nor a file. -/
def KeepsTold : Op → Prop
  | .childrenInsert _ _ | .writeFile _ _ => False
  | .write (.updateTaskRunAttempts _ i) => i.status ≠ some .failed
  | _ => True

theorem keepsTold_pre {t : Tid} {o : Op} (ho : KeepsTold o) (w : World) :
    (transcripts lib).pre t o w := by
  cases o with
  | childrenInsert => exact ho.elim
  | writeFile => exact ho.elim
  | write q =>
      cases q with
      | updateTaskRunAttempts f i => exact fun hset => absurd hset ho
      | _ => trivial
  | _ => trivial

theorem Silent.keepsTold {o : Op} (h : Silent o) : KeepsTold o := by
  cases o <;> trivial

/-- The monitor writes no files. -/
theorem keepsBooks_told {o : Op} (ho : KeepsBooks o) (w : World) :
    (transcripts lib).pre thread o w := by
  obtain ⟨hstatus, hchildren, -⟩ := ho
  cases o with
  | childrenInsert => exact hchildren.elim
  | writeFile => exact nofun
  | write q =>
      cases q with
      | updateTaskRunAttempts f i =>
          intro hset
          rw [show i.status = none from hstatus] at hset
          cases hset
      | _ => trivial
  | _ => trivial

section Knowledge

variable {o : Op} {w w' : World} {r : Result o} {n : Nat} {a : TaskRunAttempt}
  {note rest : String}

theorem scribes_kept (hr : Recorded cond) (ho : KeepsBooks o) (h : Performs cond thread o w r w')
    (hw : Scribes note rest n a w) : Scribes note rest n a w' :=
  ⟨attending_kept hr.attended ho.1 ho.2.1 h hw.1,
    scribed_kept (logged_of hr.outputs h).runs hw.1.2.1 (ho.2.2.1 n) (ho.2.2.2 a.id) h hw.2⟩

theorem scribes_stable (hr : Recorded cond) :
    (transcripts lib).Stable cond thread (Scribes note rest n a) := by
  intro w w' hothers hw
  refine ⟨attending_stable hr.attended n a w w' hothers hw.1, ?_⟩
  cases hothers with
  | run hu _ _ _ hperf =>
      -- only the monitor reads and writes
      have hallowed := allowed_of hr.attended.base hperf
      refine scribed_kept (logged_of hr.outputs hperf).runs hw.1.2.1 ?_ ?_ hperf hw.2
      · rintro (rfl | rfl) <;> exact hu hallowed
      · rintro ⟨i, rfl, -⟩
        cases hallowed
        exact hu rfl
  | env _ _ _ hhappens => exact scribed_happens hhappens hw.2

theorem scribes_uses (hr : Recorded cond) {α : Type} {p : Code α} (hp : p.Uses KeepsBooks) :
    (transcripts lib).Triple cond thread (Scribes note rest n a) p
      fun _ => Scribes note rest n a :=
  Triple.of_uses (scribes_stable hr) (hp.mono fun _ ho w _ _ _ hw hperf =>
    ⟨keepsBooks_told ho w, fun _ => scribes_kept hr ho hperf hw⟩)

/-- Code of which nothing is asked. -/
theorem told_uses {α : Type} {t : Tid} {P : World → Prop} {p : Code α} (hp : p.Uses KeepsTold) :
    (transcripts lib).Triple cond t P p fun _ _ => True := by
  refine Triple.pre (W := fun _ => True) ?_ fun _ _ _ => trivial
  exact Triple.of_uses (stable_true _) (hp.mono fun _ ho w _ _ _ _ _ =>
    ⟨keepsTold_pre ho w, fun _ => trivial⟩)

/-! ## Receiving -/

/-- What a drain takes is still to be written. -/
theorem scribes_receive (hr : Recorded cond) {p : Process} (hp : w.procs.find n = some p)
    (ho : Receives n o) (h : Performs cond thread o w r w') (hw : Scribes "" "" n a w) :
    Scribes "" (asRecorded p.chunks) n a w' := by
  have hstatus : KeepsStatus o := by rcases ho with rfl | rfl <;> trivial
  have hchildren : KeepsChildren o := by rcases ho with rfl | rfl <;> trivial
  have hprints : ¬ Prints a.id o := by
    rintro ⟨i, heq, -⟩
    rcases ho with rfl | rfl <;> cases heq
  refine ⟨attending_kept hr.attended hstatus hchildren h hw.1, fun x' hx' => ?_⟩
  obtain ⟨x, hx, -⟩ := attempt_before h hw.1.1.1.2.1 hx'
  obtain ⟨q, hq, hdrain⟩ := received_drain ho h
  cases hp.symm.trans hq
  have hbefore := hw.2 x hx
  rw [String.append_empty, String.append_empty] at hbefore
  rw [transcript_kept (logged_of hr.outputs h).runs hx hx' hprints h, hdrain, hbefore,
    List.map_append, String.join_append, String.append_empty]
  simp

theorem scribes_tryRecvAll (hr : Recorded cond) :
    (transcripts lib).Triple cond thread (Scribes "" "" n a) (Crud.perform (.tryRecvAll n))
      fun r w => match r with
        | .ok chunks => Scribes "" (asRecorded chunks) n a w ∧ RecordsSoFar w
        | .error _ => False := by
  refine Triple.perform (scribes_stable hr) (fun _ _ _ _ _ _ => trivial)
    fun w r w' _ hw hperf _ => ?_
  obtain ⟨chunks, rfl⟩ := Infallible.succeeds (by trivial) hperf
  obtain ⟨p, hp, rfl⟩ := tryRecvAll_answer hperf
  exact ⟨scribes_receive hr hp (.inl rfl) hperf hw, recordsSoFar_receive hperf⟩

theorem scribes_recvUntilClosed (hr : Recorded cond) :
    (transcripts lib).Triple cond thread (Scribes "" "" n a) (Crud.perform (.recvUntilClosed n))
      fun r w => match r with
        | .ok (chunks, _) => Scribes "" (asRecorded chunks) n a w
        | .error _ => False := by
  refine Triple.perform (scribes_stable hr) (fun _ _ _ _ _ _ => trivial)
    fun w r w' _ hw hperf _ => ?_
  obtain ⟨⟨chunks, closed⟩, rfl⟩ := Infallible.succeeds (by trivial) hperf
  obtain ⟨p, hp, rfl, -⟩ := recvUntilClosed_answer hperf
  exact scribes_receive hr hp (.inr rfl) hperf hw

end Knowledge

/-! ## Writing down -/

section Writing

variable {n : Nat} {a : TaskRunAttempt} {note : String}

/-- A row takes its text from what is still to be written. -/
theorem scribed_print (hr : Recorded cond) {stream : TaskRunAttemptOutputStream}
    {content rest : String} {m : Nat} {w w' : World}
    (h : Performs cond thread
      (.write (.insertTaskRunAttemptOutput (outputInput a stream content))) w (.ok m) w')
    (hid : a.id < w.db.taskRunAttempts.next) (hw : Scribed note (content ++ rest) n a.id w) :
    Scribed note rest n a.id w' := by
  intro x' hx'
  obtain ⟨x, hx, -⟩ := attempt_before h hid hx'
  have hrow : added a.id (fun _ => true)
      (.write (.insertTaskRunAttemptOutput (outputInput a stream content))) (.ok m) = [content] := by
    simp [added, outputInput]
  rw [Database.transcript, outputRows_performs (logged_of hr.outputs h).runs h hx hx', hrow,
    String.join_append, received_kept (by rintro (heq | heq) <;> cases heq) h, ← hw x hx,
    Database.transcript]
  simp [String.append_assoc]

/-- `R` is what else is known, and `E` what a failure leaves. -/
theorem scribes_print (hr : Recorded cond) {R E : World → Prop}
    (hR : (transcripts lib).Stable cond thread R)
    (hkeep : ∀ i w r w', Performs cond thread (.write (.insertTaskRunAttemptOutput i)) w r w' →
      R w → R w')
    (hfail : ∀ stream content e w w', Performs cond thread
      (.write (.insertTaskRunAttemptOutput (outputInput a stream content))) w (.error e) w' →
      Attending n a.id w ∧ Known a w → R w → E w')
    (stream : TaskRunAttemptOutputStream) (content rest : String) :
    (transcripts lib).Triple cond thread (fun w => Scribes note (content ++ rest) n a w ∧ R w)
      (insertStream a stream content) (Outcome (fun w => Scribes note rest n a w ∧ R w) E) := by
  unfold insertStream
  split
  · rename_i hempty
    rw [hempty, String.empty_append]
    exact Triple.ret fun _ _ h => h
  refine Triple.bind (R := Outcome (fun w => Scribes note rest n a w ∧ R w) E) ?_
    (fun _ => Triple.ret fun _ _ h => h) fun _ _ _ h => h
  refine Triple.perform ((scribes_stable hr).and hR) (fun _ _ _ _ _ _ => trivial)
    fun w r w' _ hw hperf _ => ?_
  cases r with
  | error e => exact hfail stream _ e w w' hperf hw.1.1 hw.2
  | ok m =>
      exact ⟨⟨print_attends hr.attended hperf hw.1.1,
        scribed_print hr hperf hw.1.1.1.1.2.1 hw.1.2⟩, hkeep _ w _ w' hperf hw.2⟩

theorem scribes_printAll (hr : Recorded cond) {R E : World → Prop}
    (hR : (transcripts lib).Stable cond thread R)
    (hkeep : ∀ i w r w', Performs cond thread (.write (.insertTaskRunAttemptOutput i)) w r w' →
      R w → R w')
    (hfail : ∀ stream content e w w', Performs cond thread
      (.write (.insertTaskRunAttemptOutput (outputInput a stream content))) w (.error e) w' →
      Attending n a.id w ∧ Known a w → R w → E w')
    (stdout stderr : String) :
    (transcripts lib).Triple cond thread (fun w => Scribes note (stdout ++ stderr) n a w ∧ R w)
      (insertOutput a stdout stderr) (Outcome (fun w => Scribes note "" n a w ∧ R w) E) := by
  rw [insertOutput_eq]
  refine Triple.bind (scribes_print hr hR hkeep hfail .stdout stdout stderr) (fun _ => ?_)
    fun _ _ _ h => h
  refine Triple.bind ((scribes_print hr hR hkeep hfail .stderr stderr "").pre ?_)
    (fun _ => Triple.ret fun _ _ h => h) fun _ _ _ h => h
  intro w _ h
  rw [String.append_empty]
  exact h

/-- Where a failure ends the pass, nothing else has to be known. -/
theorem scribes_insertOutput (hr : Recorded cond) (stdout stderr : String) :
    (transcripts lib).Triple cond thread (Scribes note (stdout ++ stderr) n a)
      (insertOutput a stdout stderr) (Outcome (Scribes note "" n a) fun _ => True) := by
  refine ((scribes_printAll hr (R := fun _ => True) (E := fun _ => True) (stable_true _)
    (fun _ _ _ _ _ _ => trivial) (fun _ _ _ _ _ _ _ _ => trivial) stdout stderr).post ?_).pre
    fun _ _ h => ⟨h, trivial⟩
  intro r _ _ h
  cases r with
  | ok _ => exact h.1
  | error _ => trivial

theorem scribes_record (hr : Recorded cond) (hk : cond.Le (keepsOutput lib))
    (child : TaskRunAttemptChild) :
    (transcripts lib).Triple cond thread (Scribes "" "" child.process a) (recordOutput a child)
      fun _ => Scribes "" "" child.process a := by
  refine Triple.bind (scribes_tryRecvAll hr) (fun chunks => ?_) fun _ _ _ h => h.elim
  refine (scribes_printAll hr (E := Scribes "" "" child.process a) recordsSoFar_stable
    (fun _ _ _ _ h hw => recordsSoFar_print h hw)
    (fun _ _ _ _ _ h hw hrecords => ⟨print_attends hr.attended h hw,
      fun x hx => absurd hx (gone_of_fails hk h hrecords x)⟩) _ _).post ?_
  intro r _ _ h
  cases r with
  | ok _ => exact h.1
  | error _ => exact h

theorem scribes_finishReading (hr : Recorded cond) (child : TaskRunAttemptChild) :
    (transcripts lib).Triple cond thread (Scribes "" "" child.process a) (finishReading a child)
      (Outcome (Scribes "" "" child.process a) fun _ => True) := by
  refine Triple.bind (scribes_recvUntilClosed hr) (fun (chunks, closed) => ?_) fun _ _ _ h => h.elim
  dsimp only
  split
  · exact scribes_insertOutput hr _ _
  · refine Triple.bind (scribes_uses hr (uses_op (abortReaders_keepsBooks child.process)))
      (fun _ => ?_) fun _ _ _ _ => trivial
    exact scribes_insertOutput hr _ _

/-- The note is written behind everything else. -/
theorem scribes_note (hr : Recorded cond) (note : String) :
    (transcripts lib).Triple cond thread (Scribes "" "" n a) (insertOutput a "" note)
      (Outcome (Scribes note "" n a) fun _ => True) := by
  refine (scribes_insertOutput hr "" note).pre fun w _ h => ⟨h.1, fun x hx => ?_⟩
  have hbefore := h.2 x hx
  rw [String.append_empty, String.append_empty] at hbefore
  rw [hbefore, String.empty_append]

end Writing

/-! ## The parts of a pass -/

section Parts

variable {a : TaskRunAttempt}

/-- The command exited, and the attempt is to settle so: the rows are told. -/
def ExitRead (a : TaskRunAttempt) (n : Nat) (status : TaskRunAttemptStatus) (w : World) : Prop :=
  status = .succeeded ∨ status = .failed → Scribes "" "" n a w ∧
    ∃ exit, Exited n exit w ∧ (exit.success = true ↔ status = .succeeded)

/-- What is left to do for a failed attempt is to settle it. -/
def ReadyToFail (a : TaskRunAttempt) (w : World) : Prop :=
  ∃ n exit note, (Scribes note "" n a w ∧ Exited n exit w) ∧ Noted exit note

theorem exitRead_other {n : Nat} {status : TaskRunAttemptStatus} {w : World}
    (h : status ≠ .succeeded ∧ status ≠ .failed) : ExitRead a n status w := by
  rintro (heq | heq)
  · exact absurd heq h.1
  · exact absurd heq h.2

theorem told_of_ready {n : Nat} {exit : ExitStatus} {note : String} {w : World}
    (hw : Scribes note "" n a w ∧ Exited n exit w) (hnote : Noted exit note) : Told a.id w := by
  obtain ⟨⟨⟨⟨-, p, hp, hid, -⟩, -⟩, hscribed⟩, q, hq, hexited⟩ := hw
  cases hp.symm.trans hq
  exact ⟨n, p, exit, note, hp, hid, hexited, hnote, hscribed⟩

/-- Settling an attempt as anything but failed. -/
theorem finish_told {status : TaskRunAttemptStatus} (hstatus : status ≠ .failed)
    {P : World → Prop} (output : Option String) :
    (transcripts lib).Triple cond thread P (finishTaskRunAttempt a status output)
      fun _ _ => True :=
  told_uses (finishTaskRunAttempt_uses (fun _ ho => ho.keepsTold) (fun _ => trivial) a status
    output fun _ => by simpa [KeepsTold] using hstatus)

theorem finish_failed (hr : Recorded cond) (output : Option String) :
    (transcripts lib).Triple cond thread (ReadyToFail a) (finishTaskRunAttempt a .failed output)
      fun _ _ => True := by
  refine Triple.of_exists fun n => Triple.of_exists fun exit => Triple.of_exists fun note => ?_
  refine Triple.of_fact (fun _ _ h => h.2) fun hnote => Triple.pre ?_ fun _ _ h => h.1
  have hstable : (transcripts lib).Stable cond thread
      fun w => Scribes note "" n a w ∧ Exited n exit w :=
    (scribes_stable hr).and (exited_stable _ n exit)
  have huses : ∀ {α : Type} {p : Code α}, p.Uses KeepsBooks →
      (transcripts lib).Triple cond thread (fun w => Scribes note "" n a w ∧ Exited n exit w) p
        fun _ w => Scribes note "" n a w ∧ Exited n exit w :=
    fun hp => Triple.of_uses hstable (hp.mono fun _ ho w _ _ _ hw hperf =>
      ⟨keepsBooks_told ho w, fun _ => ⟨scribes_kept hr ho hperf hw.1, exited_performs hperf hw.2⟩⟩)
  refine Triple.seq (huses ?_) fun _ => ?_
  · exact stopChildJobRuns_uses (fun _ h => h.keepsBooks)
      (fun id => keepsBooks_of_handled (n := 0) (.inr (.inr (.inr (.inr ⟨id, rfl⟩))))) a
  refine Triple.seq (huses (now_silent.mono fun _ h => h.keepsBooks)) fun now => ?_
  refine Triple.perform hstable (fun w _ _ _ hw _ _ id hid => ?_) fun _ _ _ _ _ _ _ => trivial
  cases hid
  exact told_of_ready hw hnote

theorem finish_settling (hr : Recorded cond) (status : TaskRunAttemptStatus)
    (output : Option String) :
    (transcripts lib).Triple cond thread (fun w => status = .failed → ReadyToFail a w)
      (finishTaskRunAttempt a status output) fun _ _ => True := by
  by_cases hstatus : status = .failed
  · subst hstatus
    exact (finish_failed hr output).pre fun _ _ h => h rfl
  · exact finish_told hstatus output

/-- What is read to the end. -/
theorem exitRead_receive (hr : Recorded cond) (child : TaskRunAttemptChild)
    (status : TaskRunAttemptStatus) :
    (transcripts lib).Triple cond thread (ExitRead a child.process status)
      (finishReading a child) (Outcome (ExitRead a child.process status) fun _ => True) := by
  by_cases hstatus : status = .succeeded ∨ status = .failed
  · have hread : (transcripts lib).Triple cond thread
        (fun w => Scribes "" "" child.process a w ∧
          ∃ exit, Exited child.process exit w ∧ (exit.success = true ↔ status = .succeeded))
        (finishReading a child) fun r w => Outcome (Scribes "" "" child.process a)
          (fun _ => True) r w ∧
          ∃ exit, Exited child.process exit w ∧ (exit.success = true ↔ status = .succeeded) := by
      refine Triple.frame (scribes_finishReading hr child)
        (Stable.ex fun exit => (exited_stable _ _ exit).and (stable_const _ _)) ?_
      exact Prog.Uses.of_forall _ fun o w r w' _ _ _ hperf ⟨exit, hexited, hsuccess⟩ =>
        ⟨exit, exited_performs hperf hexited, hsuccess⟩
    refine (hread.pre fun _ _ h => h hstatus).post fun r _ _ h => ?_
    cases r with
    | ok _ => exact fun _ => h
    | error _ => trivial
  · have hother := not_or.mp hstatus
    refine (told_uses (finishReading_uses a (fun _ _ => by trivial) child trivial trivial)).post
      fun r _ _ _ => ?_
    cases r with
    | ok _ => exact exitRead_other hother
    | error _ => trivial

/-- What the monitor knows on its way through a child. -/
def tellsPhases (hr : Recorded cond) (hk : cond.Le (keepsOutput lib)) (config : Config)
    (a : TaskRunAttempt) : Phases (transcripts lib) cond config a fun _ => True where
  held child w := child.terminating = none ∧ Scribes "" "" child.process a w
  decided _ status _ := status ≠ .succeeded ∧ status ≠ .failed
  ending _ status _ := status ≠ .succeeded ∧ status ≠ .failed
  dead child status := ExitRead a child.process status
  received status w := ∃ n, ExitRead a n status w
  refused rejection w := Rejection rejection ∧ ∃ n exit, Exited n exit w ∧ exit.success = true ∧
    Scribes "" "" n a w
  settling status w := status = .failed → ReadyToFail a w
  derive child := by
    refine Triple.of_fact (fun _ _ h => h.1) fun hnone => ?_
    refine ((deriveNextStatus_triple (scribes_stable hr) fun o ho w _ _ _ hw hperf =>
      ⟨keepsBooks_told ho.keepsBooks w, fun _ => scribes_kept hr ho.keepsBooks hperf hw⟩).post
      ?_).pre fun _ _ h => h.2
    intro r w _ h
    cases r with
    | error e => exact ⟨hnone, h⟩
    | ok status =>
        cases status with
        | succeeded =>
            obtain ⟨hw, exit, hexited, hsuccess⟩ := h
            exact fun _ => ⟨hw, exit, hexited, by simp [hsuccess]⟩
        | failed =>
            obtain ⟨hw, exit, hexited, hsuccess⟩ := h
            exact fun _ => ⟨hw, exit, hexited, by simp [hsuccess]⟩
        | running => exact ⟨hnone, h⟩
        | timedOut => exact ⟨nofun, nofun⟩
        | aborted => exact ⟨nofun, nofun⟩
        | _ => exact h
  note child status := by
    refine Triple.of_fact (fun _ _ h => h) fun hother => ?_
    exact (told_uses (noteTimeout_uses (fun _ h => h.keepsTold) a (fun _ _ => trivial) child
      status)).post fun _ _ _ _ => .intro hother trivial
  wait child status o ho := by
    refine Triple.of_fact (fun _ _ h => h) fun hother => ?_
    exact (told_uses (uses_op (by rcases ho with rfl | rfl | rfl <;> trivial))).post
      fun _ _ _ _ => .intro hother trivial
  kill child status := by
    refine Triple.of_fact (fun _ _ h => h) fun hother => ?_
    exact (told_uses (uses_op (o := .killProcessGroup child.process) trivial)).post
      fun _ _ _ _ => .intro (exitRead_other hother) trivial
  receive child status := (exitRead_receive hr child status).post fun r _ _ h => by
    cases r with
    | ok _ => exact ⟨_, h⟩
    | error _ => trivial
  result := by
    refine Triple.of_exists fun n => ?_
    have hstable : ∀ exit, (transcripts lib).Stable cond thread
        fun w => Exited n exit w ∧ Scribes "" "" n a w :=
      fun exit => (exited_stable _ n exit).and (scribes_stable hr)
    refine Triple.pre (W := fun w => ∃ exit, exit.success = true ∧ Exited n exit w ∧
      Scribes "" "" n a w) ?_ fun w _ h => ?_
    · refine Triple.of_exists fun exit => Triple.of_fact (fun _ _ h => h.1) fun hsuccess =>
        Triple.pre ?_ fun _ _ h => h.2
      refine (readTaskOutput_triple (fun hp => Triple.of_uses (hstable exit) (hp.mono
        fun o ho w _ _ _ hw hperf => ⟨keepsBooks_told ho.keepsBooks w, fun _ =>
          ⟨exited_performs hperf hw.1, scribes_kept hr ho.keepsBooks hperf hw.2⟩⟩))
        config a).post ?_
      intro r w _ h
      cases r with
      | error _ => trivial
      | ok result =>
          cases result with
          | ok output => exact nofun
          | error rejection => exact ⟨h.2 rejection rfl, n, exit, h.1.1, hsuccess, h.1.2⟩
    · obtain ⟨hw, exit, hexited, hsuccess⟩ := h (.inl rfl)
      exact ⟨exit, hsuccess.mpr rfl, hexited, hw⟩
  refuse rejection := by
    refine Triple.of_fact (fun _ _ h => h.1) fun hrejection => Triple.pre ?_ fun _ _ h => h.2
    refine Triple.of_exists fun n => Triple.of_exists fun exit => ?_
    refine Triple.of_fact (fun _ _ h => h.2.1) fun hsuccess => ?_
    refine ((Triple.frame (scribes_note hr rejection) (exited_stable _ n exit)
      (Prog.Uses.of_forall _ fun o w r w' _ _ _ hperf hw => exited_performs hperf hw)).post
      ?_).pre fun _ _ h => ⟨h.2.2, h.1⟩
    intro r _ _ h
    cases r with
    | error _ => trivial
    | ok _ => exact fun _ => ⟨n, exit, rejection, h, by rw [Noted, if_pos hsuccess]; exact hrejection⟩
  settle status w _ hstatus h hfailed := by
    obtain ⟨n, hread⟩ := h
    obtain ⟨hw, exit, hexited, hsuccess⟩ := hread (.inr hfailed)
    refine ⟨n, exit, "", ⟨hw, hexited⟩, ?_⟩
    rw [Noted, if_neg fun htrue => hstatus (hsuccess.mp htrue)]
  finish status output := finish_settling hr status output
  putBack child := Triple.perform ((stable_const _ _).and (scribes_stable hr))
    (fun _ _ _ _ hw _ _ => hw.2.2) fun _ _ _ _ _ _ _ => trivial
  keep child := by
    refine Triple.pre ?_ fun _ _ h => h.2
    exact recordAndPutBack_triple (scribes_record hr hk child) (Triple.perform (scribes_stable hr)
      (fun _ _ _ _ hw _ _ => hw.2) fun _ _ _ _ _ _ _ => trivial)
  keepEnding child termination := by
    have hrecord : (transcripts lib).Triple cond thread
        (fun _ => termination.status ≠ .succeeded ∧ termination.status ≠ .failed)
        (recordOutput a { child with terminating := some termination }) fun _ _ => True :=
      told_uses (recordOutput_uses a (fun _ _ => trivial) _ trivial)
    refine recordAndPutBack_triple hrecord ?_
    exact Triple.perform (stable_true _) (fun _ _ _ _ _ _ hnone => nomatch hnone)
      fun _ _ _ _ _ _ _ => trivial

theorem tells_monitor (hr : Recorded cond) (hk : cond.Le (keepsOutput lib)) (config : Config)
    (a : TaskRunAttempt) :
    (transcripts lib).Triple cond thread (fun w => AttemptAt thread a.id w ∧ Known a w)
      (handleRunningTaskRunAttempt config a) fun _ _ => True := by
  have hat := hr.attended
  refine Triple.seq (R := fun r w => ∀ child, r = .ok (some child) → EndsStopped child ∧
    (child.terminating = none → Scribes "" "" child.process a w)) ?_ fun child => ?_
  · refine Triple.perform ((attemptAt_stable hat.base (meetsAttempts hat.attempts) _ a.id).and
      (known_stable _ a)) (fun _ _ _ _ _ _ => trivial) ?_
    rintro w r w' hi ⟨hrunning, hknown⟩ hperf - child rfl
    have hchild := childrenRemove_answer hperf
    have hc := (custody_of hat.custody hperf).1
    refine ⟨(hat.base.1 _ _ _ _ _ hperf.2).1.2 a.id child hchild, fun hnone =>
      ⟨⟨⟨(attemptAt_keeps (by trivial) hrunning hperf).2, childrenRemove_holds hc hperf⟩,
        known_performs hperf hknown⟩, ?_⟩⟩
    refine scribed_kept (logged_of hr.outputs hperf).runs hrunning.2.1 ?_ ?_ hperf
      (hi.1.held a.id child hchild hnone)
    · rintro (heq | heq) <;> cases heq
    · rintro ⟨i, heq, -⟩
      cases heq
  · cases child with
    | none => exact finish_told (by nofun) none
    | some child =>
        refine Triple.of_fact (fun _ _ h => (h child rfl).1) fun hchild =>
          Triple.pre ?_ fun _ _ h => (h child rfl).2
        dsimp only
        split
        · rename_i termination hterminating
          have hends : termination.status ≠ .succeeded ∧ termination.status ≠ .failed := by
            rcases hchild termination hterminating with h | h <;> rw [h] <;> exact ⟨nofun, nofun⟩
          exact ((tellsPhases hr hk config a).handleTerminating child hterminating hends.1).pre
            fun _ _ _ => hends
        · rename_i hnone
          exact ((tellsPhases hr hk config a).handleChild child).pre
            fun _ _ h => ⟨hnone, h hnone⟩

end Parts

/-! ## The dispatcher -/

namespace TaskRunAttemptDispatcher

/-- The attempt's run is that of its task run. -/
def Belongs (next : TaskRunAttempt) (w : World) : Prop :=
  ∃ x, (x.id = next.taskRunId ∧ x.jobRunId = next.jobRunId) ∧ TaskRunKnown x w

/-- It was read, and is queued. -/
def Lasting (next : TaskRunAttempt) (w : World) : Prop :=
  Seen next w.log ∧ Belongs next w ∧ AttemptAt thread next.id w

section Knowledge

variable {o : Op} {w w' : World} {r : Result o} {previous next : TaskRunAttempt}

theorem seen_cons {a : TaskRunAttempt} {e : Host.Event} {log : List Host.Event}
    (h : Seen a log) : Seen a (e :: log) := by
  obtain ⟨t, f, s, rows, hmem, ha⟩ := h
  exact ⟨t, f, s, rows, List.mem_cons_of_mem e hmem, ha⟩

theorem seen_permanent (a : TaskRunAttempt) : Permanent cond fun w => Seen a w.log where
  performs h hw := by
    rw [log_performs h]
    exact seen_cons hw
  happens h hw := by rwa [log_happens h]

theorem belongs_permanent (next : TaskRunAttempt) : Permanent cond (Belongs next) :=
  .ex fun x => (Permanent.const _).and (taskRunKnown_permanent x)

theorem queued_stable (hr : Recorded cond) (id : Nat) :
    (transcripts lib).Stable cond thread (AttemptAt thread id) :=
  attemptAt_stable hr.attended.base (meetsAttempts hr.attended.attempts) _ id

theorem lasting_stable (hr : Recorded cond) (next : TaskRunAttempt) :
    (transcripts lib).Stable cond thread (Lasting next) :=
  (((seen_permanent next).stable _).and (((belongs_permanent next).stable _).and
    (queued_stable hr next.id)))

theorem lasting_keeps (ho : KeepsStatus o) (h : Performs cond thread o w r w')
    (hw : Lasting next w) : Lasting next w' :=
  ⟨(seen_permanent next).performs h hw.1, (belongs_permanent next).performs h hw.2.1,
    (attemptAt_keeps ho hw.2.2 h).2⟩

theorem lasting_log {t : Tid} {r : Result o} (hw : Lasting next w) :
    Lasting next { w with log := ⟨t, o, r⟩ :: w.log } :=
  ⟨seen_cons hw.1, hw.2.1, running_log.mpr hw.2.2.1, hw.2.2.2⟩

/-- What others do is not the dispatcher's. -/
theorem readsBack_stable (previous next : TaskRunAttempt) (rows : List TaskRunAttemptOutput) :
    (transcripts lib).Stable cond thread (ReadsBack previous next rows) := by
  rintro w w' hothers ⟨before, hseen, since, hlog, hothersOnly⟩
  refine ⟨before, hseen, ?_⟩
  cases hothers with
  | run hu _ _ _ hperf =>
      refine ⟨_ :: since, by rw [log_performs hperf, hlog, List.cons_append], ?_⟩
      intro e he
      rcases List.mem_cons.mp he with rfl | he
      · exact hu
      · exact hothersOnly e he
  | env _ _ _ hhappens => exact ⟨since, by rw [log_happens hhappens, hlog], hothersOnly⟩

/-- An attempt of the task run is one of its run. -/
theorem jobRun_of_belongs (hi : (transcripts lib).inv w) (hw : Belongs next w)
    {x : TaskRunAttempt} (hx : x ∈ w.db.taskRunAttempts.rows)
    (htask : x.taskRunId = next.taskRunId) : x.jobRunId = next.jobRunId := by
  obtain ⟨-, ⟨hlinked, -⟩, hreleased, -⟩ := hi
  obtain ⟨z, ⟨hid, hrun⟩, hknown⟩ := hw
  obtain ⟨y, hy⟩ := Option.isSome_iff_exists.mp (hlinked.taskRun_of_attempt x hx)
  have hsame : y = _ := hknown.2 y (by rw [hid, ← htask, hy])
  rw [((hreleased.attempted x hx).2 y (Table.mem_of_find hy) (Table.key_of_find hy)).1, hsame]
  exact hrun

end Knowledge

section Handing

variable {previous next : TaskRunAttempt}

/-- That the attempt is queued may be carried past what writes no status. -/
theorem queued_past (hr : Recorded cond) {α : Type} {P : World → Prop} {p : Code α}
    {Q : Except Err α → World → Prop} {id : Nat} (hp : p.Uses KeepsStatus)
    (h : (transcripts lib).Triple cond thread P p Q) :
    (transcripts lib).Triple cond thread (fun w => P w ∧ AttemptAt thread id w) p
      fun r w => Q r w ∧ AttemptAt thread id w :=
  h.frame (queued_stable hr id) (hp.mono fun _ ho _ _ _ _ _ _ hperf hw =>
    (attemptAt_keeps ho hw hperf).2)

/-- Attempts that are read stay read. -/
theorem selects_seen {P : World → Prop} {f : SelectTaskRunAttemptsFilter}
    {s : Option SelectTaskRunAttemptsSort} {K : TaskRunAttempt → World → Prop}
    (hP : (transcripts lib).Stable cond thread P)
    (hlog : ∀ w r, P w → P { w with log := ⟨thread, .select (.taskRunAttempts f s), r⟩ :: w.log })
    (hK : ∀ w r x, (transcripts lib).inv w → P w → w.db.taskRunAttempts.find x.id = some x →
      f.holds x = true →
      K x { w with log := ⟨thread, .select (.taskRunAttempts f s), r⟩ :: w.log }) :
    (transcripts lib).Triple cond thread P (selectTaskRunAttempts f s) fun r w => P w ∧
      ∀ rows, r = .ok rows → rows.Pairwise (fun x y => x.id ≠ y.id) ∧
        ∀ x ∈ rows, Seen x w.log ∧ K x w := by
  refine Triple.select (Q := fun (rows : List TaskRunAttempt) w =>
    rows.Pairwise (fun x y => x.id ≠ y.id) ∧ ∀ x ∈ rows, Seen x w.log ∧ K x w) hP hlog
    (fun _ _ => trivial) fun w hi hw => ⟨w.db.selectTaskRunAttempts_distinct f s, fun x hx => ?_⟩
  obtain ⟨hfind, hholds⟩ := Database.mem_selectTaskRunAttempts.mp hx
  exact ⟨⟨thread, f, s, _, List.mem_cons_self, hx⟩, hK w _ x hi hw hfind hholds⟩

/-- The attempts of the task run, of which the one before `next` is. -/
theorem selects_previous (hr : Recorded cond) :
    (transcripts lib).Triple cond thread (Lasting next)
      (selectTaskRunAttempts { taskRunId := some next.taskRunId } none) fun r w =>
        Lasting next w ∧ ∀ rows, r = .ok rows →
          rows.Pairwise (fun x y => x.id ≠ y.id) ∧ ∀ previous ∈ rows, Seen previous w.log ∧
            (previous.attempt + 1 = next.attempt → Precedes previous next) := by
  refine selects_seen
    (K := fun previous _ => previous.attempt + 1 = next.attempt → Precedes previous next)
    (lasting_stable hr next) (fun _ _ h => lasting_log h) ?_
  rintro w r x hi ⟨-, hw, -⟩ hfind hholds hattempt
  have htask : x.taskRunId = next.taskRunId := by
    simpa [SelectTaskRunAttemptsFilter.holds, clause] using hholds
  exact ⟨jobRun_of_belongs hi hw (Table.mem_of_find hfind) htask, htask, hattempt⟩

/-- The rows of the attempt before are read, and no more. -/
theorem selects_outputs :
    (transcripts lib).Triple cond thread (fun w => Seen previous w.log ∧ Seen next w.log)
      (selectTaskRunAttemptOutputs { taskRunAttemptId := some previous.id }) fun r w =>
        ∀ rows, r = .ok rows → ReadsBack previous next rows w := by
  refine (Triple.select (q := .taskRunAttemptOutputs { taskRunAttemptId := some previous.id })
    (Q := fun (rows : List TaskRunAttemptOutput) w => ReadsBack previous next rows w)
    (((seen_permanent previous).and (seen_permanent next)).stable _) ?_ (fun _ _ => trivial)
    fun w _ hw => ⟨w.log, hw, [], rfl, fun _ he => absurd he List.not_mem_nil⟩).post
      fun _ _ _ h => h.2
  exact fun _ _ h => ⟨seen_cons h.1, seen_cons h.2⟩

/-- Below the directory of its run, an attempt is handed the log of the one before. -/
theorem tells_previous (hr : Recorded cond) (canonical : String) :
    (transcripts lib).Triple cond thread (fun w => Lasting next w ∧ Resolved canonical w)
      (writePreviousAttemptFiles next (runDirIn canonical next.jobRunId)) fun _ _ => True := by
  have hresolved : Permanent cond (Resolved canonical) := resolved_permanent canonical
  unfold writePreviousAttemptFiles
  split
  · exact Triple.ret fun _ _ _ => trivial
  refine Triple.seq ((selects_previous hr).past hresolved) fun rows => ?_
  refine Triple.seq (R := fun r w => ∀ previous, r = .ok previous → Precedes previous next ∧
    (((Seen previous w.log ∧ Seen next w.log) ∧ AttemptAt thread next.id w) ∧
      Resolved canonical w)) ?_ fun previous => ?_
  · cases hfind : rows.find? fun a => a.attempt = next.attempt - 1 with
    | none => exact Triple.throw fun _ _ _ _ h => nomatch h
    | some previous =>
        refine Triple.ret fun w _ h found heq => ?_
        cases heq
        obtain ⟨⟨hlasting, hrows⟩, hdir⟩ := h
        obtain ⟨hseen, hprecedes⟩ := (hrows rows rfl).2 previous (List.mem_of_find?_eq_some hfind)
        have hattempt : previous.attempt = next.attempt - 1 := by
          simpa using List.find?_some hfind
        exact ⟨hprecedes (by omega), ⟨⟨hseen, hlasting.1⟩, hlasting.2.2⟩, hdir⟩
  refine Triple.of_fact (fun _ _ h => (h previous rfl).1) fun hprecedes =>
    Triple.pre ?_ fun _ _ h => (h previous rfl).2
  refine Triple.seq ((queued_past hr (uses_select (by trivial)) selects_outputs).past hresolved)
    fun chunks => ?_
  refine Triple.pre (W := fun w => (ReadsBack previous next chunks w ∧ AttemptAt thread next.id w) ∧
    Resolved canonical w) ?_ fun _ _ h => ⟨⟨h.1.1 chunks rfl, h.1.2⟩, h.2⟩
  refine Triple.seq (R := fun _ _ => True) ?_ fun _ => ?_
  · refine Triple.perform (((readsBack_stable previous next chunks).and (queued_stable hr _)).and
      (hresolved.stable _)) (fun w r w' _ hw _ _ => ?_) fun _ _ _ _ _ _ _ => trivial
    refine ⟨canonical, previous, next, chunks, ⟨hw.2, ?_⟩, hprecedes, hw.1.1, rfl, hw.1.2⟩
    rw [← hprecedes.number, Nat.add_sub_cancel]
  · exact told_uses (Prog.Uses.bind (uses_op (o := .pathExists _) trivial) fun _ => Prog.uses_ret _)

/-- Only the log is written to a file. -/
def WritesNoFile (o : Op) : Prop := ∀ path content, o ≠ .writeFile path content

theorem Silent.writesNoFile {o : Op} (h : Silent o) : WritesNoFile o := by
  rintro path content rfl
  exact h

theorem dispatcher_pre (hr : Recorded cond) {o : Op} {w w' : World} {r : Result o}
    (hi : Transcribed w) (ho : WritesNoFile o) (h : Performs cond thread o w r w') :
    (transcripts lib).pre thread o w := by
  have hallowed := allowed_of hr.attended.base h
  cases o with
  | childrenInsert id child =>
      intro _
      obtain ⟨p, hp, rfl, hholder⟩ := custody_pre_of hr.attended.custody h
      exact hi.spawned _ p hp hholder
  | writeFile path content => exact absurd rfl (ho path content)
  | write q =>
      cases q with
      | updateTaskRunAttempts f i =>
          intro hset
          cases hallowed with
          | dropAttempt hs => rcases hs with rfl | rfl <;> cases hset
          | markStarted => cases hset
          | startAttempt => cases hset
      | _ => trivial
  | _ => trivial

theorem tells_walk (hr : Recorded cond) (next : TaskRunAttempt) :
    Prog.Walk (fun o => KeepsStatus o ∧ WritesNoFile o)
      (fun _ p => (transcripts lib).Triple cond thread (Lasting next) p fun _ => Lasting next)
      (fun _ p => (transcripts lib).Triple cond thread (Lasting next) p fun _ _ => True) :=
  Triple.walk (lasting_stable hr next) (fun _ ho _ _ _ hi hw hperf =>
    ⟨dispatcher_pre hr hi.1 ho.2 hperf, fun _ => lasting_keeps ho.1 hperf hw⟩) fun _ _ _ => trivial

/-- The directory is that of the attempt's run, and only the log is written into it. -/
theorem tells_prepare (hr : Recorded cond) (config : Config) (next : TaskRunAttempt) :
    (transcripts lib).Triple cond thread (Lasting next) (prepare lib config next)
      fun _ => Lasting next := by
  have hw := tells_walk hr next
  have hreads : ∀ {α : Type} {p : Code α}, p.Uses Reads →
      (transcripts lib).Triple cond thread (Lasting next) p fun _ => Lasting next :=
    fun hp => hw.uses (hp.mono fun o ho => ⟨ho.1.keepsStatus, Silent.writesNoFile ho.1⟩)
  have hpast : ∀ {α : Type} {P : World → Prop} {p : Code α} {Q : Except Err α → World → Prop},
      p.Uses KeepsStatus → (transcripts lib).Triple cond thread P p Q →
      (transcripts lib).Triple cond thread (fun w => P w ∧ Lasting next w) p
        fun r w => Q r w ∧ Lasting next w :=
    fun hp h => h.frame (lasting_stable hr next) (hp.mono fun _ ho _ _ _ _ _ _ hperf hw =>
      lasting_keeps ho hperf hw)
  refine hw.bind (hreads (getTaskRun_reads next)) fun taskRun => ?_
  refine Triple.bind (Triple.findJobRun (K := fun jobRun _ => jobRun.id = next.jobRunId)
    (lasting_stable hr next) (fun _ _ _ _ h => lasting_log h) (fun _ w ho _ =>
      keepsTold_pre (Silent.keepsTold ho) w) fun _ _ _ _ _ _ _ hfind => Table.key_of_find hfind)
    (fun jobRun => ?_) fun _ _ _ h => h.1
  refine Triple.of_fact (fun _ _ h => h.2 jobRun rfl) fun hjobRun => Triple.pre (W := Lasting next)
    ?_ fun _ _ h => h.1
  refine Triple.bind ((hpast ((jobRunDir_silent _ _).mono fun _ h => h.keepsStatus)
    (Triple.jobRunDir (.const True) (fun _ w ho _ => keepsTold_pre (Silent.keepsTold ho) w) config
      jobRun.id)).pre fun _ _ h => ⟨trivial, h⟩) (fun dir => ?_) fun _ _ _ h => h.2
  refine Triple.pre (W := fun w => ∃ canonical, dir = runDirIn canonical next.jobRunId ∧
    Lasting next w ∧ Resolved canonical w) ?_ fun w _ h => ?_
  · refine Triple.of_exists fun canonical => Triple.of_fact (fun _ _ h => h.1) fun hdir =>
      Triple.pre ?_ fun _ _ h => h.2
    subst hdir
    refine Triple.bind ((hreads (getInputs_reads _ _)).past (resolved_permanent canonical))
      (fun inputs => ?_) fun _ _ _ h => h.1
    refine Triple.bind ((hpast (writePreviousAttemptFiles_uses (fun _ ho => ho.1.keepsStatus)
      (fun _ _ => trivial) _ _) (tells_previous hr canonical)).pre fun _ _ h => ⟨h, h.1⟩)
      (fun previous => ?_) fun _ _ _ h => h.2
    exact (hw.bind (hw.uses (Prog.uses_ofExcept _)) fun env => hw.ret _).pre fun _ _ h => h.2
  · obtain ⟨canonical, hresolved, hdir⟩ := h.1.2 dir rfl
    exact ⟨canonical, hjobRun ▸ hdir, h.2, hresolved⟩

theorem tells_dispatcher (hr : Recorded cond) (config : Config) (next : TaskRunAttempt) :
    (transcripts lib).Triple cond thread (Lasting next)
      (handleQueuedTaskRunAttempt lib config next) fun _ _ => True := by
  have hsettle : ∀ i, (transcripts lib).Triple cond thread (Lasting next)
      (Crud.write (.updateTaskRunAttempts { id := some next.id } i)) fun _ _ => True := fun _ =>
    Triple.perform (lasting_stable hr next) (fun _ _ _ hi _ hperf =>
      dispatcher_pre hr hi.1 nofun hperf) fun _ _ _ _ _ _ _ => trivial
  exact handle_walk_of_prepare (tells_walk hr next)
    (fun _ ho => ⟨ho.keepsStatus, Silent.writesNoFile ho⟩) lib config next
    (tells_prepare hr config next) (fun _ => ⟨rfl, nofun⟩) (fun _ _ => ⟨trivial, nofun⟩)
    (fun _ _ => ⟨trivial, nofun⟩) (fun _ _ _ => hsettle _) fun _ => hsettle _

end Handing

end TaskRunAttemptDispatcher

/-! ## The outline holds -/

/-- Nobody else hands a child back, or lets an attempt fail. -/
theorem tells_others (hr : Recorded cond) {t : Tid} (ht : ¬ HasChildren t) {o : Op}
    {w w' : World} {r : Result o} (h : Performs cond t o w r w') :
    (transcripts lib).pre t o w := by
  have hallowed := allowed_of hr.attended.base h
  cases o with
  | childrenInsert => exact absurd hallowed.2 ht
  | writeFile => exact fun heq => absurd (.inl heq) ht
  | write q =>
      cases q with
      | updateTaskRunAttempts f i =>
          intro hset
          cases hallowed with
          | dropAttempt => exact absurd (.inl rfl) ht
          | markStarted => cases hset
          | startAttempt => cases hset
          | settleAttempt => exact absurd (.inr rfl) ht
          | recoverAttempt => cases hset
          | wait => cases hset
      | _ => trivial
  | _ => trivial

theorem transcripts_valid (hr : Recorded cond) (hk : cond.Le (keepsOutput lib)) :
    (transcripts lib).Valid cond where
  init := by
    rintro w rfl
    exact ⟨⟨transcribed_fresh, ⟨linked_empty, fun x hx => absurd hx List.not_mem_nil⟩,
      (releases_valid hr.attended.base).init .fresh rfl |>.1, seenStays_fresh⟩, fun _ => trivial⟩
  step _ _ _ _ _ hi hpre hperf :=
    ⟨transcribed_step hr.attended hr.outputs hi.1 hpre hperf, (hr.retries.1 _ _ _ _ _ hperf.2).2.2,
      (hr.releases.1 _ _ _ _ _ hperf.2).2.2, seenStays_step hi.2.1.1 hi.2.2.2 hperf⟩
  env _ _ _ hi hhappens := by
    refine ⟨⟨transcribed_happens hi.1 hhappens, ?_⟩, fun _ _ => trivial⟩
    have hstays := seenStays_happens hi.2.2.2 hhappens
    obtain ⟨e, -, henv⟩ := hhappens
    exact ⟨(hr.retries.2 _ _ _ henv).2, (hr.releases.2 _ _ _ henv).2, hstays⟩
  idle t := stable_true t
  start := by
    have hothers : ∀ {t : Tid}, ¬ HasChildren t → ∀ {P : World → Prop} (p : Code Unit),
        (transcripts lib).Triple cond t P p fun _ _ => True := by
      intro t ht P p
      exact Triple.of_pre fun o w r w' _ hperf => tells_others hr ht hperf
    have hat := hr.attended
    refine start_triple (fun config fuel s => ?_) fun c r => hothers (by rintro (h | h) <;> cases h) _
    cases s with
    | taskRunAttemptDispatcher =>
        refine Poller.pass_triple (P := fun _ => True) (K := TaskRunAttemptDispatcher.Lasting)
          (R := fun x y : TaskRunAttempt => x.id ≠ y.id) ?_
          (fun x => TaskRunAttemptDispatcher.lasting_stable hr x)
          (fun x => (TaskRunAttemptDispatcher.tells_dispatcher hr config x).pre fun _ _ h => h.2)
          fun x y hxy => (TaskRunAttemptDispatcher.handles lib config x).mono
            fun o ho w r w' _ _ _ hperf hy =>
              ⟨(TaskRunAttemptDispatcher.seen_permanent y).performs hperf hy.1,
                (TaskRunAttemptDispatcher.belongs_permanent y).performs hperf hy.2.1,
                attemptAt_frame hxy ho.2 (by rintro rfl; cases ho.1) hperf hy.2.2⟩
        refine (TaskRunAttemptDispatcher.selects_seen (K := fun x w =>
          TaskRunAttemptDispatcher.Belongs x w ∧ AttemptAt TaskRunAttemptDispatcher.thread x.id w)
          (Running.stable hat.base _) (fun w r h => running_log.mpr h)
          fun w r x hi hw hfind hholds => ?_).post (fun _ _ _ h => ⟨trivial, h.2⟩) |>.pre
            fun _ _ h => h.2
        have hrow := Table.mem_of_find hfind
        have hqueued : x.status = .queued := by
          simpa [SelectTaskRunAttemptsFilter.holds] using hholds
        obtain ⟨y, hy⟩ := Option.isSome_iff_exists.mp (hi.2.1.1.taskRun_of_attempt x hrow)
        have hid : y.id = x.taskRunId := Table.key_of_find hy
        refine ⟨⟨y, ⟨hid, ((hi.2.2.1.attempted x hrow).2 y (Table.mem_of_find hy) hid).1.symm⟩,
          taskRunKnown_of_find (w := w) (hid ▸ hy)⟩, running_log.mpr hw,
          Table.lt_next_of_find (t := w.db.taskRunAttempts) hfind, fun z hz => ?_⟩
        cases hfind.symm.trans hz
        exact hqueued
    | taskRunAttemptMonitor =>
        exact attemptAt_pass (P := fun _ => True) hat.base (meetsAttempts hat.attempts)
          (by exact rfl) (stable_true _) (fun _ _ _ _ h => h)
          (fun o w ho _ => keepsTold_pre ho.keepsTold w)
          (fun a => (tells_monitor hr hk config a).pre fun _ _ h => h.2) (handle_on config)
    | _ => exact hothers (by rintro (h | h) <;> cases h) _

/-! ## Every run -/

/-- Whatever run leads to a step, the layers below hold of both. -/
theorem recorded_next {c c' : (flowlite lib).Config} (h : Reachable (keepsOutput lib) c)
    (hn : Next (keepsOutput lib) c c') :
    ∃ cond : (flowlite lib).Condition, cond.Le (keepsOutput lib) ∧ Recorded cond ∧
      Reachable cond c ∧ Next cond c c' := by
  obtain ⟨c₁, h₁, hb, h, hn⟩ := base_valid.layer_next h hn
  obtain ⟨c₂, h₂, hs, h, hn⟩ := (spawnsOnce_valid hb).layer_next h hn
  obtain ⟨c₃, h₃, ha, h, hn⟩ := (attempts_valid (h₂.trans hb)).layer_next h hn
  obtain ⟨c₄, h₄, hc, h, hn⟩ := (custody_valid (h₃.trans (h₂.trans hb)) (h₃.trans hs)).layer_next h hn
  have hat : Attended c₄ :=
    ⟨h₄.trans (h₃.trans (h₂.trans hb)), h₄.trans (h₃.trans hs), h₄.trans ha, hc⟩
  have hle : c₄.Le (keepsOutput lib) := h₄.trans (h₃.trans (h₂.trans h₁))
  obtain ⟨c₅, h₅, ho, h, hn⟩ := (outputs_valid hat hle).layer_next h hn
  obtain ⟨c₆, h₆, hr, h, hn⟩ := (releases_valid (h₅.trans hat.base)).layer_next h hn
  obtain ⟨c₇, h₇, ht, h, hn⟩ := (retries_valid (h₆.trans (h₅.trans hat.base))
    (h₆.trans (h₅.trans hat.attempts)) hr).layer_next h hn
  exact ⟨c₇, h₇.trans (h₆.trans (h₅.trans hle)),
    ⟨hat.of_le (h₇.trans (h₆.trans h₅)), h₇.trans (h₆.trans ho), h₇.trans hr, ht⟩, h, hn⟩

end Flowlite

import Flowlite.Logic.Outputs

/-!
# The monitor's books

How one pass over an attempt keeps what was delivered accounted for: what it receives it
has in hand until it is written down, its own lines go in beside it, and what it hands
back or settles has nothing left in hand. One failure breaks the balance without ending
the attempt: that of a row for chunks taken from a command that goes on.
-/

namespace Flowlite

open Store Host Threads Crud Machine Outline TaskRunAttemptMonitor

variable {lib : Library} {cond : (flowlite lib).Condition}

/-! ## What may not fail -/

/-- The event is a row that was to be written. -/
def Host.Event.prints (e : Host.Event) : Bool :=
  match e.op with
  | .write (.insertTaskRunAttemptOutput _) => true
  | _ => false

/-- The monitor is recording what a command has printed so far: but for the rows, the last
thing it did was to take that out of the channel. -/
def RecordsSoFar (w : World) : Prop :=
  match w.log.find? fun e => e.thread = thread && !e.prints with
  | some ⟨_, .tryRecvAll _, _⟩ => True
  | _ => False

instance (w : World) : Decidable (RecordsSoFar w) := by
  unfold RecordsSoFar
  split <;> infer_instance

/-- No row with what a command has printed so far fails, unless its attempt is gone. -/
def keepsOutput (lib : Library) : (flowlite lib).Condition where
  step _ o w r _ :=
    match o, r with
    | .write (.insertTaskRunAttemptOutput i), .error _ =>
        RecordsSoFar w → w.db.hasTaskRunAttempt i.taskRunAttemptId = false
    | _, _ => True
  env _ _ _ := True

instance : (keepsOutput lib).Checked where
  step t o w r w' := by
    rcases o with _ | q
    case write =>
      rcases q
      case insertTaskRunAttemptOutput i => rcases r <;> (dsimp only [keepsOutput]; infer_instance)
      all_goals exact isTrue trivial
    all_goals exact isTrue trivial
  env _ _ _ := isTrue trivial

/-! ## What the monitor knows -/

/-- The monitor has the child, its attempt runs, and the balance holds. -/
def Books (notes : TaskRunAttemptOutputStream → List String)
    (inHand : TaskRunAttemptOutputStream → String) (n : Nat) (a : TaskRunAttempt) (w : World) :
    Prop :=
  (Attending n a.id w ∧ Known a w) ∧ Tracked notes inHand n a.id w

/-- Neither the child nor the attempt nor the channel is touched, and no row is written. -/
def KeepsBooks (o : Op) : Prop :=
  KeepsStatus o ∧ KeepsChildren o ∧ (∀ n, ¬ Receives n o) ∧ ∀ id, ¬ Prints id o

theorem Silent.keepsBooks {o : Op} (h : Silent o) : KeepsBooks o := by
  refine ⟨h.keepsStatus, h.keepsChildren, ?_, ?_⟩
  · rintro n (rfl | rfl) <;> exact h
  · rintro id ⟨i, rfl, -⟩
    exact h

theorem keepsBooks_pre {t : Tid} {o : Op} (ho : KeepsBooks o) (w : World) :
    (outputs lib).pre t o w := by
  obtain ⟨hstatus, hchildren, hr, hprints⟩ := ho
  cases o with
  | tryRecvAll n => exact absurd (.inl rfl) (hr n)
  | recvUntilClosed n => exact absurd (.inr rfl) (hr n)
  | childrenInsert => exact hchildren.elim
  | write q =>
      cases q
      case insertTaskRunAttemptOutput i => exact absurd ⟨i, rfl, rfl⟩ (hprints i.taskRunAttemptId)
      case updateTaskRunAttempts f i =>
        intro status id hset
        rw [show i.status = none from hstatus] at hset
        cases hset
      all_goals trivial
  | _ => trivial

section Knowledge

variable {o : Op} {w w' : World} {r : Result o} {n : Nat} {a : TaskRunAttempt}
  {notes : TaskRunAttemptOutputStream → List String}
  {inHand : TaskRunAttemptOutputStream → String}

/-- The monitor has the child as long as it does not hand it over. -/
theorem attending_kept (hat : Attended cond) (hs : KeepsStatus o) (hc : KeepsChildren o)
    (h : Performs cond thread o w r w') (hw : Attending n a.id w ∧ Known a w) :
    Attending n a.id w' ∧ Known a w' :=
  ⟨⟨(attemptAt_keeps hs hw.1.1 h).2,
    holds_kept (custody_of hat.custody h).1 nofun hw.1.2 hc h⟩, known_performs h hw.2⟩

theorem books_kept (hat : Attended cond) (hi : Logged w) (ho : KeepsBooks o)
    (h : Performs cond thread o w r w') (hw : Books notes inHand n a w) :
    Books notes inHand n a w' := by
  obtain ⟨p, hp, -⟩ := hw.1.1.2
  exact ⟨attending_kept hat ho.1 ho.2.1 h hw.1,
    tracked_kept hi.runs hp hw.1.2.1 (ho.2.2.1 n) (ho.2.2.2 a.id) h hw.2⟩

theorem attending_stable {O : Outline (flowlite lib)} (hat : Attended cond) (n : Nat)
    (a : TaskRunAttempt) : O.Stable cond thread fun w => Attending n a.id w ∧ Known a w :=
  ((attemptAt_stable hat.base (meetsAttempts hat.attempts) _ a.id).and
    (Holds.stable hat.base hat.custody (.inr rfl) n a.id)).and (known_stable _ a)

theorem books_stable (hat : Attended cond) : (outputs lib).Stable cond thread
    (Books notes inHand n a) := by
  intro w w' hothers hw
  refine ⟨attending_stable hat n a w w' hothers hw.1, ?_⟩
  cases hothers with
  | run hu hi _ _ hperf =>
      -- only the monitor reads and writes
      have hallowed := allowed_of hat.base hperf
      obtain ⟨p, hp, -⟩ := hw.1.1.2
      refine tracked_kept hi.runs hp hw.1.2.1 ?_ ?_ hperf hw.2
      · rintro (rfl | rfl) <;> exact hu hallowed
      · rintro ⟨i, rfl, -⟩
        cases hallowed
        exact hu rfl
  | env hkill _ _ hhappens =>
      have hdb := happens_db hhappens
      obtain ⟨e, he, -⟩ := hhappens
      refine tracked_happens he ?_ hdb hw.2
      rintro rfl
      rw [external_crash he] at hkill
      cases hkill

end Knowledge

theorem books_uses (hat : Attended cond) {α : Type} {p : Code α} (hp : p.Uses KeepsBooks)
    {notes : TaskRunAttemptOutputStream → List String}
    {inHand : TaskRunAttemptOutputStream → String} {n : Nat} {a : TaskRunAttempt} :
    (outputs lib).Triple cond thread (Books notes inHand n a) p fun _ => Books notes inHand n a :=
  Triple.of_uses (books_stable hat) (hp.mono fun _ ho w _ _ hi hw hperf =>
    ⟨keepsBooks_pre ho w, fun _ => books_kept hat hi ho hperf hw⟩)

/-! ## Receiving -/

section Receiving

variable {o : Op} {w w' : World} {r : Result o} {n : Nat} {a : TaskRunAttempt}
  {notes : TaskRunAttemptOutputStream → List String}

/-- What is taken out of the channel is in hand. -/
theorem books_receive (hat : Attended cond) (hi : Logged w) {p : Process}
    (hp : w.procs.find n = some p) (hr : Receives n o) (h : Performs cond thread o w r w')
    (hw : Books notes noText n a w) :
    Books notes (fun stream => streamContent stream p.chunks) n a w' := by
  have hstatus : KeepsStatus o := by rcases hr with rfl | rfl <;> trivial
  have hchildren : KeepsChildren o := by rcases hr with rfl | rfl <;> trivial
  have hprints : ¬ Prints a.id o := by
    rintro ⟨i, heq, -⟩
    rcases hr with rfl | rfl <;> cases heq
  refine ⟨attending_kept hat hstatus hchildren h hw.1, fun p' x' hp' hx' stream => ?_⟩
  obtain ⟨x, hx, -⟩ := attempt_before h hw.1.1.1.2.1 hx'
  rw [process_fate h hp] at hp'
  cases hp'
  rw [recorded_performs hi.runs h hx hx', printed_eq_nil hprints, List.append_nil]
  refine (hw.2 p x hp hx stream).receive ?_ (p.after_delivered w o)
  have hpid : p.id = n := Table.key_of_find hp
  rcases hr with rfl | rfl <;> simp [Process.after, hpid, Process.drain]

theorem recordsSoFar_receive {r : Result (.tryRecvAll n)}
    (h : Performs cond thread (.tryRecvAll n) w r w') :
    RecordsSoFar w' := by
  unfold RecordsSoFar
  rw [log_performs h, List.find?_cons_of_pos rfl]
  trivial

theorem books_tryRecvAll (hat : Attended cond) :
    (outputs lib).Triple cond thread (Books notes noText n a) (Crud.perform (.tryRecvAll n))
      fun r w => match r with
        | .ok chunks => Books notes (fun stream => streamContent stream chunks) n a w ∧
            RecordsSoFar w
        | .error _ => False := by
  refine Triple.perform (books_stable hat) (fun w _ _ _ hw _ => ⟨a.id, hw.1.1⟩)
    fun w r w' hi hw hperf _ => ?_
  obtain ⟨chunks, rfl⟩ := Infallible.succeeds (by trivial) hperf
  obtain ⟨p, hp, rfl⟩ := tryRecvAll_answer hperf
  exact ⟨books_receive hat hi hp (.inl rfl) hperf hw, recordsSoFar_receive hperf⟩

theorem books_recvUntilClosed (hat : Attended cond) :
    (outputs lib).Triple cond thread (Books notes noText n a)
      (Crud.perform (.recvUntilClosed n)) fun r w => match r with
        | .ok (chunks, _) => Books notes (fun stream => streamContent stream chunks) n a w
        | .error _ => False := by
  refine Triple.perform (books_stable hat) (fun w _ _ _ hw _ => ⟨a.id, hw.1.1⟩)
    fun w r w' hi hw hperf _ => ?_
  obtain ⟨⟨chunks, closed⟩, rfl⟩ := Infallible.succeeds (by trivial) hperf
  obtain ⟨p, hp, rfl, -⟩ := recvUntilClosed_answer hperf
  exact books_receive hat hi hp (.inr rfl) hperf hw

end Receiving

/-! ## Writing down -/

/-- The row of one stream, if there is anything to write. -/
def insertStream (a : TaskRunAttempt) (stream : TaskRunAttemptOutputStream) (content : String) :
    Code Unit :=
  if content = "" then .ret () else
    (insertTaskRunAttemptOutput (outputInput a stream content)).bind fun _ => .ret ()

theorem insertOutput_eq (a : TaskRunAttempt) (stdout stderr : String) :
    insertOutput a stdout stderr = (insertStream a .stdout stdout).bind fun _ =>
      (insertStream a .stderr stderr).bind fun _ => .ret () := rfl

section Writing

variable {w w' : World} {n : Nat} {a : TaskRunAttempt}
  {notes : TaskRunAttemptOutputStream → List String}
  {inHand : TaskRunAttemptOutputStream → String}

/-- The monitor may write for the attempt it is at, under the attempt's own run. -/
theorem output_pre {stream : TaskRunAttemptOutputStream} {content : String}
    (hw : Attending n a.id w ∧ Known a w) :
    (outputs lib).pre thread (.write (.insertTaskRunAttemptOutput (outputInput a stream content)))
      w := by
  refine ⟨⟨n, hw.1⟩, fun x hx => ?_⟩
  have hsame : x = _ := hw.2.2 x hx
  rw [hsame]
  rfl

/-- What one row does to the rows of its attempt. -/
theorem recorded_print (hi : Logged w) {stream : TaskRunAttemptOutputStream} {content : String}
    {m : Nat} (h : Performs cond thread
      (.write (.insertTaskRunAttemptOutput (outputInput a stream content))) w (.ok m) w')
    (hid : a.id < w.db.taskRunAttempts.next) {x' : TaskRunAttempt}
    (hx' : w'.db.taskRunAttempts.find a.id = some x') (stream' : TaskRunAttemptOutputStream) :
    w'.db.recorded a.id stream' =
      w.db.recorded a.id stream' ++ if stream = stream' then [content] else [] := by
  obtain ⟨x, hx, -⟩ := attempt_before h hid hx'
  rw [recorded_performs hi.runs h hx hx']
  simp [printed, outputInput]

theorem print_attends (hat : Attended cond) {i : InsertTaskRunAttemptOutputInput}
    {r : Result (.write (.insertTaskRunAttemptOutput i))}
    (h : Performs cond thread (.write (.insertTaskRunAttemptOutput i)) w r w')
    (hw : Attending n a.id w ∧ Known a w) : Attending n a.id w' ∧ Known a w' :=
  attending_kept hat (by trivial) (by trivial) h hw

/-- A process is as it was after a row. -/
theorem print_process {i : InsertTaskRunAttemptOutputInput}
    {r : Result (.write (.insertTaskRunAttemptOutput i))}
    (h : Performs cond thread (.write (.insertTaskRunAttemptOutput i)) w r w') (m : Nat) :
    w'.procs.find m = w.procs.find m :=
  procs_kept (by trivial) h m

variable (inHand) in
/-- What a stream has in hand is written down, and then nothing of it is in hand; `R` is
what else is known, and `E` what a failure leaves. -/
theorem books_print (hat : Attended cond) {R E : World → Prop}
    (hR : (outputs lib).Stable cond thread R)
    (hkeep : ∀ i w r w', Performs cond thread (.write (.insertTaskRunAttemptOutput i)) w r w' →
      R w → R w')
    (hfail : ∀ stream content e w w', Performs cond thread
      (.write (.insertTaskRunAttemptOutput (outputInput a stream content))) w (.error e) w' →
      Attending n a.id w ∧ Known a w → R w → E w')
    (stream : TaskRunAttemptOutputStream) :
    (outputs lib).Triple cond thread (fun w => Books notes inHand n a w ∧ R w)
      (insertStream a stream (inHand stream))
      (Outcome (fun w => Books notes (Function.update inHand stream "") n a w ∧ R w) E) := by
  unfold insertStream
  split
  · rename_i hempty
    rw [← hempty, Function.update_eq_self]
    exact Triple.ret fun _ _ h => h
  refine Triple.bind (R := Outcome
    (fun w => Books notes (Function.update inHand stream "") n a w ∧ R w) E) ?_
    (fun _ => Triple.ret fun _ _ h => h) fun _ _ _ h => h
  refine Triple.perform ((books_stable hat).and hR) (fun w _ _ _ hw _ => output_pre hw.1.1)
    fun w r w' hi hw hperf _ => ?_
  cases r with
  | error e => exact hfail stream _ e w w' hperf hw.1.1 hw.2
  | ok m =>
      refine ⟨⟨print_attends hat hperf hw.1.1, fun p x' hp hx' stream' => ?_⟩,
        hkeep _ w _ w' hperf hw.2⟩
      have hid := hw.1.1.1.1.2.1
      obtain ⟨x, hx, -⟩ := attempt_before hperf hid hx'
      rw [print_process hperf] at hp
      rw [recorded_print hi hperf hid hx']
      have hbefore := hw.1.2 p x hp hx stream'
      by_cases hstream : stream = stream'
      · subst hstream
        rw [if_pos rfl, Function.update_self]
        exact hbefore.print
      · rw [if_neg hstream, List.append_nil, Function.update_of_ne (Ne.symm hstream)]
        exact hbefore

theorem noText_update : Function.update (Function.update inHand .stdout "") .stderr "" = noText := by
  funext stream
  cases stream <;> rfl

variable (inHand) in
/-- Both streams are written down. -/
theorem books_printAll (hat : Attended cond) {R E : World → Prop}
    (hR : (outputs lib).Stable cond thread R)
    (hkeep : ∀ i w r w', Performs cond thread (.write (.insertTaskRunAttemptOutput i)) w r w' →
      R w → R w')
    (hfail : ∀ stream content e w w', Performs cond thread
      (.write (.insertTaskRunAttemptOutput (outputInput a stream content))) w (.error e) w' →
      Attending n a.id w ∧ Known a w → R w → E w') :
    (outputs lib).Triple cond thread (fun w => Books notes inHand n a w ∧ R w)
      (insertOutput a (inHand .stdout) (inHand .stderr))
      (Outcome (fun w => Books notes noText n a w ∧ R w) E) := by
  rw [insertOutput_eq]
  refine Triple.bind (books_print inHand hat hR hkeep hfail .stdout) (fun _ => ?_) fun _ _ _ h => h
  refine Triple.bind (books_print (Function.update inHand .stdout "") hat hR hkeep hfail
    .stderr) (fun _ => ?_) fun _ _ _ h => h
  rw [noText_update]
  exact Triple.ret fun _ _ h => h

end Writing

/-! ## The parts of a pass -/

section Parts

variable {n : Nat} {a : TaskRunAttempt} {notes : TaskRunAttemptOutputStream → List String}

theorem recordsSoFar_stable {O : Outline (flowlite lib)} :
    O.Stable cond thread RecordsSoFar := by
  intro w w' hothers hw
  unfold RecordsSoFar at hw ⊢
  cases hothers with
  | run hu _ _ _ hperf => rwa [log_performs hperf, List.find?_cons_of_neg (by simp [hu])]
  | env _ _ _ hhappens => rwa [log_happens hhappens]

/-- A row of what was printed so far fails only where its attempt is gone. -/
theorem gone_of_fails (hk : cond.Le (keepsOutput lib)) {stream : TaskRunAttemptOutputStream}
    {content : String} {e : Err} {w w' : World}
    (h : Performs cond thread (.write (.insertTaskRunAttemptOutput (outputInput a stream content)))
      w (.error e) w') (hrecords : RecordsSoFar w) (x : TaskRunAttempt) :
    w'.db.taskRunAttempts.find a.id ≠ some x := by
  intro hx
  have hgone : (w.db.taskRunAttempts.find a.id).isSome = false :=
    hk.1 _ _ _ _ _ h.2 hrecords
  rw [write_error h] at hx
  rw [hx] at hgone
  cases hgone

/-- There is nothing to keep books for then. -/
theorem recordsSoFar_fails (hat : Attended cond) (hk : cond.Le (keepsOutput lib))
    {stream : TaskRunAttemptOutputStream} {content : String} {e : Err} {w w' : World}
    (h : Performs cond thread (.write (.insertTaskRunAttemptOutput (outputInput a stream content)))
      w (.error e) w')
    (hw : Attending n a.id w ∧ Known a w) (hrecords : RecordsSoFar w) :
    Books notes noText n a w' :=
  ⟨print_attends hat h hw, fun _ x _ hx => absurd hx (gone_of_fails hk h hrecords x)⟩

/-- A row leaves it so that the monitor is recording. -/
theorem recordsSoFar_print {i : InsertTaskRunAttemptOutputInput}
    {r : Result (.write (.insertTaskRunAttemptOutput i))} {w w' : World}
    (h : Performs cond thread (.write (.insertTaskRunAttemptOutput i)) w r w')
    (hw : RecordsSoFar w) : RecordsSoFar w' := by
  unfold RecordsSoFar at hw ⊢
  rwa [log_performs h, List.find?_cons_of_neg (by simp [Host.Event.prints])]

theorem books_record (hat : Attended cond) (hk : cond.Le (keepsOutput lib))
    (child : TaskRunAttemptChild) :
    (outputs lib).Triple cond thread (Books notes noText child.process a) (recordOutput a child)
      fun _ => Books notes noText child.process a := by
  refine Triple.bind (books_tryRecvAll hat) (fun chunks => ?_) fun _ _ _ h => h.elim
  refine (books_printAll (fun stream => streamContent stream chunks)
    (E := Books notes noText child.process a) hat recordsSoFar_stable
    (fun _ _ _ _ h hw => recordsSoFar_print h hw)
    fun _ _ _ _ _ h hw hr => recordsSoFar_fails hat hk h hw hr).post ?_
  intro r _ _ h
  cases r with
  | ok _ => exact h.1
  | error _ => exact h

theorem books_insertChunks (hat : Attended cond) (chunks : List TaskRunAttemptOutputChunk) :
    (outputs lib).Triple cond thread
      (Books notes (fun stream => streamContent stream chunks) n a) (insertChunks a chunks)
      (Outcome (Books notes noText n a) fun _ => True) := by
  refine ((books_printAll (fun stream => streamContent stream chunks) (R := fun _ => True)
    (E := fun _ => True) hat (stable_true _)
    (fun _ _ _ _ _ _ => trivial) fun _ _ _ _ _ _ _ _ => trivial).post ?_).pre
    fun _ _ h => ⟨h, trivial⟩
  intro r _ _ h
  cases r with
  | ok _ => exact h.1
  | error _ => trivial

theorem abortReaders_keepsBooks (n : Nat) : KeepsBooks (.abortReaders n) := by
  refine ⟨trivial, trivial, ?_, ?_⟩
  · rintro m (heq | heq) <;> cases heq
  · rintro id ⟨i, heq, -⟩
    cases heq

theorem books_finishReading (hat : Attended cond) (child : TaskRunAttemptChild) :
    (outputs lib).Triple cond thread (Books notes noText child.process a) (finishReading a child)
      (Outcome (Books notes noText child.process a) fun _ => True) := by
  refine Triple.bind (books_recvUntilClosed hat) (fun (chunks, closed) => ?_)
    fun _ _ _ h => h.elim
  dsimp only
  split
  · exact books_insertChunks hat chunks
  · refine Triple.bind (books_uses hat (uses_op (abortReaders_keepsBooks child.process)))
      (fun _ => ?_) fun _ _ _ _ => trivial
    exact books_insertChunks hat chunks

/-- One line of flowlite's own, on stderr. -/
def ownLine (text : String) : TaskRunAttemptOutputStream → List String
  | .stdout => []
  | .stderr => [text]

theorem books_note (hat : Attended cond) {text : String} (htext : text ≠ "") :
    (outputs lib).Triple cond thread (Books noLines noText n a) (insertOutput a "" text)
      (Outcome (Books (ownLine text) noText n a) fun _ => True) := by
  rw [insertOutput_eq]
  refine Triple.bind (R := Outcome (Books noLines noText n a) fun _ => True) ?_ (fun _ => ?_)
    fun _ _ _ h => h
  · exact Triple.ret fun _ _ h => h
  unfold insertStream
  rw [if_neg htext]
  refine Triple.bind (R := Outcome (Books (ownLine text) noText n a) fun _ => True)
    (Triple.bind (R := Outcome (Books (ownLine text) noText n a) fun _ => True) ?_
      (fun _ => Triple.ret fun _ _ h => h) fun _ _ _ h => h)
    (fun _ => Triple.ret fun _ _ h => h) fun _ _ _ h => h
  refine Triple.perform (books_stable hat) (fun w _ _ _ hw _ => output_pre hw.1)
    fun w r w' hi hw hperf _ => ?_
  cases r with
  | error e => trivial
  | ok m =>
      refine ⟨print_attends hat hperf hw.1, fun p x' hp hx' stream' => ?_⟩
      have hid := hw.1.1.1.2.1
      obtain ⟨x, hx, -⟩ := attempt_before hperf hid hx'
      rw [print_process hperf] at hp
      rw [recorded_print hi hperf hid hx']
      have hbefore := hw.2 p x hp hx stream'
      cases stream' with
      | stdout =>
          rw [if_neg nofun, List.append_nil]
          exact hbefore
      | stderr =>
          rw [if_pos rfl]
          exact hbefore.note text

theorem timeoutNote_ne (child : TaskRunAttemptChild) (now : Instant) :
    timeoutNote child now ≠ "" := by
  unfold timeoutNote
  split
  · split
    · intro h
      obtain ⟨-, h⟩ := String.append_eq_empty_iff.mp h
      revert h
      decide
    · decide
  · decide

theorem books_noteTimeout (hat : Attended cond) (child : TaskRunAttemptChild)
    (status : TaskRunAttemptStatus) :
    (outputs lib).Triple cond thread (Books noLines noText n a) (noteTimeout a child status)
      (Outcome (fun w => ∃ notes, OwnLines status notes ∧ Books notes noText n a w)
        fun _ => True) := by
  unfold noteTimeout
  split
  · rename_i hstatus
    subst hstatus
    refine Triple.bind (books_uses hat (now_silent.mono fun _ h => h.keepsBooks))
      (fun now => ?_) fun _ _ _ _ => trivial
    refine (books_note hat (timeoutNote_ne child now)).post fun r _ _ h => ?_
    cases r with
    | ok _ => exact ⟨_, ⟨rfl, child, now, rfl⟩, h⟩
    | error _ => trivial
  · rename_i hstatus
    exact Triple.ret fun _ _ h => ⟨noLines, ownLines_none hstatus, h⟩

theorem books_refuse (hat : Attended cond) {rejection : String} (hr : Rejection rejection) :
    (outputs lib).Triple cond thread (Books noLines noText n a) (insertOutput a "" rejection)
      (Outcome (fun w => ∃ notes, OwnLines .failed notes ∧ Books notes noText n a w)
        fun _ => True) := by
  by_cases hempty : rejection = ""
  · subst hempty
    exact Triple.ret fun _ _ h => ⟨noLines, ownLines_none nofun, h⟩
  · refine (books_note hat hempty).post fun r _ _ h => ?_
    cases r with
    | ok _ => exact ⟨_, ⟨rfl, .inr ⟨rejection, hr, rfl⟩⟩, h⟩
    | error _ => trivial

/-- A result is refused for one of a few reasons. -/
theorem readTaskOutput_triple {O : Outline (flowlite lib)} {P : World → Prop}
    (hsilent : ∀ {α : Type} {p : Code α}, p.Uses Silent → O.Triple cond thread P p fun _ => P)
    (config : Config) (a : TaskRunAttempt) :
    O.Triple cond thread P (readTaskOutput config a) fun r w =>
      P w ∧ ∀ rejection, r = .ok (.error rejection) → Rejection rejection := by
  have hread : ∀ {o : Op}, Silent o → O.Triple cond thread P (Crud.perform o).attempt fun _ => P :=
    fun ho => hsilent (Prog.Uses.attempt (uses_op ho))
  refine Triple.bind (R := fun _ => P) (hsilent (jobRunDir_silent config _).attempt)
    (fun dir => ?_) fun _ _ _ h => ⟨h, fun _ heq => nomatch heq⟩
  split
  · exact Triple.ret fun _ _ h => ⟨h, fun _ heq => by cases heq; exact .noDirectory _⟩
  refine Triple.bind (R := fun _ => P) (hread (o := .metadata _) trivial)
    (fun metadata => ?_) fun _ _ _ h => ⟨h, fun _ heq => nomatch heq⟩
  split
  · exact Triple.ret fun _ _ h => ⟨h, fun _ heq => by cases heq; exact .unreadable _ _⟩
  · exact Triple.ret fun _ _ h => ⟨h, fun _ heq => by cases heq⟩
  split
  · rename_i hlen
    exact Triple.ret fun _ _ h => ⟨h, fun _ heq => by cases heq; exact .tooLong hlen⟩
  refine Triple.bind (R := fun _ => P) (hread (o := .readFile _) trivial)
    (fun bytes => ?_) fun _ _ _ h => ⟨h, fun _ heq => nomatch heq⟩
  split
  · exact Triple.ret fun _ _ h => ⟨h, fun _ heq => by cases heq; exact .unreadable _ _⟩
  · split
    · exact Triple.ret fun _ _ h => ⟨h, fun _ heq => by cases heq; exact .notUtf8⟩
    · exact Triple.ret fun _ _ h => ⟨h, fun _ heq => by cases heq⟩

theorem keepsBooks_of_handled {o : Op} (ho : o = .now ∨ o = .processGroupIsGone n ∨
    o = .terminateProcessGroup n ∨ o = .killProcessGroup n ∨ ∃ id, o = .write (.insertJobRunStop id)) :
    KeepsBooks o := by
  rcases ho with rfl | rfl | rfl | rfl | ⟨id, rfl⟩
  all_goals
    refine ⟨trivial, trivial, ?_, ?_⟩
    · rintro m (heq | heq) <;> cases heq
    · rintro id ⟨i, heq, -⟩
      cases heq

/-- An attempt settles with nothing in hand, and with the lines that go with its status. -/
theorem books_finish (hat : Attended cond) (status : TaskRunAttemptStatus)
    (output : Option String) :
    (outputs lib).Triple cond thread
      (fun w => ∃ n notes, OwnLines status notes ∧ Books notes noText n a w)
      (finishTaskRunAttempt a status output) fun _ _ => True := by
  refine Triple.of_exists fun n => Triple.of_exists fun notes => ?_
  refine Triple.of_fact (fun _ _ h => h.1) fun hnotes => Triple.pre ?_ fun _ _ h => h.2
  refine Triple.seq (books_uses hat ?_) fun _ => ?_
  · unfold stopUnlessSucceeded
    split
    · trivial
    · exact stopChildJobRuns_uses (fun _ h => h.keepsBooks)
        (fun id => keepsBooks_of_handled (n := 0) (.inr (.inr (.inr (.inr ⟨id, rfl⟩))))) a
  refine Triple.seq (books_uses hat (now_silent.mono fun _ h => h.keepsBooks)) fun now => ?_
  refine Triple.perform (books_stable hat) (fun w r w' _ hw hperf => ?_) fun _ _ _ _ _ _ _ => trivial
  intro status' id hset _ hid m q hq hqid
  cases hset
  cases hid
  obtain ⟨p, hp, hpid, -⟩ := hw.1.1.2
  have hmn := (custody_of hat.custody hperf).1.unique m q n p hq hp (hqid.trans hpid.symm)
  subst hmn
  exact ⟨notes, hnotes, fun _ => hw.2⟩

/-- A child that goes back has its lines with it. -/
theorem books_insert (hat : Attended cond) {child : TaskRunAttemptChild}
    (hnotes : OwnLines child.bound notes) :
    (outputs lib).Triple cond thread (Books notes noText child.process a)
      (Crud.perform (.childrenInsert a.id child)) fun _ _ => True :=
  Triple.perform (books_stable hat) (fun _ _ _ _ hw _ => ⟨notes, hnotes, hw.2⟩)
    fun _ _ _ _ _ _ _ => trivial

/-- The balance at each stage of handling a child. -/
def booksPhases (hat : Attended cond) (hk : cond.Le (keepsOutput lib)) (config : Config)
    (a : TaskRunAttempt) : Phases (outputs lib) cond config a fun _ => True where
  held child w := child.terminating = none ∧ Books noLines noText child.process a w
  decided child _ := Books noLines noText child.process a
  ending child status w := ∃ notes, OwnLines status notes ∧ Books notes noText child.process a w
  dead child status w := ∃ notes, OwnLines status notes ∧ Books notes noText child.process a w
  received status w := ∃ n notes, OwnLines status notes ∧ Books notes noText n a w
  refused rejection w := Rejection rejection ∧ ∃ n, Books noLines noText n a w
  settling status w := ∃ n notes, OwnLines status notes ∧ Books notes noText n a w
  derive child := by
    refine Triple.of_fact (fun _ _ h => h.1) fun hnone => ?_
    refine ((deriveNextStatus_triple (books_stable hat) fun o ho w _ _ hi hw hperf =>
      ⟨keepsBooks_pre ho.keepsBooks w, fun _ => books_kept hat hi ho.keepsBooks hperf hw⟩).post
      ?_).pre fun _ _ h => h.2
    intro r w _ h
    cases r with
    | error e => exact ⟨hnone, h⟩
    | ok status =>
        cases status with
        | succeeded => exact ⟨noLines, ownLines_none nofun, h.1⟩
        | failed => exact ⟨noLines, ownLines_none nofun, h.1⟩
        | running => exact ⟨hnone, h⟩
        | _ => exact h
  note child status := books_noteTimeout hat child status
  wait child status o ho := by
    refine Triple.infallible (by rcases ho with rfl | rfl | rfl <;> trivial)
      (Triple.of_exists fun notes => Triple.of_fact (fun _ _ h => h.1) fun hnotes => ?_)
    have hkeeps : KeepsBooks o := keepsBooks_of_handled (n := child.process)
      (by rcases ho with rfl | rfl | rfl <;> simp)
    exact ((books_uses hat (uses_op hkeeps)).post fun _ _ _ h => ⟨notes, hnotes, h⟩).pre
      fun _ _ h => h.2
  kill child status := by
    refine Triple.infallible (by trivial)
      (Triple.of_exists fun notes => Triple.of_fact (fun _ _ h => h.1) fun hnotes => ?_)
    have hkeeps : KeepsBooks (.killProcessGroup child.process) :=
      keepsBooks_of_handled (.inr (.inr (.inr (.inl rfl))))
    exact ((books_uses hat (uses_op hkeeps)).post fun _ _ _ h => ⟨notes, hnotes, h⟩).pre
      fun _ _ h => h.2
  receive child status := by
    refine Triple.of_exists fun notes => Triple.of_fact (fun _ _ h => h.1) fun hnotes => ?_
    refine ((books_finishReading hat child).post ?_).pre fun _ _ h => h.2
    intro r _ _ h
    cases r with
    | ok _ => exact ⟨_, notes, hnotes, h⟩
    | error _ => trivial
  result := by
    refine Triple.of_exists fun n => Triple.of_exists fun notes =>
      Triple.of_fact (fun _ _ h => h.1) fun hnotes => ?_
    obtain rfl := hnotes.eq_none (.inl rfl)
    refine ((readTaskOutput_triple (fun hp => books_uses hat (hp.mono fun _ h => h.keepsBooks))
      config a).post ?_).pre fun _ _ h => h.2
    intro r w _ h
    cases r with
    | error _ => trivial
    | ok result =>
        cases result with
        | ok output => exact ⟨n, noLines, hnotes, h.1⟩
        | error rejection => exact ⟨h.2 rejection rfl, n, h.1⟩
  refuse rejection := by
    refine Triple.of_fact (fun _ _ h => h.1) fun hr => Triple.pre ?_ fun _ _ h => h.2
    refine Triple.of_exists fun n => (books_refuse hat hr).post ?_
    intro r _ _ h
    cases r with
    | ok _ => exact ⟨n, h⟩
    | error _ => trivial
  settle _ _ _ _ h := h
  finish status output := books_finish hat status output
  putBack child := by
    refine Triple.of_fact (fun _ _ h => h.1) fun hnone => Triple.pre ?_ fun _ _ h => h.2
    refine books_insert hat ?_
    rw [Host.TaskRunAttemptChild.bound, hnone]
    exact ownLines_none nofun
  keep child := by
    refine Triple.of_fact (fun _ _ h => h.1) fun hnone => Triple.pre ?_ fun _ _ h => h.2
    refine recordAndPutBack_triple (books_record hat hk child) (books_insert hat ?_)
    rw [Host.TaskRunAttemptChild.bound, hnone]
    exact ownLines_none nofun
  keepEnding child termination := by
    refine Triple.of_exists fun notes => Triple.of_fact (fun _ _ h => h.1) fun hnotes =>
      Triple.pre ?_ fun _ _ h => h.2
    exact recordAndPutBack_triple (books_record hat hk { child with terminating := some termination })
      (books_insert hat hnotes)

theorem books_monitor (hat : Attended cond) (hk : cond.Le (keepsOutput lib)) (config : Config)
    (a : TaskRunAttempt) :
    (outputs lib).Triple cond thread (fun w => AttemptAt thread a.id w ∧ Known a w)
      (handleRunningTaskRunAttempt config a) fun _ _ => True := by
  refine Triple.seq (R := fun r w => ∀ child, r = .ok (some child) → EndsStopped child ∧
    ∃ notes, OwnLines child.bound notes ∧ Books notes noText child.process a w) ?_ fun child => ?_
  · refine Triple.perform ((attemptAt_stable hat.base (meetsAttempts hat.attempts) _ a.id).and
      (known_stable _ a)) (fun _ _ _ _ _ _ => trivial) ?_
    rintro w r w' hi ⟨hrunning, hknown⟩ hperf - child rfl
    have hchild := childrenRemove_answer hperf
    have hc := (custody_of hat.custody hperf).1
    obtain ⟨notes, hnotes, hw⟩ := hi.held a.id child hchild
    obtain ⟨p, hp, hid, -⟩ := hc.process a.id child hchild
    refine ⟨(hat.base.1 _ _ _ _ _ hperf.2).1.2 a.id child hchild, notes, hnotes,
      ⟨⟨(attemptAt_keeps (by trivial) hrunning hperf).2, childrenRemove_holds hc hperf⟩,
        known_performs hperf hknown⟩, tracked_kept hi.runs hp hrunning.2.1 ?_ ?_ hperf hw⟩
    · rintro (heq | heq) <;> cases heq
    · rintro ⟨i, heq, -⟩
      cases heq
  · cases child with
    | none =>
        -- nothing is said of what an invalid attempt printed
        refine Triple.pre (W := fun _ => True) ?_ fun _ _ _ => trivial
        refine Triple.of_uses (stable_true _) ((finishTaskRunAttempt_uses
          (P := fun o => ∀ w : World, (outputs lib).pre thread o w)
          (fun _ ho w => keepsBooks_pre ho.keepsBooks w) (fun _ _ => trivial) a .invalid none
          fun now w => ?_).mono fun o ho w _ _ _ _ _ => ⟨ho w, fun _ => trivial⟩)
        rintro status id hset hreports
        cases hset
        rcases hreports with h | h | h | h <;> cases h
    | some child =>
        refine Triple.of_fact (fun _ _ h => (h child rfl).1) fun hchild =>
          Triple.pre ?_ fun _ _ h => (h child rfl).2
        dsimp only
        split
        · rename_i termination hterminating
          refine ((booksPhases hat hk config a).handleTerminating child hterminating ?_).pre
            fun _ _ h => ?_
          · rcases hchild termination hterminating with h | h <;> rw [h] <;> nofun
          · rwa [Host.TaskRunAttemptChild.bound, hterminating] at h
        · rename_i hnone
          refine ((booksPhases hat hk config a).handleChild child).pre fun _ _ h => ?_
          obtain ⟨notes, hnotes, hw⟩ := h
          rw [Host.TaskRunAttemptChild.bound, hnone] at hnotes
          obtain rfl := hnotes.eq_none (.inr rfl)
          exact ⟨hnone, hw⟩

end Parts

/-! ## The outline holds -/

/-- The dispatcher hands over a child nothing has been read from. -/
theorem outputs_dispatcher (hat : Attended cond) (config : Config) (a : TaskRunAttempt) :
    (outputs lib).Triple cond (.service .taskRunAttemptDispatcher) (fun _ => True)
      (TaskRunAttemptDispatcher.handleQueuedTaskRunAttempt lib config a) fun _ _ => True := by
  have hfresh : (TaskRunAttemptDispatcher.handleQueuedTaskRunAttempt lib config a).Uses
      fun o : Op => ∀ id child, o = .childrenInsert id child → child.terminating = none := by
    refine TaskRunAttemptDispatcher.handle_walk (Prog.Uses.walk (S := flowliteOps) _)
      ?_ (by nofun) lib config a (by nofun) (by nofun) ?_ (fun _ _ _ => uses_write nofun)
      fun _ => uses_write nofun
    · rintro o ho id child rfl
      exact ho.elim
    · rintro child hnone id child' heq
      cases heq
      exact hnone
  refine Triple.of_uses (stable_true _) (hfresh.mono fun o ho w r w' hi _ hperf =>
    ⟨?_, fun _ => trivial⟩)
  have hallowed := allowed_of hat.base hperf
  cases o with
  | childrenInsert id child =>
      obtain ⟨p, hp, rfl, hholder⟩ := custody_pre_of hat.custody hperf
      refine ⟨noLines, ?_, hi.spawned _ p hp hholder⟩
      rw [Host.TaskRunAttemptChild.bound, ho _ child rfl]
      exact ownLines_none nofun
  | tryRecvAll => cases hallowed
  | recvUntilClosed => cases hallowed
  | write q =>
      cases q
      case insertTaskRunAttemptOutput => cases hallowed
      case updateTaskRunAttempts f i =>
        intro status id hset hreports
        cases hallowed with
        | dropAttempt hs =>
            cases hset
            rcases hs with rfl | rfl <;> rcases hreports with h | h | h | h <;> cases h
        | markStarted => cases hset
        | startAttempt =>
            cases hset
            rcases hreports with h | h | h | h <;> cases h
      all_goals trivial
  | _ => trivial

/-- Nobody else reads, writes, or settles an attempt as anything but invalid. -/
theorem outputs_others (hat : Attended cond) {t : Tid} (ht : ¬ HasChildren t) {o : Op}
    {w w' : World} {r : Result o} (h : Performs cond t o w r w') : (outputs lib).pre t o w := by
  have hallowed := allowed_of hat.base h
  cases o with
  | childrenInsert => exact absurd hallowed.2 ht
  | tryRecvAll => exact absurd (.inr hallowed) ht
  | recvUntilClosed => exact absurd (.inr hallowed) ht
  | write q =>
      cases q
      case insertTaskRunAttemptOutput =>
        cases hallowed
        exact absurd (.inr rfl) ht
      case updateTaskRunAttempts f i =>
        intro status id hset hreports
        cases hallowed with
        | dropAttempt => exact absurd (.inl rfl) ht
        | markStarted => exact absurd (.inl rfl) ht
        | startAttempt => exact absurd (.inl rfl) ht
        | settleAttempt => exact absurd (.inr rfl) ht
        | recoverAttempt =>
            cases hset
            rcases hreports with h | h | h | h <;> cases h
        | wait => cases hset
      all_goals trivial
  | _ => trivial

theorem outputs_valid (hat : Attended cond) (hk : cond.Le (keepsOutput lib)) :
    (outputs lib).Valid cond where
  init := by
    rintro w rfl
    exact ⟨logged_fresh, fun _ => trivial⟩
  step _ _ _ _ _ hi hpre hperf := logged_step hat hi hpre hperf
  env _ _ _ hi hhappens := ⟨logged_happens hi hhappens, fun _ _ => trivial⟩
  idle t := stable_true t
  start := by
    have hothers : ∀ {t : Tid}, ¬ HasChildren t → ∀ {P : World → Prop} (p : Code Unit),
        (outputs lib).Triple cond t P p fun _ _ => True := by
      intro t ht P p
      refine Triple.pre (W := fun _ => True) ?_ fun _ _ _ => trivial
      exact Triple.of_pre fun o w r w' _ hperf => outputs_others hat ht hperf
    have hsilent : ∀ {t : Tid} (o : Op) (w : World), Silent o → (outputs lib).pre t o w :=
      fun o w ho => keepsBooks_pre ho.keepsBooks w
    refine start_triple (fun config fuel s => ?_) fun c r => hothers (by rintro (h | h) <;> cases h) _
    cases s with
    | taskRunAttemptDispatcher =>
        refine Triple.pre (W := fun _ => True) ?_ fun _ _ _ => trivial
        refine Poller.pass_each ?_ (outputs_dispatcher hat config)
        exact Triple.of_uses (stable_true _) ((selectTaskRunAttempts_silent _ _).mono
          fun o ho w _ _ _ _ _ => ⟨hsilent o w ho, fun _ => trivial⟩)
    | taskRunAttemptMonitor =>
        exact attemptAt_pass (P := fun _ => True) hat.base (meetsAttempts hat.attempts)
          (by exact rfl) (stable_true _) (fun _ _ _ _ h => h) (fun o w ho _ => hsilent o w ho)
          (fun a => (books_monitor hat hk config a).pre fun _ _ h => h.2) (handle_on config)
    | _ => exact hothers (by rintro (h | h) <;> cases h) _

end Flowlite

import Flowlite.Logic.Custody

/-!
# What a command printed

The readers of a command deliver chunks; the monitor takes them out of the channel and
writes them down as rows, and adds lines of flowlite's own. `Accounted` is the balance:
what is written down, what the monitor has in hand and what is still in the channel are
together what was delivered. `outputs` is the outline that keeps it.
-/

namespace Flowlite

open Store Host Threads Crud Machine Outline

variable {lib : Library} {cond : (flowlite lib).Condition} {O : Outline (flowlite lib)}

/-! ## The rows -/

/-- The contents of an attempt's rows of one stream, in the order they were written. -/
def Store.Database.recorded (db : Database) (id : Nat) (stream : TaskRunAttemptOutputStream) :
    List String :=
  (db.taskRunAttemptOutputs.rows.filter fun r =>
    r.taskRunAttemptId = id && r.stream = stream).map (·.content)

/-- The contents of an attempt's rows of some streams, in the order they were written. -/
def Store.Database.outputRows (db : Database) (id : Nat)
    (p : TaskRunAttemptOutputStream → Bool) : List String :=
  (db.taskRunAttemptOutputs.rows.filter fun r =>
    r.taskRunAttemptId = id && p r.stream).map (·.content)

/-- What an operation adds to them. -/
def added (id : Nat) (p : TaskRunAttemptOutputStream → Bool) (o : Op) (r : Result o) :
    List String :=
  match o, r with
  | .write (.insertTaskRunAttemptOutput i), .ok _ =>
      if i.taskRunAttemptId = id ∧ p i.stream = true then [i.content] else []
  | _, _ => []

/-- What an operation adds to the rows of an attempt. -/
def printed (id : Nat) (stream : TaskRunAttemptOutputStream) (o : Op) (r : Result o) :
    List String :=
  match o, r with
  | .write (.insertTaskRunAttemptOutput i), .ok _ =>
      if i.taskRunAttemptId = id ∧ i.stream = stream then [i.content] else []
  | _, _ => []

/-- The operation writes a row for the attempt. -/
def Prints (id : Nat) (o : Op) : Prop :=
  ∃ i, o = .write (.insertTaskRunAttemptOutput i) ∧ i.taskRunAttemptId = id

/-- The operation takes chunks of the process out of the channel. -/
def Receives (n : Nat) (o : Op) : Prop :=
  o = .tryRecvAll n ∨ o = .recvUntilClosed n

theorem added_eq_nil {id : Nat} {p : TaskRunAttemptOutputStream → Bool} {o : Op} {r : Result o}
    (h : ¬ Prints id o) : added id p o r = [] := by
  unfold added
  split
  · rename_i i _
    exact if_neg fun hid => h ⟨i, rfl, hid.1⟩
  · rfl

theorem printed_eq_nil {id : Nat} {stream : TaskRunAttemptOutputStream} {o : Op} {r : Result o}
    (h : ¬ Prints id o) : printed id stream o r = [] := by
  unfold printed
  split
  · rename_i i _
    exact if_neg fun hid => h ⟨i, rfl, hid.1⟩
  · rfl

section Steps

variable {t : Tid} {o : Op} {w w' : World} {r : Result o}

/-- A row is inserted, or the rows of whole job runs are deleted. -/
theorem outputs_cases (h : Performs cond t o w r w') :
    w'.db.taskRunAttemptOutputs = w.db.taskRunAttemptOutputs ∧
        (∀ id p, added id p o r = []) ∨
      (∃ i now, o = .write (.insertTaskRunAttemptOutput i) ∧ Succeeded r ∧
        w'.db.taskRunAttemptOutputs = w.db.taskRunAttemptOutputs.insert (i.draft now) ∧
        w'.db.taskRunAttempts = w.db.taskRunAttempts) ∨
      ∃ ids : List Nat, w'.db = w.db.deleteRows ids ∧ ∀ id p, added id p o r = [] := by
  have hsilent : (∀ i, o ≠ .write (.insertTaskRunAttemptOutput i)) →
      ∀ id p, added id p o r = [] :=
    fun ho id p => added_eq_nil (by rintro ⟨i, heq, -⟩; exact ho i heq)
  by_cases hwrite : ∃ q, o = .write q
  · obtain ⟨q, rfl⟩ := hwrite
    rcases write_cases h with ⟨e, rfl, rfl⟩ | ⟨now, a, db, hrun, rfl, rfl⟩
    · exact .inl ⟨rfl, fun id p => by cases q <;> rfl⟩
    cases q
    case insertTaskRunAttemptOutput i =>
      simp only [Write.run, Option.ite_none_right_eq_some, Option.some.injEq,
        Prod.mk.injEq] at hrun
      obtain ⟨-, -, rfl⟩ := hrun
      exact .inr (.inl ⟨i, now, rfl, ⟨_, rfl⟩, rfl, rfl⟩)
    case deleteJobRunsWithChildren f =>
      obtain ⟨-, rfl, -⟩ := Database.run_deleteJobRunsWithChildren hrun
      exact .inr (.inr ⟨w.db.deletedBy f, rfl, hsilent (by simp)⟩)
    case deleteJobRun id at' =>
      simp only [Write.run] at hrun
      split at hrun <;> cases hrun <;> exact .inl ⟨rfl, hsilent (by simp)⟩
    all_goals
      refine .inl ⟨?_, hsilent (by simp)⟩
      simp only [Write.run, Option.ite_none_right_eq_some, Option.some.injEq,
        Prod.mk.injEq] at hrun
      grind [commit_db, Database.updateJobRuns, Database.updateTaskRuns,
        Database.updateTaskRunAttempts]
  · refine .inl ⟨?_, hsilent fun i hi => hwrite ⟨_, hi⟩⟩
    rw [db_of_not_write h fun q hq => hwrite ⟨q, hq⟩]

/-- Every row belongs to the job run its attempt belongs to. -/
def RowsOfRuns (db : Database) : Prop :=
  ∀ r ∈ db.taskRunAttemptOutputs.rows, ∀ x,
    db.taskRunAttempts.find r.taskRunAttemptId = some x → r.jobRunId = x.jobRunId

/-- Some of the rows of an attempt that is still there, told by their stream: those it had,
and what the step adds. -/
theorem outputRows_performs (hrows : RowsOfRuns w.db) (h : Performs cond t o w r w') {id : Nat}
    {x x' : TaskRunAttempt} (hx : w.db.taskRunAttempts.find id = some x)
    (hx' : w'.db.taskRunAttempts.find id = some x') (p : TaskRunAttemptOutputStream → Bool) :
    w'.db.outputRows id p = w.db.outputRows id p ++ added id p o r := by
  rcases outputs_cases h with ⟨heq, hnone⟩ | ⟨i, now, rfl, ⟨a, rfl⟩, heq, -⟩ | ⟨ids, heq, hnone⟩
  · rw [hnone, List.append_nil, Database.outputRows, heq]
    rfl
  · rw [Database.outputRows, heq]
    simp only [Table.insert, List.filter_append, List.map_append, added]
    congr 1
    by_cases hmine : i.taskRunAttemptId = id ∧ p i.stream = true
    · rw [if_pos hmine, List.filter_cons_of_pos]
      · rfl
      · exact Bool.and_eq_true_iff.mpr ⟨decide_eq_true hmine.1, hmine.2⟩
    · rw [if_neg hmine, List.filter_cons_of_neg]
      · rfl
      · intro hrow
        obtain ⟨hid, hstream⟩ := Bool.and_eq_true_iff.mp hrow
        exact hmine ⟨of_decide_eq_true hid, hstream⟩
  · -- the attempt is still there, so its job run was not deleted, and its rows were not
    rw [hnone, List.append_nil, Database.outputRows, heq]
    rw [heq] at hx'
    simp only [Database.deleteRows, Table.find_delete, hx] at hx'
    obtain ⟨-, hstays⟩ := Option.filter_eq_some_iff.mp hx'
    simp only [Database.deleteRows, Table.delete, List.filter_filter, Database.outputRows]
    congr 1
    refine List.filter_congr fun y hy => ?_
    by_cases hmine : y.taskRunAttemptId = id
    · have hrun := hrows y hy x (hmine ▸ hx)
      have hkept : x.jobRunId ∉ ids := by
        cases (Option.filter_eq_some_iff.mp hx').1
        simpa using hstays
      simp [hrun, hkept]
    · simp [hmine]

/-- The rows of an attempt that is still there are those it had, and what the step adds. -/
theorem recorded_performs (hrows : RowsOfRuns w.db) (h : Performs cond t o w r w') {id : Nat}
    {x x' : TaskRunAttempt} (hx : w.db.taskRunAttempts.find id = some x)
    (hx' : w'.db.taskRunAttempts.find id = some x') (stream : TaskRunAttemptOutputStream) :
    w'.db.recorded id stream = w.db.recorded id stream ++ printed id stream o r := by
  have hadded : added id (fun s => s = stream) o r = printed id stream o r := by
    unfold added printed
    split
    · simp only [decide_eq_true_eq]
    · rfl
  exact hadded ▸ outputRows_performs hrows h hx hx' fun s => s = stream

end Steps

/-! ## The balance -/

/-- Some rows are flowlite's own; the others, what is in hand and what is in the channel
are what was delivered. -/
def Accounted (rows notes : List String) (inHand : String) (stream : TaskRunAttemptOutputStream)
    (p : Process) : Prop :=
  ∃ xs ys, rows = xs ++ notes ++ ys ∧
    String.join (xs ++ ys) ++ inHand ++ streamContent stream p.chunks =
      streamContent stream p.delivered

theorem streamContent_append (stream : TaskRunAttemptOutputStream)
    (xs ys : List TaskRunAttemptOutputChunk) :
    streamContent stream (xs ++ ys) = streamContent stream xs ++ streamContent stream ys := by
  induction xs with
  | nil => simp [streamContent]
  | cons c rest ih => simp only [List.cons_append, streamContent, ih, String.append_assoc]

section Accounted

variable {rows notes : List String} {inHand : String} {stream : TaskRunAttemptOutputStream}
  {p q : Process}

theorem Accounted.congr (h : Accounted rows notes inHand stream p) (hchunks : q.chunks = p.chunks)
    (hdelivered : q.delivered = p.delivered) : Accounted rows notes inHand stream q := by
  obtain ⟨xs, ys, hrows, hsum⟩ := h
  exact ⟨xs, ys, hrows, by rw [hchunks, hdelivered, hsum]⟩

/-- A chunk that is delivered is in the channel. -/
theorem Accounted.deliver (h : Accounted rows notes inHand stream p)
    (chunk : TaskRunAttemptOutputChunk) (hchunks : q.chunks = p.chunks ++ [chunk])
    (hdelivered : q.delivered = p.delivered ++ [chunk]) :
    Accounted rows notes inHand stream q := by
  obtain ⟨xs, ys, hrows, hsum⟩ := h
  refine ⟨xs, ys, hrows, ?_⟩
  rw [hchunks, hdelivered, streamContent_append, streamContent_append, ← hsum,
    ← String.append_assoc]

/-- What is received is in hand. -/
theorem Accounted.receive (h : Accounted rows notes "" stream p) (hchunks : q.chunks = [])
    (hdelivered : q.delivered = p.delivered) :
    Accounted rows notes (streamContent stream p.chunks) stream q := by
  obtain ⟨xs, ys, hrows, hsum⟩ := h
  refine ⟨xs, ys, hrows, ?_⟩
  rw [hchunks, hdelivered, ← hsum]
  simp [streamContent]

/-- What was in hand is written down. -/
theorem Accounted.print (h : Accounted rows notes inHand stream p) :
    Accounted (rows ++ [inHand]) notes "" stream p := by
  obtain ⟨xs, ys, hrows, hsum⟩ := h
  refine ⟨xs, ys ++ [inHand], by rw [hrows]; simp, ?_⟩
  rw [← hsum, ← List.append_assoc, String.join_append]
  simp

/-- A line of flowlite's own is written down. -/
theorem Accounted.note (h : Accounted rows [] inHand stream p) (text : String) :
    Accounted (rows ++ [text]) [text] inHand stream p := by
  obtain ⟨xs, ys, hrows, hsum⟩ := h
  refine ⟨rows, [], by simp, ?_⟩
  rw [← hsum, hrows]
  simp

theorem Accounted.fresh (hchunks : p.chunks = []) (hdelivered : p.delivered = []) :
    Accounted [] [] "" stream p :=
  ⟨[], [], rfl, by rw [hchunks, hdelivered]; simp [streamContent]⟩

end Accounted

/-! ## flowlite's own lines -/

/-- Why the result of a command that exited zero is not recorded. -/
inductive Rejection : String → Prop
  | noDirectory (error : Err) : Rejection (TaskRunAttemptMonitor.noDirectory error)
  | unreadable (path : String) (error : Err) :
      Rejection (TaskRunAttemptMonitor.unreadable path error)
  | tooLong {len maxBytes : Nat} : len > maxBytes →
      Rejection (TaskRunAttemptMonitor.tooLong len maxBytes)
  | notUtf8 : Rejection TaskRunAttemptMonitor.notUtf8

/-- The lines flowlite adds to an attempt that ends so: to stderr, which limit ended it or
why its result was refused. -/
def OwnLines (status : TaskRunAttemptStatus) (notes : TaskRunAttemptOutputStream → List String) :
    Prop :=
  notes .stdout = [] ∧
    match status with
    | .timedOut => ∃ child now, notes .stderr = [TaskRunAttemptMonitor.timeoutNote child now]
    | .failed => notes .stderr = [] ∨ ∃ rejection, Rejection rejection ∧ notes .stderr = [rejection]
    | _ => notes .stderr = []

/-- No lines. -/
def noLines : TaskRunAttemptOutputStream → List String := fun _ => []

theorem ownLines_none {status : TaskRunAttemptStatus} (h : status ≠ .timedOut) :
    OwnLines status noLines := by
  refine ⟨rfl, ?_⟩
  cases status <;> first
    | exact absurd rfl h
    | exact .inl rfl
    | rfl

theorem OwnLines.eq_none {status : TaskRunAttemptStatus}
    {notes : TaskRunAttemptOutputStream → List String}
    (h : OwnLines status notes) (hs : status = .succeeded ∨ status = .running) :
    notes = noLines := by
  obtain ⟨hout, herr⟩ := h
  funext stream
  cases stream with
  | stdout => exact hout
  | stderr => rcases hs with rfl | rfl <;> exact herr

/-- What an attempt will settle as if it was asked to exit. -/
def Host.TaskRunAttemptChild.bound (child : TaskRunAttemptChild) : TaskRunAttemptStatus :=
  match child.terminating with
  | none => .running
  | some termination => termination.status

/-! ## What is kept -/

/-- The balance of the process of an attempt that is there, stream by stream. -/
def Tracked (notes : TaskRunAttemptOutputStream → List String)
    (inHand : TaskRunAttemptOutputStream → String) (n id : Nat) (w : World) : Prop :=
  ∀ p x, w.procs.find n = some p → w.db.taskRunAttempts.find id = some x → ∀ stream,
    Accounted (w.db.recorded id stream) (notes stream) (inHand stream) stream p

/-- Nothing is in hand. -/
def noText : TaskRunAttemptOutputStream → String := fun _ => ""

/-- The last drain of the process saw the channel close. -/
def Host.Event.readsToEnd (n : Nat) (e : Host.Event) : Bool :=
  match e with
  | ⟨_, .recvUntilClosed m, .ok (_, closed)⟩ => m = n && closed
  | _ => false

/-- Both readers of the process had come to the end of their pipes by the end of a drain. -/
def ReadToEnd (n : Nat) (w : World) : Prop :=
  w.log.any (·.readsToEnd n) = true

/-- An attempt with this status reports how its command ended. -/
def Reports (status : TaskRunAttemptStatus) : Prop :=
  status = .succeeded ∨ status = .failed ∨ status = .timedOut ∨ status = .aborted

/-- What was delivered is accounted for wherever the child is, and once the attempt has
settled. -/
structure Logged (w : World) : Prop where
  runs : RowsOfRuns w.db
  process : ∀ r ∈ w.db.taskRunAttemptOutputs.rows, ∃ n p, w.procs.find n = some p ∧
    p.taskRunAttemptId = r.taskRunAttemptId
  read : ∀ n, ReadToEnd n w → ∃ p, w.procs.find n = some p
  ended : ∀ n p, w.procs.find n = some p → ReadToEnd n w → p.closed = true ∧ p.chunks = []
  spawned : ∀ n p, w.procs.find n = some p → p.holder = .dispatcher →
    Tracked noLines noText n p.taskRunAttemptId w
  held : ∀ id child, w.children id = some child →
    ∃ notes, OwnLines child.bound notes ∧ Tracked notes noText child.process id w
  settled : ∀ n p x, w.procs.find n = some p →
    w.db.taskRunAttempts.find p.taskRunAttemptId = some x → Reports x.status →
    ∃ notes, OwnLines x.status notes ∧
      (ReadToEnd n w → Tracked notes noText n p.taskRunAttemptId w)

/-- The monitor has the child of the process, and its attempt runs. -/
def Attending (n id : Nat) (w : World) : Prop :=
  AttemptAt TaskRunAttemptMonitor.thread id w ∧ Holds TaskRunAttemptMonitor.thread n id w

/-- Only the monitor reads and writes, for a child it has; a child goes back into the map,
and an attempt is settled, with the books in balance. -/
def outputs (lib : Library) : Outline (flowlite lib) where
  inv := Logged
  pre _ o w :=
    match o with
    | .tryRecvAll n | .recvUntilClosed n => ∃ id, Attending n id w
    | .write (.insertTaskRunAttemptOutput i) => (∃ n, Attending n i.taskRunAttemptId w) ∧
        ∀ x, w.db.taskRunAttempts.find i.taskRunAttemptId = some x → i.jobRunId = x.jobRunId
    | .childrenInsert id child =>
        ∃ notes, OwnLines child.bound notes ∧ Tracked notes noText child.process id w
    | .write (.updateTaskRunAttempts f i) => ∀ status id, i.status = some status →
        Reports status → f.id = some id → ∀ n p, w.procs.find n = some p →
        p.taskRunAttemptId = id →
        ∃ notes, OwnLines status notes ∧ (ReadToEnd n w → Tracked notes noText n id w)
    | _ => True
  idle _ _ := True

/-! ## One step -/

section Steps

variable {t : Tid} {o : Op} {w w' : World} {r : Result o}

theorem tryRecvAll_answer {n : Nat} {chunks : List TaskRunAttemptOutputChunk}
    (h : Performs cond t (.tryRecvAll n) w (.ok chunks) w') :
    ∃ p, w.procs.find n = some p ∧ chunks = p.chunks := by
  obtain ⟨ch, w₁, houtcome, rfl⟩ := performs_cases h
  simp only [World.outcome, Option.map_eq_some_iff] at houtcome
  obtain ⟨p, hp, heq⟩ := houtcome
  cases heq
  exact ⟨p, hp, rfl⟩

theorem recvUntilClosed_answer {n : Nat} {chunks : List TaskRunAttemptOutputChunk} {closed : Bool}
    (h : Performs cond t (.recvUntilClosed n) w (.ok (chunks, closed)) w') :
    ∃ p, w.procs.find n = some p ∧ chunks = p.chunks ∧ (closed = true → p.closed = true) := by
  obtain ⟨ch, w₁, houtcome, rfl⟩ := performs_cases h
  simp only [World.outcome, Option.bind_eq_some_iff] at houtcome
  obtain ⟨p, hp, houtcome⟩ := houtcome
  split at houtcome
  · cases houtcome
    exact ⟨p, hp, rfl, fun h => by cases h⟩
  · split at houtcome <;> cases houtcome
    rename_i hclosed
    exact ⟨p, hp, rfl, fun _ => hclosed⟩

theorem readsToEnd_receives {n : Nat} (h : (Host.Event.mk t o r).readsToEnd n = true) :
    ∃ chunks, o = .recvUntilClosed n ∧ HEq r (Except.ok (chunks, true) :
      Result (.recvUntilClosed n)) := by
  unfold Host.Event.readsToEnd at h
  split at h
  · rename_i u m chunks closed heq
    cases heq
    obtain ⟨hm, rfl⟩ := Bool.and_eq_true_iff.mp h
    obtain rfl := of_decide_eq_true hm
    exact ⟨chunks, rfl, .rfl⟩
  · cases h

/-- The end of the channel is seen by a drain, once. -/
theorem readToEnd_performs {n : Nat} (h : Performs cond t o w r w') (hend : ReadToEnd n w') :
    ReadToEnd n w ∨ o = .recvUntilClosed n ∧
      ∃ p, w.procs.find n = some p ∧ p.closed = true := by
  unfold ReadToEnd at hend
  rw [log_performs h, List.any_cons, Bool.or_eq_true] at hend
  rcases hend with hthis | hbefore
  · obtain ⟨chunks, rfl, heq⟩ := readsToEnd_receives hthis
    obtain rfl := eq_of_heq heq
    obtain ⟨p, hp, -, hclosed⟩ := recvUntilClosed_answer h
    exact .inr ⟨rfl, p, hp, hclosed rfl⟩
  · exact .inl hbefore

/-- The books of an attempt nobody reads for or writes for stay as they are. -/
theorem tracked_kept (hrows : RowsOfRuns w.db) {n id : Nat} {p : Process}
    (hp : w.procs.find n = some p) (hid : id < w.db.taskRunAttempts.next)
    (hr : ¬ Receives n o) (hprints : ¬ Prints id o) (h : Performs cond t o w r w')
    {notes : TaskRunAttemptOutputStream → List String}
    {inHand : TaskRunAttemptOutputStream → String} (hw : Tracked notes inHand n id w) :
    Tracked notes inHand n id w' := by
  intro p' x' hp' hx' stream
  obtain ⟨x, hx, -⟩ := attemptStatus_performs h hid hx'
  rw [process_fate h hp] at hp'
  cases hp'
  rw [recorded_performs hrows h hx hx', printed_eq_nil hprints, List.append_nil]
  have hpid : p.id = n := Table.key_of_find hp
  refine (hw p x hp hx stream).congr ?_ (p.after_delivered w o)
  rcases p.after_chunks w o with heq | ⟨hreceives, -⟩
  · exact heq
  · exact absurd (hpid ▸ hreceives) hr

/-- An attempt that is there after a step was there before it, or is a new one. -/
theorem attempt_before (h : Performs cond t o w r w') {id : Nat}
    (hid : id < w.db.taskRunAttempts.next) {x' : TaskRunAttempt}
    (hx' : w'.db.taskRunAttempts.find id = some x') :
    ∃ x, w.db.taskRunAttempts.find id = some x ∧ x'.jobRunId = x.jobRunId := by
  rcases taskRunAttempt_origin h hx' with hx | ⟨i, now, -, -, rfl, -⟩ | ⟨x, hx, f, i, -, -, -, rfl⟩
  · exact ⟨x', hx, rfl⟩
  · exact absurd hid (lt_irrefl _)
  · exact ⟨x, hx, rfl⟩

theorem rowsOfRuns_performs (hat : Attended cond) (hi : Logged w)
    (hpre : (outputs lib).pre t o w) (h : Performs cond t o w r w') : RowsOfRuns w'.db := by
  have hbefore : ∀ y ∈ w.db.taskRunAttemptOutputs.rows, ∀ x',
      w'.db.taskRunAttempts.find y.taskRunAttemptId = some x' → y.jobRunId = x'.jobRunId := by
    intro y hy x' hx'
    obtain ⟨n, p, hp, hpid⟩ := hi.process y hy
    have hid := process_attempt hat.spawns hat.custody h hp
    obtain ⟨x, hx, hrun⟩ := attempt_before h (hpid ▸ hid) hx'
    rw [hrun]
    exact hi.runs y hy x hx
  intro y hy x' hx'
  rcases outputs_cases h with ⟨heq, -⟩ | ⟨i, now, rfl, -, heq, hsame⟩ | ⟨ids, heq, -⟩
  · exact hbefore y (heq ▸ hy) x' hx'
  · rw [heq] at hy
    rcases Table.mem_insert.mp hy with hy | rfl
    · exact hbefore y hy x' hx'
    · rw [hsame] at hx'
      exact hpre.2 x' hx'
  · refine hbefore y ?_ x' hx'
    rw [heq] at hy
    exact (Table.mem_delete.mp hy).1

theorem ownLines_exist (status : TaskRunAttemptStatus) : ∃ notes, OwnLines status notes := by
  by_cases h : status = .timedOut
  · subst h
    let child : TaskRunAttemptChild :=
      { process := 0, timesOutAt := 0, idleTimeout := none, terminating := none }
    exact ⟨Function.update noLines .stderr [TaskRunAttemptMonitor.timeoutNote child 0], rfl, child,
      0, rfl⟩
  · exact ⟨noLines, ownLines_none h⟩

/-- Nobody reads from a process whose child the monitor does not have, or writes for it. -/
theorem unattended (hc : Custody w) (hpre : (outputs lib).pre t o w) {n : Nat} {p : Process}
    (hp : w.procs.find n = some p) (hholder : ¬ Attending n p.taskRunAttemptId w) :
    ¬ Receives n o ∧ ¬ Prints p.taskRunAttemptId o := by
  constructor
  · rintro (rfl | rfl)
    all_goals
      obtain ⟨id, hat, q, hq, hqid, hqm⟩ := hpre
      cases hp.symm.trans hq
      exact hholder (hqid ▸ ⟨hat, p, hp, hqid, hqm⟩)
  · rintro ⟨i, rfl, hid⟩
    obtain ⟨⟨m, hat, q, hq, hqid, hqm⟩, -⟩ := hpre
    have hmn := hc.unique m q n p hq hp (hqid.trans hid)
    subst hmn
    exact hholder (hid ▸ ⟨hat, q, hq, hqid, hqm⟩)

theorem logged_step (hat : Attended cond) (hi : Logged w) (hpre : (outputs lib).pre t o w)
    (h : Performs cond t o w r w') : Logged w' := by
  have hc := (custody_of hat.custody h).1
  -- what is tracked stays so, unless the monitor has the child
  have hkeep : ∀ {n p} {notes : TaskRunAttemptOutputStream → List String}
      {inHand : TaskRunAttemptOutputStream → String}, w.procs.find n = some p →
      ¬ Attending n p.taskRunAttemptId w → Tracked notes inHand n p.taskRunAttemptId w →
      Tracked notes inHand n p.taskRunAttemptId w' := by
    intro n p notes inHand hp hholder hw
    obtain ⟨hr, hprints⟩ := unattended hc hpre hp hholder
    exact tracked_kept hi.runs hp (process_attempt hat.spawns hat.custody h hp) hr hprints h hw
  have hread : ∀ n, ReadToEnd n w' → ∃ p, w.procs.find n = some p := by
    intro n hend
    rcases readToEnd_performs h hend with hend | ⟨-, p, hp, -⟩
    · exact hi.read n hend
    · exact ⟨p, hp⟩
  refine ⟨rowsOfRuns_performs hat hi hpre h, fun y hy => ?_, fun n hend => ?_,
    fun n p' hp' hend => ?_, fun n p' hp' hholder => ?_, fun id child hchild => ?_,
    fun n p' x' hp' hx' hreports => ?_⟩
  · have hbefore : ∀ y ∈ w.db.taskRunAttemptOutputs.rows, ∃ n p, w'.procs.find n = some p ∧
        p.taskRunAttemptId = y.taskRunAttemptId := by
      intro y hy
      obtain ⟨n, p, hp, hpid⟩ := hi.process y hy
      exact ⟨n, _, process_fate h hp, by simpa using hpid⟩
    rcases outputs_cases h with ⟨heq, -⟩ | ⟨i, now, rfl, -, heq, -⟩ | ⟨ids, heq, -⟩
    · exact hbefore y (heq ▸ hy)
    · rw [heq] at hy
      rcases Table.mem_insert.mp hy with hy | rfl
      · exact hbefore y hy
      · obtain ⟨⟨n, -, p, hp, hpid, -⟩, -⟩ := hpre
        exact ⟨n, _, process_fate h hp, (p.after_taskRunAttemptId w _).trans hpid⟩
    · rw [heq] at hy
      exact hbefore y (Table.mem_delete.mp hy).1
  · obtain ⟨p, hp⟩ := hread n hend
    exact ⟨_, process_fate h hp⟩
  · obtain ⟨p, hp⟩ := hread n hend
    rw [process_fate h hp] at hp'
    cases hp'
    rcases readToEnd_performs h hend with hend | ⟨rfl, q, hq, hclosed⟩
    · obtain ⟨hclosed, hempty⟩ := hi.ended n p hp hend
      refine ⟨Process.after_closed hclosed, ?_⟩
      rcases p.after_chunks w o with heq | ⟨-, heq⟩
      · rw [heq, hempty]
      · exact heq
    · cases hp.symm.trans hq
      have hpid : p.id = n := Table.key_of_find hp
      exact ⟨Process.after_closed hclosed, by simp [Process.after, hpid, Process.drain]⟩
  · rcases process_origin h hp' with ⟨a, command, startedAt, pid, rfl, -, hn, rfl⟩ | ⟨p, hp, rfl⟩
    · -- the first process of its attempt, of which there are no rows yet
      intro q x hq hx stream
      cases hp'.symm.trans hq
      have hnone : w'.db.recorded a stream = [] := by
        rw [Database.recorded, db_of_not_write h (by simp), List.map_eq_nil_iff,
          List.filter_eq_nil_iff]
        intro y hy hmine
        obtain ⟨m, q, hq, hqid⟩ := hi.process y hy
        have hmine : y.taskRunAttemptId = a := of_decide_eq_true (Bool.and_eq_true_iff.mp hmine).1
        have hspawned := hc.spawned m q hq
        have hfirst := (hat.spawns.1 _ _ _ _ _ h.2).2.1.1.1
        rw [hqid, hmine] at hspawned
        omega
      show Accounted (w'.db.recorded a stream) [] "" stream _
      rw [hnone]
      exact Accounted.fresh rfl rfl
    · rw [Process.after_taskRunAttemptId]
      have hbefore : p.holder = .dispatcher := by
        rw [Process.after_holder] at hholder
        split at hholder
        · split at hholder
          · cases hholder
          · exact hholder
        · split at hholder
          · cases hholder
          · exact hholder
        · exact hholder
      refine hkeep hp ?_ (hi.spawned n p hp hbefore)
      rintro ⟨-, q, hq, -, hqm⟩
      cases hp.symm.trans hq
      rw [hbefore] at hqm
      cases hqm
  · have hmap : ∀ id child, w.children id = some child → ∃ notes,
        OwnLines child.bound notes ∧ Tracked notes noText child.process id w' := by
      intro id child hchild
      obtain ⟨notes, hnotes, hw⟩ := hi.held id child hchild
      obtain ⟨p, hp, rfl, hpm⟩ := hc.process id child hchild
      refine ⟨notes, hnotes, hkeep hp ?_ hw⟩
      rintro ⟨-, q, hq, -, hqm⟩
      cases hp.symm.trans hq
      rw [hpm] at hqm
      cases hqm
    rcases children_cases h with ⟨a, child', rfl, heq⟩ | ⟨a, rfl, heq⟩ | ⟨-, -, heq⟩ <;>
      rw [heq] at hchild
    · by_cases hid : id = a
      · subst hid
        rw [Function.update_self] at hchild
        cases hchild
        obtain ⟨notes, hnotes, hw⟩ := hpre
        obtain ⟨p, hp, rfl, -⟩ := custody_pre_of hat.custody h
        refine ⟨notes, hnotes, tracked_kept hi.runs hp
          (process_attempt hat.spawns hat.custody h hp) ?_ ?_ h hw⟩
        · rintro (heq | heq) <;> cases heq
        · rintro ⟨i, heq, -⟩
          cases heq
      · rw [Function.update_of_ne hid] at hchild
        exact hmap id child hchild
    · by_cases hid : id = a
      · subst hid
        rw [Function.update_self] at hchild
        cases hchild
      · rw [Function.update_of_ne hid] at hchild
        exact hmap id child hchild
    · exact hmap id child hchild
  · rcases process_origin h hp' with ⟨a, command, startedAt, pid, rfl, -, rfl, rfl⟩ | ⟨p, hp, rfl⟩
    · obtain ⟨notes, hnotes⟩ := ownLines_exist x'.status
      refine ⟨notes, hnotes, fun hend => ?_⟩
      obtain ⟨q, hq⟩ := hread _ hend
      exact absurd (Table.lt_next_of_find hq) (lt_irrefl _)
    rw [Process.after_taskRunAttemptId] at hx' ⊢
    have hid := process_attempt hat.spawns hat.custody h hp
    obtain ⟨x, hx, heq | ⟨f, i, rfl, -, hf, hset⟩⟩ := attemptStatus_performs h hid hx'
    · -- it had settled before, and nobody reads for it any more
      have hover : ¬ Attending n p.taskRunAttemptId w := by
        rintro ⟨hrunning, -⟩
        have hrunning : x.status = .running := hrunning.2.2 x hx
        rw [heq, hrunning] at hreports
        rcases hreports with h | h | h | h <;> cases h
      obtain ⟨notes, hnotes, hw⟩ := hi.settled n p x hp hx (heq ▸ hreports)
      refine ⟨notes, heq ▸ hnotes, fun hend => hkeep hp hover (hw ?_)⟩
      rcases readToEnd_performs h hend with hend | ⟨hreceives, -⟩
      · exact hend
      · exact absurd (.inr hreceives) (unattended hc hpre hp hover).1
    · obtain ⟨id, hfid⟩ := updateTaskRunAttempts_id (allowed_of hat.base h)
      have hkey : x.id = p.taskRunAttemptId := Table.key_of_find hx
      have hpid := hkey.symm.trans (updateTaskRunAttemptsFilter_holds hfid hf)
      obtain ⟨notes, hnotes, hw⟩ := hpre x'.status id hset hreports hfid n p hp hpid
      refine ⟨notes, hnotes, fun hend => ?_⟩
      have hend : ReadToEnd n w := by
        rcases readToEnd_performs h hend with hend | ⟨heq, -⟩
        · exact hend
        · cases heq
      refine tracked_kept hi.runs hp hid ?_ ?_ h (hpid ▸ hw hend)
      · rintro (heq | heq) <;> cases heq
      · rintro ⟨j, heq, -⟩
        cases heq

end Steps

section Outside

variable {w w' : World} {kill : Tid → Bool} {e : External}

theorem tracked_happens (h : w.external e = some (w', kill)) (hcrash : e ≠ .crash)
    (hdb : w'.db = w.db) {n id : Nat} {notes : TaskRunAttemptOutputStream → List String}
    {inHand : TaskRunAttemptOutputStream → String} (hw : Tracked notes inHand n id w) :
    Tracked notes inHand n id w' := by
  intro p' x hp' hx stream
  rw [external_procs h] at hp'
  obtain ⟨p, hp, rfl⟩ := Option.map_eq_some_iff.mp hp'
  rw [hdb] at hx ⊢
  have hbefore := hw p x hp hx stream
  rcases p.afterExternal_chunks hcrash with ⟨hchunks, hdelivered⟩ | ⟨chunk, hchunks, hdelivered⟩
  · exact hbefore.congr hchunks hdelivered
  · exact hbefore.deliver chunk hchunks hdelivered

theorem logged_happens (hi : Logged w) (h : Happens cond w w' kill) : Logged w' := by
  have hdb := happens_db h
  have hread : ∀ {n}, ReadToEnd n w' ↔ ReadToEnd n w := by
    intro n
    rw [ReadToEnd, ReadToEnd, log_happens h]
  obtain ⟨e, he, -, hprocs⟩ := process_happens h
  have horigin : ∀ {n p'}, w'.procs.find n = some p' →
      ∃ p, w.procs.find n = some p ∧ p' = p.afterExternal e := by
    intro n p' hp'
    rw [hprocs] at hp'
    obtain ⟨p, hp, rfl⟩ := Option.map_eq_some_iff.mp hp'
    exact ⟨p, hp, rfl⟩
  refine ⟨by rw [hdb]; exact hi.runs, fun y hy => ?_, fun n hend => ?_, fun n p' hp' hend => ?_,
    fun n p' hp' hholder => ?_, fun id child hchild => ?_, fun n p' x hp' hx hreports => ?_⟩
  · obtain ⟨n, p, hp, hpid⟩ := hi.process y (hdb ▸ hy)
    exact ⟨n, p.afterExternal e, by rw [hprocs, hp]; rfl, by simpa using hpid⟩
  · obtain ⟨p, hp⟩ := hi.read n (hread.mp hend)
    exact ⟨p.afterExternal e, by rw [hprocs, hp]; rfl⟩
  · obtain ⟨p, hp, rfl⟩ := horigin hp'
    obtain ⟨hclosed, hempty⟩ := hi.ended n p hp (hread.mp hend)
    obtain ⟨hclosed', -, heq | heq⟩ := external_closed he hp hclosed
    · exact ⟨hclosed', heq.trans hempty⟩
    · exact ⟨hclosed', heq⟩
  · obtain ⟨p, hp, rfl⟩ := horigin hp'
    rw [Process.afterExternal_holder] at hholder
    rw [Process.afterExternal_taskRunAttemptId]
    split at hholder
    · cases hholder
    · rename_i hcrash
      exact tracked_happens he hcrash hdb (hi.spawned n p hp hholder)
  · rcases external_children he with ⟨-, heq⟩ | ⟨hcrash, heq⟩ <;> rw [heq] at hchild
    · cases hchild
    · obtain ⟨notes, hnotes, hw⟩ := hi.held id child hchild
      exact ⟨notes, hnotes, tracked_happens he hcrash hdb hw⟩
  · obtain ⟨p, hp, rfl⟩ := horigin hp'
    rw [Process.afterExternal_taskRunAttemptId] at hx ⊢
    obtain ⟨notes, hnotes, hw⟩ := hi.settled n p x hp (hdb ▸ hx) hreports
    refine ⟨notes, hnotes, fun hend => ?_⟩
    have hend := hread.mp hend
    -- nothing was left to be received, and nothing more is delivered
    obtain ⟨hclosed, hempty⟩ := hi.ended n p hp hend
    obtain ⟨-, hdelivered, heq⟩ := external_closed he hp hclosed
    intro q y hq hy stream
    rw [hprocs, hp] at hq
    cases hq
    rw [hdb] at hy ⊢
    refine (hw hend p y hp hy stream).congr ?_ hdelivered
    rcases heq with heq | heq
    · exact heq
    · exact heq.trans hempty.symm

theorem logged_fresh : Logged .fresh where
  runs _ h := absurd h List.not_mem_nil
  process _ h := absurd h List.not_mem_nil
  read _ h := nomatch h
  ended _ _ h := nomatch h
  spawned _ _ h := nomatch h
  held _ _ h := nomatch h
  settled _ _ _ h := nomatch h

end Outside

end Flowlite

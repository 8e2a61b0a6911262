import Flowlite.Logic.Books
import Flowlite.Logic.Retries

/-!
# What a retry reads

The rows of an attempt, one after another, are what a retry is handed as its log. They
are told by pass: each drain of the channel leaves what it took on stdout and then what it
took on stderr. `Scribed` says so of one attempt, and `Transcribed` where it holds: while
nothing has been decided about a command, and once its attempt has failed.
-/

namespace Flowlite

open Store Host Threads Crud Machine Outline

variable {lib : Library} {cond : (flowlite lib).Condition} {O : Outline (flowlite lib)}

/-! ## Chunks as text -/

/-- The chunks as they were delivered. -/
def text (chunks : List TaskRunAttemptOutputChunk) : String :=
  String.join (chunks.map (·.content))

/-- The chunks as one pass records them: stdout, then stderr. -/
def asRecorded (chunks : List TaskRunAttemptOutputChunk) : String :=
  streamContent .stdout chunks ++ streamContent .stderr chunks

theorem text_append (xs ys : List TaskRunAttemptOutputChunk) :
    text (xs ++ ys) = text xs ++ text ys := by
  simp [text]

theorem text_flatten (passes : List (List TaskRunAttemptOutputChunk)) :
    text passes.flatten = String.join (passes.map text) := by
  induction passes with
  | nil => rfl
  | cons pass rest ih =>
      rw [List.flatten_cons, text_append, ih, List.map_cons, String.join_cons]

/-- Recording moves chunks, and neither adds nor drops any. -/
theorem length_asRecorded (chunks : List TaskRunAttemptOutputChunk) :
    (asRecorded chunks).length = (text chunks).length := by
  induction chunks with
  | nil => rfl
  | cons c rest ih =>
      simp only [asRecorded, text, streamContent, List.map_cons, String.join_cons,
        String.length_append] at ih ⊢
      cases c.stream with
      | stdout =>
          rw [if_pos rfl, if_neg (by simp), String.length_empty]
          omega
      | stderr =>
          rw [if_neg (by simp), if_pos rfl, String.length_empty]
          omega

/-- Where two texts agree, so do their parts, if they are as long. -/
theorem append_inj {a b c d : String} (hlen : a.length = b.length) (h : a ++ c = b ++ d) :
    a = b ∧ c = d := by
  have hlists : a.toList ++ c.toList = b.toList ++ d.toList := by
    rw [← String.toList_append, ← String.toList_append, h]
  obtain ⟨hfirst, hrest⟩ := List.append_inj hlists (by
    rw [String.length_toList, String.length_toList, hlen])
  exact ⟨String.toList_inj.mp hfirst, String.toList_inj.mp hrest⟩

/-- Texts that are as long, one by one, and the same together are the same. -/
theorem eq_of_join_eq {α : Type*} {f g : α → String} (hlen : ∀ x, (f x).length = (g x).length) :
    ∀ {xs : List α}, String.join (xs.map f) = String.join (xs.map g) → ∀ x ∈ xs, f x = g x
  | [], _, x, hx => absurd hx List.not_mem_nil
  | y :: rest, h, x, hx => by
      rw [List.map_cons, List.map_cons, String.join_cons, String.join_cons] at h
      obtain ⟨hfirst, hrest⟩ := append_inj (hlen y) h
      rcases List.mem_cons.mp hx with rfl | hx
      · exact hfirst
      · exact eq_of_join_eq hlen hrest x hx

/-- The passes together read as the chunks were delivered, whatever follows, only where
each of them does. -/
theorem reads_iff {passes : List (List TaskRunAttemptOutputChunk)} {note note' : String}
    (h : String.join (passes.map asRecorded) ++ note = text passes.flatten ++ note') :
    ∀ pass ∈ passes, asRecorded pass = text pass := by
  rw [text_flatten] at h
  have hlen : (String.join (passes.map asRecorded)).length =
      (String.join (passes.map text)).length := by
    simp only [String.length_join, List.map_map, Function.comp_def, length_asRecorded]
  exact eq_of_join_eq length_asRecorded (append_inj hlen h).1

theorem join_asRecorded {passes : List (List TaskRunAttemptOutputChunk)}
    (h : ∀ pass ∈ passes, asRecorded pass = text pass) :
    String.join (passes.map asRecorded) = text passes.flatten := by
  rw [text_flatten, List.map_congr_left h]

/-! ## Rows, and what was received -/

/-- The rows of an attempt, one after another. -/
def Store.Database.transcript (db : Database) (id : Nat) : String :=
  String.join (db.outputRows id fun _ => true)

/-- The query for an attempt's rows answers with them in the order they were written. -/
theorem Store.Database.join_selectTaskRunAttemptOutputs (db : Database) (id : Nat) :
    String.join ((db.selectTaskRunAttemptOutputs { taskRunAttemptId := some id }).map
      (·.content)) = db.transcript id := by
  unfold Database.transcript Database.outputRows Database.selectTaskRunAttemptOutputs
  congr 3
  funext r
  simp [SelectTaskRunAttemptOutputsFilter.holds, clause]

/-- The chunks this event took out of the channel of the process. -/
def Host.Event.received (n : Nat) (e : Host.Event) : Option (List TaskRunAttemptOutputChunk) :=
  match e with
  | ⟨_, .tryRecvAll m, .ok chunks⟩ => if m = n then some chunks else none
  | ⟨_, .recvUntilClosed m, .ok (chunks, _)⟩ => if m = n then some chunks else none
  | _ => none

/-- What was taken out of the channel of the process, drain by drain. -/
def Host.World.received (w : World) (n : Nat) : List (List TaskRunAttemptOutputChunk) :=
  (w.log.filterMap (·.received n)).reverse

/-- What flowlite itself adds to an attempt that fails once its command has ended so: why
the result of a command that exited zero was refused. -/
def Noted (status : ExitStatus) (note : String) : Prop :=
  if status.success = true then Rejection note else note = ""

/-- The attempt's rows, and what is still to be written of what was received, are what was
received, pass by pass, and a note. -/
def Scribed (note rest : String) (n id : Nat) (w : World) : Prop :=
  ∀ x, w.db.taskRunAttempts.find id = some x →
    w.db.transcript id ++ rest = String.join ((w.received n).map asRecorded) ++ note

/-- The attempt's command has ended, and its rows say what it printed and why it failed. -/
def Told (id : Nat) (w : World) : Prop :=
  ∃ n p status note, w.procs.find n = some p ∧ p.taskRunAttemptId = id ∧
    p.exited = some status ∧ Noted status note ∧ Scribed note "" n id w

/-- Where the rows are known, and what was received of a process. -/
structure Transcribed (w : World) : Prop where
  spawned : ∀ n p, w.procs.find n = some p → p.holder = .dispatcher →
    Scribed "" "" n p.taskRunAttemptId w
  held : ∀ id child, w.children id = some child → child.terminating = none →
    Scribed "" "" child.process id w
  failed : ∀ x ∈ w.db.taskRunAttempts.rows, x.status = .failed → Told x.id w
  unspawned : ∀ n, w.procs.find n = none → w.received n = []
  taken : ∀ n p, w.procs.find n = some p → p.holder ≠ .nobody →
    (w.received n).flatten ++ p.chunks = p.delivered
  inOrder : ∀ n p, w.procs.find n = some p → (w.received n).flatten <+: p.delivered

/-- The attempt's row is this one, and is there as long as its run is. -/
def RowStays (a : TaskRunAttempt) (w : World) : Prop :=
  Known a w ∧ AttemptStays a w

theorem rowStays_permanent (a : TaskRunAttempt) : Permanent cond (RowStays a) :=
  (known_permanent a).and (attemptStays_permanent a)

/-- A query was answered with this row. -/
def Seen (a : TaskRunAttempt) (log : List Host.Event) : Prop :=
  ∃ t f s rows, ⟨t, .select (.taskRunAttempts f s), .ok rows⟩ ∈ log ∧ a ∈ rows

/-- Every attempt that was read stays. -/
def SeenStays (w : World) : Prop := ∀ a, Seen a w.log → RowStays a w

/-- The attempt is the one before, of the same task run. -/
structure Precedes (previous next : TaskRunAttempt) : Prop where
  run : previous.jobRunId = next.jobRunId
  taskRun : previous.taskRunId = next.taskRunId
  number : previous.attempt + 1 = next.attempt

/-- The last thing the dispatcher did was to read these rows of the attempt; what had
happened before that is `before`. -/
def JustRead (id : Nat) (rows : List TaskRunAttemptOutput) (before : List Host.Event)
    (w : World) : Prop :=
  ∃ since, w.log = since ++ ⟨.service .taskRunAttemptDispatcher,
      .select (.taskRunAttemptOutputs { taskRunAttemptId := some id }), .ok rows⟩ :: before ∧
    ∀ e ∈ since, e.thread ≠ .service .taskRunAttemptDispatcher

/-- The same of the rows of `previous`, both attempts having been read by then. -/
def ReadsBack (previous next : TaskRunAttempt) (rows : List TaskRunAttemptOutput) (w : World) :
    Prop :=
  ∃ before, (Seen previous before ∧ Seen next before) ∧ JustRead previous.id rows before w

/-- The file is the rows of the attempt before one that is queued, in their run's
directory. -/
def HandsLog (path content : String) (w : World) : Prop :=
  ∃ (canonical : String) (previous next : TaskRunAttempt) (rows : List TaskRunAttemptOutput),
    (Resolved canonical w ∧
      path = taskLogPath (runDirIn canonical next.jobRunId) next.taskId previous.attempt) ∧
    Precedes previous next ∧ ReadsBack previous next rows w ∧
    content = String.join (rows.map (·.content)) ∧
    AttemptAt (.service .taskRunAttemptDispatcher) next.id w

/-- A child goes back, and an attempt fails, with its rows told; the dispatcher writes no
file but the log of a failed attempt. -/
def transcripts (lib : Library) : Outline (flowlite lib) where
  inv w := Transcribed w ∧ (retries lib).inv w ∧ ReleasedFirst w ∧ SeenStays w
  pre t o w :=
    match o with
    | .childrenInsert id child => child.terminating = none → Scribed "" "" child.process id w
    | .write (.updateTaskRunAttempts f i) =>
        i.status = some .failed → ∀ id, f.id = some id → Told id w
    | .writeFile path content =>
        t = .service .taskRunAttemptDispatcher → HandsLog path content w
    | _ => True
  idle _ _ := True

/-- The attempt before another one of its task run has failed. -/
theorem failed_of_precedes {w : World} {previous next : TaskRunAttempt}
    (hi : (transcripts lib).inv w) (hprevious : previous ∈ w.db.taskRunAttempts.rows)
    (hnext : next ∈ w.db.taskRunAttempts.rows)
    (h : Precedes previous next) : previous.status = .failed := by
  obtain ⟨-, ⟨hlinked, hretried⟩, -⟩ := hi
  obtain ⟨x, hx⟩ := Option.isSome_iff_exists.mp (hlinked.taskRun_of_attempt next hnext)
  have hkey : x.id = next.taskRunId := Table.key_of_find hx
  obtain ⟨k, hk⟩ := hretried x (Table.mem_of_find hx)
  have hle := (hk.numbered.within next (mem_attemptsOf.mpr ⟨hnext, hkey.symm⟩)).2
  have hnumber := h.number
  exact hk.numbered.failed previous
    (mem_attemptsOf.mpr ⟨hprevious, by rw [h.taskRun, hkey]⟩) (by omega)

/-- The command of the attempt has ended, and has delivered these chunks first. -/
def HasDelivered (n id : Nat) (exit : ExitStatus) (chunks : List TaskRunAttemptOutputChunk)
    (w : World) : Prop :=
  ∃ p, w.procs.find n = some p ∧ p.taskRunAttemptId = id ∧ p.exited = some exit ∧
    chunks <+: p.delivered

theorem hasDelivered_permanent (n id : Nat) (exit : ExitStatus)
    (chunks : List TaskRunAttemptOutputChunk) : Permanent cond (HasDelivered n id exit chunks) where
  performs := by
    rintro _ _ _ _ _ h ⟨p, hp, hid, hexited, hfirst⟩
    exact ⟨_, process_fate h hp, (p.after_taskRunAttemptId _ _).trans hid,
      Process.after_exited hexited, by rwa [Process.after_delivered]⟩
  happens := by
    rintro _ _ _ h ⟨p, hp, hid, hexited, hfirst⟩
    obtain ⟨e, -, -, hprocs⟩ := process_happens h
    exact ⟨p.afterExternal e, by rw [hprocs, hp]; rfl,
      (p.afterExternal_taskRunAttemptId e).trans hid, Process.afterExternal_exited hexited,
      hfirst.trans (p.delivered_afterExternal e)⟩

/-! ## One step -/

section Steps

variable {t : Tid} {o : Op} {w w' : World} {r : Result o}

theorem received_eq_none {n : Nat} (h : ¬ Receives n o) :
    (Host.Event.mk t o r).received n = none := by
  unfold Host.Event.received
  split
  · rename_i m chunks heq
    cases heq
    exact if_neg fun hm => h (.inl (by rw [hm]))
  · rename_i m chunks closed heq
    cases heq
    exact if_neg fun hm => h (.inr (by rw [hm]))
  · rfl

theorem received_kept {n : Nat} (hr : ¬ Receives n o) (h : Performs cond t o w r w') :
    w'.received n = w.received n := by
  unfold Host.World.received
  rw [log_performs h, List.filterMap_cons_none (received_eq_none hr)]

/-- A drain takes what is in the channel. -/
theorem received_drain {n : Nat} (hr : Receives n o) (h : Performs cond t o w r w') :
    ∃ p, w.procs.find n = some p ∧ w'.received n = w.received n ++ [p.chunks] := by
  unfold Host.World.received
  rw [log_performs h]
  rcases hr with rfl | rfl
  · obtain ⟨chunks, rfl⟩ := Infallible.succeeds (by trivial) h
    obtain ⟨p, hp, rfl⟩ := tryRecvAll_answer h
    refine ⟨p, hp, ?_⟩
    rw [List.filterMap_cons_some (by exact if_pos rfl), List.reverse_cons]
  · obtain ⟨⟨chunks, closed⟩, rfl⟩ := Infallible.succeeds (by trivial) h
    obtain ⟨p, hp, rfl, -⟩ := recvUntilClosed_answer h
    refine ⟨p, hp, ?_⟩
    rw [List.filterMap_cons_some (by exact if_pos rfl), List.reverse_cons]

theorem transcript_kept (hrows : RowsOfRuns w.db) {id : Nat} {x x' : TaskRunAttempt}
    (hx : w.db.taskRunAttempts.find id = some x) (hx' : w'.db.taskRunAttempts.find id = some x')
    (hprints : ¬ Prints id o) (h : Performs cond t o w r w') :
    w'.db.transcript id = w.db.transcript id := by
  unfold Database.transcript
  rw [outputRows_performs hrows h hx hx', added_eq_nil hprints, List.append_nil]

/-- What is told of an attempt nobody reads for or writes for stays so. -/
theorem scribed_kept (hrows : RowsOfRuns w.db) {note rest : String} {n id : Nat}
    (hid : id < w.db.taskRunAttempts.next) (hr : ¬ Receives n o) (hprints : ¬ Prints id o)
    (h : Performs cond t o w r w') (hw : Scribed note rest n id w) :
    Scribed note rest n id w' := by
  intro x' hx'
  obtain ⟨x, hx, -⟩ := attempt_before h hid hx'
  rw [transcript_kept hrows hx hx' hprints h, received_kept hr h]
  exact hw x hx

/-- What the monitor asks of a step it is not behind. -/
theorem unattended_of (hat : Attended cond) (ho : cond.Le (outputs lib).established)
    (h : Performs cond t o w r w') {n : Nat} {p : Process} (hp : w.procs.find n = some p)
    (hholder : ¬ Attending n p.taskRunAttemptId w) :
    ¬ Receives n o ∧ ¬ Prints p.taskRunAttemptId o :=
  unattended (custody_of hat.custody h).1 (ho.1 _ _ _ _ _ h.2).2.1 hp hholder

/-- The monitor attends no attempt that has failed. -/
theorem not_attending_of_failed {n : Nat} {x : TaskRunAttempt}
    (hx : w.db.taskRunAttempts.find x.id = some x) (hfailed : x.status = .failed) :
    ¬ Attending n x.id w := by
  rintro ⟨⟨-, -, hfrom⟩, -⟩
  have hrunning : x.status = .running := hfrom x hx
  rw [hfailed] at hrunning
  cases hrunning

theorem logged_of (ho : cond.Le (outputs lib).established) (h : Performs cond t o w r w') :
    Logged w := (ho.1 _ _ _ _ _ h.2).1

/-- What has been told of an attempt stays so, as long as its monitor is not at it. -/
theorem told_kept (hat : Attended cond) (ho : cond.Le (outputs lib).established)
    (h : Performs cond t o w r w') {id : Nat} (hnot : ∀ n, ¬ Attending n id w ∨ ¬ Receives n o ∧
      ¬ Prints id o) (hw : Told id w) : Told id w' := by
  obtain ⟨n, p, status, note, hp, rfl, hexited, hnote, hscribed⟩ := hw
  have hid := process_attempt hat.spawns hat.custody h hp
  have hnone : ¬ Receives n o ∧ ¬ Prints p.taskRunAttemptId o := by
    rcases hnot n with hnot | hnot
    · exact unattended_of hat ho h hp hnot
    · exact hnot
  exact ⟨n, _, status, note, process_fate h hp, p.after_taskRunAttemptId w o,
    Process.after_exited hexited, hnote,
    scribed_kept (logged_of ho h).runs hid hnone.1 hnone.2 h hscribed⟩

/-- What was received, and what is in the channel, of a process that is there. -/
theorem received_chunks {n : Nat} {p : Process} (hp : w.procs.find n = some p)
    (h : Performs cond t o w r w') :
    (w'.received n).flatten ++ (p.after w o).chunks = (w.received n).flatten ++ p.chunks := by
  have hpid : p.id = n := Table.key_of_find hp
  by_cases hr : Receives n o
  · obtain ⟨q, hq, hdrain⟩ := received_drain hr h
    cases hp.symm.trans hq
    have hempty : (p.after w o).chunks = [] := by
      rcases hr with rfl | rfl <;> simp [Process.after, hpid, Process.drain]
    rw [hdrain, hempty, List.append_nil, List.flatten_append, List.flatten_singleton]
  · rw [received_kept hr h]
    rcases p.after_chunks w o with heq | ⟨hreceives, -⟩
    · rw [heq]
    · exact absurd (hpid ▸ hreceives) hr

/-- A child somebody has after a step was not lost before it. -/
theorem held_before (hat : Attended cond) (h : Performs cond t o w r w') {n : Nat} {p : Process}
    (hp : w.procs.find n = some p) (hholder : (p.after w o).holder ≠ .nobody) :
    p.holder ≠ .nobody := by
  have hpid : p.id = n := Table.key_of_find hp
  rw [Process.after_holder] at hholder
  split at hholder
  · split at hholder
    · rename_i child heq
      obtain ⟨q, hq, -, hqm⟩ := custody_pre_of hat.custody h
      rw [← heq, hpid] at hq
      cases hp.symm.trans hq
      rw [hqm]
      rcases (allowed_of hat.base h).2 with rfl | rfl <;> nofun
    · exact hholder
  · split at hholder
    · rename_i a hany
      obtain ⟨child, hchild, hsame⟩ := (Option.any_eq_true _ _).mp hany
      obtain ⟨q, hq, -, hqm⟩ := (custody_of hat.custody h).1.process a child hchild
      rw [← of_decide_eq_true hsame, hpid] at hq
      cases hp.symm.trans hq
      rw [hqm]
      nofun
    · exact hholder
  · exact hholder

/-- What is received is what was delivered first: only the monitor receives, and it has the
child then. -/
theorem inOrder_performs (ho : cond.Le (outputs lib).established) (hi : Transcribed w)
    (h : Performs cond t o w r w') {n : Nat} {p : Process} (hp : w.procs.find n = some p) :
    (w'.received n).flatten <+: p.delivered := by
  by_cases hr : Receives n o
  · have hholder : p.holder = .monitor := by
      rcases hr with rfl | rfl
      all_goals
        obtain ⟨id, -, q, hq, -, hholder⟩ := (ho.1 _ _ _ _ _ h.2).2.1
        cases hp.symm.trans hq
        exact hholder
    have hsum := hi.taken n p hp (by rw [hholder]; nofun)
    rw [← hsum, ← received_chunks hp h]
    exact List.prefix_append _ _
  · rw [received_kept hr h]
    exact hi.inOrder n p hp

/-- An attempt that has failed after a step had failed before, or fails in it. -/
theorem failed_before (hb : cond.Le (base lib).established) (h : Performs cond t o w r w')
    {x' : TaskRunAttempt} (hx' : x' ∈ w'.db.taskRunAttempts.rows) (hfailed : x'.status = .failed) :
    (∃ x ∈ w.db.taskRunAttempts.rows, x.id = x'.id ∧ x.status = .failed) ∨
      ∃ f i, o = .write (.updateTaskRunAttempts f i) ∧ i.status = some .failed ∧
        f.id = some x'.id := by
  rcases taskRunAttempt_origin h (Table.find_of_mem hx') with hx | ⟨i, now, rfl, -, -, -, -, -, hnew⟩ |
    ⟨x, hx, f, i, rfl, -, hf, hnew⟩
  · exact .inl ⟨x', Table.mem_of_find hx, rfl, hfailed⟩
  · -- an attempt is queued when it is added
    cases allowed_of hb h with
    | addAttempt hqueued =>
        rw [hnew] at hfailed
        simp [InsertTaskRunAttemptInput.draft, hqueued] at hfailed
  · have hkey : x.id = x'.id := Table.key_of_find hx
    cases hset : i.status with
    | none =>
        refine .inl ⟨x, Table.mem_of_find hx, hkey, ?_⟩
        rw [hnew] at hfailed
        simpa [UpdateTaskRunAttemptsInput.patch, hset] using hfailed
    | some status =>
        have hstatus : status = .failed := by
          rw [hnew] at hfailed
          simpa [UpdateTaskRunAttemptsInput.patch, hset] using hfailed
        obtain ⟨id, hid⟩ := updateTaskRunAttempts_id (allowed_of hb h)
        have hxid := updateTaskRunAttemptsFilter_holds hid hf
        exact .inr ⟨f, i, rfl, by rw [hset, hstatus], by rw [hid, ← hxid, hkey]⟩

/-- A process that has just been spawned has nothing to its attempt's name. -/
theorem scribed_spawn (hat : Attended cond) (ho : cond.Le (outputs lib).established)
    (hi : Transcribed w) {a : Nat} {command : Command} {startedAt : Instant}
    {r : Result (.spawn a command startedAt)}
    (h : Performs cond t (.spawn a command startedAt) w r w') :
    Scribed "" "" w.procs.next a w' := by
  intro x hx
  have hnone : w'.db.outputRows a (fun _ => true) = [] := by
    rw [Database.outputRows, db_of_not_write h (by simp), List.map_eq_nil_iff,
      List.filter_eq_nil_iff]
    intro y hy hmine
    obtain ⟨m, q, hq, hqid⟩ := (logged_of ho h).process y hy
    have hmine : y.taskRunAttemptId = a := of_decide_eq_true (Bool.and_eq_true_iff.mp hmine).1
    have hspawned := (custody_of hat.custody h).1.spawned m q hq
    have hfirst := (hat.spawns.1 _ _ _ _ _ h.2).2.1.1.1
    rw [hqid, hmine] at hspawned
    omega
  rw [Database.transcript, hnone, received_kept (by rintro (heq | heq) <;> cases heq) h,
    hi.unspawned _ (Table.find_eq_none_of_le le_rfl)]
  rfl

theorem transcribed_step (hat : Attended cond) (ho : cond.Le (outputs lib).established)
    (hi : Transcribed w) (hpre : (transcripts lib).pre t o w) (h : Performs cond t o w r w') :
    Transcribed w' := by
  have hc := (custody_of hat.custody h).1
  have hrows := (logged_of ho h).runs
  -- what is told of a process whose child the monitor does not have stays so
  have hkeep : ∀ {n p}, w.procs.find n = some p → p.holder ≠ .monitor →
      Scribed "" "" n p.taskRunAttemptId w → Scribed "" "" n p.taskRunAttemptId w' := by
    intro n p hp hholder hw
    obtain ⟨hr, hprints⟩ := unattended_of hat ho h hp (by
      rintro ⟨-, q, hq, -, hqm⟩
      cases hp.symm.trans hq
      exact hholder hqm)
    exact scribed_kept hrows (process_attempt hat.spawns hat.custody h hp) hr hprints h hw
  refine ⟨fun n p' hp' hholder => ?_, fun id child hchild hnone => ?_, fun x' hx' hfailed => ?_,
    fun n hn => ?_, fun n p' hp' hholder => ?_, fun n p' hp' => ?_⟩
  · rcases process_origin h hp' with ⟨a, command, startedAt, pid, rfl, -, rfl, rfl⟩ | ⟨p, hp, rfl⟩
    · exact scribed_spawn hat ho hi h
    · rw [Process.after_taskRunAttemptId]
      have hbefore : p.holder = .dispatcher := by
        rw [Process.after_holder] at hholder
        split at hholder
        · split at hholder
          · cases hholder
          · exact hholder
        · split at hholder
          · cases hholder
          · exact hholder
        · exact hholder
      exact hkeep hp (by rw [hbefore]; nofun) (hi.spawned n p hp hbefore)
  · have hmap : ∀ id child, w.children id = some child → child.terminating = none →
        Scribed "" "" child.process id w' := by
      intro id child hchild hnone
      obtain ⟨p, hp, rfl, hpm⟩ := hc.process id child hchild
      exact hkeep hp (by rw [hpm]; nofun) (hi.held _ child hchild hnone)
    rcases children_cases h with ⟨a, child', rfl, heq⟩ | ⟨a, rfl, heq⟩ | ⟨-, -, heq⟩ <;>
      rw [heq] at hchild
    · by_cases hid : id = a
      · subst hid
        rw [Function.update_self] at hchild
        cases hchild
        obtain ⟨p, hp, rfl, -⟩ := custody_pre_of hat.custody h
        refine scribed_kept hrows (process_attempt hat.spawns hat.custody h hp) ?_ ?_ h
          (hpre hnone)
        · rintro (heq | heq) <;> cases heq
        · rintro ⟨i, heq, -⟩
          cases heq
      · rw [Function.update_of_ne hid] at hchild
        exact hmap id child hchild hnone
    · by_cases hid : id = a
      · subst hid
        rw [Function.update_self] at hchild
        cases hchild
      · rw [Function.update_of_ne hid] at hchild
        exact hmap id child hchild hnone
    · exact hmap id child hchild hnone
  · rcases failed_before hat.base h hx' hfailed with ⟨x, hx, hid, hbefore⟩ | ⟨f, i, rfl, hset, hf⟩
    · have hfind := Table.find_of_mem hx
      rw [← hid]
      exact told_kept hat ho h (fun n => .inl (not_attending_of_failed hfind hbefore))
        (hi.failed x hx hbefore)
    · refine told_kept hat ho h (fun n => .inr ⟨?_, ?_⟩) (hpre hset _ hf)
      · rintro (heq | heq) <;> cases heq
      · rintro ⟨j, heq, -⟩
        cases heq
  · have hbefore : w.procs.find n = none := by
      cases hfind : w.procs.find n with
      | none => rfl
      | some p =>
          rw [process_fate h hfind] at hn
          cases hn
    rw [received_kept (fun hr => ?_) h, hi.unspawned n hbefore]
    obtain ⟨p, hp, -⟩ := received_drain hr h
    rw [hbefore] at hp
    cases hp
  · rcases process_origin h hp' with ⟨a, command, startedAt, pid, rfl, -, rfl, rfl⟩ | ⟨p, hp, rfl⟩
    · rw [received_kept (by rintro (heq | heq) <;> cases heq) h, hi.unspawned _ (Table.find_eq_none_of_le le_rfl)]
      rfl
    · rw [received_chunks hp h, Process.after_delivered]
      exact hi.taken n p hp (held_before hat h hp hholder)
  · rcases process_origin h hp' with ⟨a, command, startedAt, pid, rfl, -, rfl, rfl⟩ | ⟨p, hp, rfl⟩
    · rw [received_kept (by rintro (heq | heq) <;> cases heq) h,
        hi.unspawned _ (Table.find_eq_none_of_le le_rfl)]
      exact List.nil_prefix
    · rw [Process.after_delivered]
      exact inOrder_performs ho hi h hp

/-- What is read of an attempt is its row, and rows stay. -/
theorem seenStays_step (hlinked : Linked w.db) (hi : SeenStays w) (h : Performs cond t o w r w') :
    SeenStays w' := by
  rintro a ⟨u, f, s, rows, hmem, ha⟩
  refine (rowStays_permanent a).performs h ?_
  rw [log_performs h] at hmem
  rcases List.mem_cons.mp hmem with heq | hold
  · cases heq
    rcases select_cases h with ⟨e, he⟩ | hrows
    · cases he
    · cases hrows
      obtain ⟨hfind, -⟩ := Database.mem_selectTaskRunAttempts.mp ha
      exact ⟨known_of_find hfind, attemptStays_of_find hlinked hfind⟩
  · exact hi a ⟨u, f, s, rows, hold, ha⟩

end Steps

section Outside

variable {w w' : World} {kill : Tid → Bool}

theorem received_happens (h : Happens cond w w' kill) (n : Nat) :
    w'.received n = w.received n := by
  unfold Host.World.received
  rw [log_happens h]

theorem scribed_happens (h : Happens cond w w' kill) {note rest : String} {n id : Nat}
    (hw : Scribed note rest n id w) : Scribed note rest n id w' := by
  unfold Scribed at hw ⊢
  rwa [happens_db h, received_happens h]

theorem transcribed_happens (hi : Transcribed w) (h : Happens cond w w' kill) :
    Transcribed w' := by
  obtain ⟨e, he, -, hprocs⟩ := process_happens h
  have horigin : ∀ {n p'}, w'.procs.find n = some p' →
      ∃ p, w.procs.find n = some p ∧ p' = p.afterExternal e := by
    intro n p' hp'
    rw [hprocs] at hp'
    obtain ⟨p, hp, rfl⟩ := Option.map_eq_some_iff.mp hp'
    exact ⟨p, hp, rfl⟩
  refine ⟨fun n p' hp' hholder => ?_, fun id child hchild hnone => ?_, fun x hx hfailed => ?_,
    fun n hn => ?_, fun n p' hp' hholder => ?_, fun n p' hp' => ?_⟩
  · obtain ⟨p, hp, rfl⟩ := horigin hp'
    rw [Process.afterExternal_holder] at hholder
    rw [Process.afterExternal_taskRunAttemptId]
    split at hholder
    · cases hholder
    · exact scribed_happens h (hi.spawned n p hp hholder)
  · rcases external_children he with ⟨-, heq⟩ | ⟨-, heq⟩ <;> rw [heq] at hchild
    · cases hchild
    · exact scribed_happens h (hi.held id child hchild hnone)
  · rw [happens_db h] at hx
    obtain ⟨n, p, status, note, hp, hpid, hexited, hnote, hscribed⟩ := hi.failed x hx hfailed
    exact ⟨n, p.afterExternal e, status, note, by rw [hprocs, hp]; rfl, by simpa using hpid,
      Process.afterExternal_exited hexited, hnote, scribed_happens h hscribed⟩
  · rw [received_happens h]
    refine hi.unspawned n ?_
    rw [hprocs] at hn
    exact Option.map_eq_none_iff.mp hn
  · obtain ⟨p, hp, rfl⟩ := horigin hp'
    rw [Process.afterExternal_holder] at hholder
    rw [received_happens h]
    split at hholder
    · exact absurd rfl hholder
    · rename_i hcrash
      have hbefore := hi.taken n p hp hholder
      rcases p.afterExternal_chunks hcrash with ⟨hchunks, hdelivered⟩ |
        ⟨chunk, hchunks, hdelivered⟩
      · rw [hchunks, hdelivered, hbefore]
      · rw [hchunks, hdelivered, ← hbefore, List.append_assoc]
  · obtain ⟨p, hp, rfl⟩ := horigin hp'
    rw [received_happens h]
    exact (hi.inOrder n p hp).trans (p.delivered_afterExternal e)

theorem seenStays_happens (hi : SeenStays w) (h : Happens cond w w' kill) : SeenStays w' := by
  intro a ha
  rw [log_happens h] at ha
  exact (rowStays_permanent a).happens h (hi a ha)

theorem seenStays_fresh : SeenStays .fresh := by
  rintro a ⟨t, f, s, rows, hmem, -⟩
  exact absurd hmem List.not_mem_nil

theorem transcribed_fresh : Transcribed .fresh where
  spawned _ _ h := nomatch h
  held _ _ h := nomatch h
  failed _ h := absurd h List.not_mem_nil
  unspawned _ _ := rfl
  taken _ _ h := nomatch h
  inOrder _ _ h := nomatch h

end Outside

end Flowlite

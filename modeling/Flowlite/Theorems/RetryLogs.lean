import Flowlite.Logic.RetryLogs
import Flowlite.Theorems.Replay

/-!
# The log a retry is handed

The file holds what each drain of the channel took, its stdout before its stderr, and then
flowlite's note. That is the order of delivery as long as no drain took a chunk of stdout
from behind one of stderr.
-/

namespace Flowlite

open Store Host Threads Crud Machine Outline Relation

variable {lib : Library} {cond : (flowlite lib).Condition}

/-- The path and the text of a file the dispatcher wrote. -/
def Host.Event.writesLog (e : Host.Event) : Option (String × String) :=
  match e with
  | ⟨.service .taskRunAttemptDispatcher, .writeFile path content, .ok _⟩ => some (path, content)
  | _ => none

theorem writesLog_eq {e : Host.Event} {path content : String}
    (h : e.writesLog = some (path, content)) :
    ∃ r, e = ⟨.service .taskRunAttemptDispatcher, .writeFile path content, .ok r⟩ := by
  unfold Host.Event.writesLog at h
  split at h
  · cases h
    exact ⟨_, rfl⟩
  · cases h

/-- The log is the chunks in the order they were delivered, and flowlite's note. -/
def LogInOrder (content note : String) (p : Process) : Prop :=
  content = text p.delivered ++ note

/-- Each of the drains took chunks that read the same with those of stdout in front, and they
left nothing. -/
def DrainedInOrder (drains : List (List TaskRunAttemptOutputChunk)) (p : Process) : Prop :=
  (∀ pass ∈ drains, asRecorded pass = text pass) ∧
    text (p.delivered.drop drains.flatten.length) = ""

/-- What the rows hold is in the order of delivery only where the drains were. -/
theorem logInOrder_iff {drains : List (List TaskRunAttemptOutputChunk)} {p : Process}
    {note : String} (hfirst : drains.flatten <+: p.delivered) :
    LogInOrder (String.join (drains.map asRecorded) ++ note) note p ↔ DrainedInOrder drains p := by
  obtain ⟨rest, hrest⟩ := hfirst
  unfold LogInOrder DrainedInOrder
  rw [← hrest, List.drop_left, text_append, String.append_assoc]
  constructor
  · intro h
    have hpasses := reads_iff h
    refine ⟨hpasses, ?_⟩
    rw [join_asRecorded hpasses] at h
    have hnote := (append_inj rfl h).2
    have hlength := congrArg String.length hnote
    rw [String.length_append] at hlength
    exact String.length_eq_zero_iff.mp (by omega)
  · rintro ⟨hpasses, hnone⟩
    rw [join_asRecorded hpasses, hnone, String.empty_append]

/-- `next` is the attempt behind `previous`, which has failed. -/
structure RetriedBy (previous next : TaskRunAttempt) (db : Database) : Prop where
  rows : previous ∈ db.taskRunAttempts.rows ∧ next ∈ db.taskRunAttempts.rows
  precedes : Precedes previous next
  failed : previous.status = .failed

/-- The text is what had been drained from the command of the attempt in `before`, drain by
drain, and flowlite's note; and it is all that has been delivered by now, in order, iff the
drains were. -/
def DrainedFrom (content : String) (previous : TaskRunAttempt) (before w : World) : Prop :=
  ∃ n p exit note, w.procs.find n = some p ∧ p.taskRunAttemptId = previous.id ∧
    p.exited = some exit ∧ Noted exit note ∧
    content = String.join ((before.received n).map asRecorded) ++ note ∧
    (LogInOrder content note p ↔ DrainedInOrder (before.received n) p)

/-- The file lies below a run's directory, under a task and a number, and is what the
dispatcher read last, in `before`. If the run was there then, an attempt of the task in it
follows the one with that number, and the file holds the log of that one. -/
def HandedInOrder (path content : String) (before w : World) : Prop :=
  ∃ (canonical taskId : String) (jobRunId number id : Nat) (rows : List TaskRunAttemptOutput),
    (Resolved canonical w ∧ path = taskLogPath (runDirIn canonical jobRunId) taskId number) ∧
    (JustRead id rows before.log w ∧ content = String.join (rows.map (·.content))) ∧
    jobRunId < before.db.jobRuns.next ∧
    ((before.db.jobRuns.find jobRunId).isSome = true → ∃ previous next,
      RetriedBy previous next before.db ∧
      (next.jobRunId = jobRunId ∧ next.taskId = taskId ∧ previous.attempt = number) ∧
      previous.id = id ∧ AttemptAt (.service .taskRunAttemptDispatcher) next.id w ∧
      DrainedFrom content previous before w)

/-- Attempts that were read are there as long as their run is, and the one before has
failed. -/
theorem retriedBy_of_seen {w : World} {previous next : TaskRunAttempt}
    (hi : (transcripts lib).inv w) (hprevious : Seen previous w.log) (hnext : Seen next w.log)
    (hprecedes : Precedes previous next)
    (hthere : (w.db.jobRuns.find next.jobRunId).isSome = true) :
    ∃ x y, RetriedBy x y w.db ∧ TaskRunAttempt.Same previous x ∧ TaskRunAttempt.Same next y := by
  obtain ⟨⟨-, hpsame⟩, -, hpstays⟩ := hi.2.2.2 previous hprevious
  obtain ⟨⟨-, hnsame⟩, -, hnstays⟩ := hi.2.2.2 next hnext
  obtain ⟨x, hx, -, -⟩ := hpstays (by rw [hprecedes.run]; exact hthere)
  obtain ⟨y, hy, -, -⟩ := hnstays hthere
  have hxsame : x = _ := hpsame x hx
  have hysame : y = _ := hnsame y hy
  have hxy : Precedes x y := by
    rw [hxsame, hysame]
    exact ⟨hprecedes.run, hprecedes.taskRun, hprecedes.number⟩
  have hrows : x ∈ w.db.taskRunAttempts.rows ∧ y ∈ w.db.taskRunAttempts.rows :=
    ⟨Table.mem_of_find hx, Table.mem_of_find hy⟩
  exact ⟨x, y, ⟨hrows, hxy, failed_of_precedes hi hrows.1 hrows.2 hxy⟩, hpsame x hx, hnsame y hy⟩

/-- The rows of an attempt that has failed are its drains, whatever its readers deliver
afterwards. -/
theorem drainedFrom_of_failed {a c : (flowlite lib).Config} (hi : Transcribed a.state)
    (hac : ReflTransGen (Next cond) a c) {x : TaskRunAttempt}
    (hx : x ∈ a.state.db.taskRunAttempts.rows) (hfailed : x.status = .failed) :
    DrainedFrom (a.state.db.transcript x.id) x a.state c.state := by
  obtain ⟨n, p, exit, note, hp, hpid, hexited, hnote, hscribed⟩ := hi.failed x hx hfailed
  obtain ⟨q, hq, hqid, hqexited, hfirst⟩ := (hasDelivered_permanent n x.id exit _).star hac
    ⟨p, hp, hpid, hexited, hi.inOrder n p hp⟩
  have hcontent := hscribed x (Table.find_of_mem hx)
  rw [String.append_empty] at hcontent
  exact ⟨n, q, exit, note, hq, hqid, hqexited, hnote, hcontent, hcontent ▸ logInOrder_iff hfirst⟩

/-- **The log of a retry** is in order iff the drains were, in every run of the system in
which no row fails that is for what a command has printed so far. -/
theorem retry_log_in_order (lib : Library) (c c' : (flowlite lib).Config)
    (hc : Reachable (keepsOutput lib) c) (hn : Next (keepsOutput lib) c c') (e : Host.Event)
    (hlog : c'.state.log = e :: c.state.log) (path content : String)
    (hwrites : e.writesLog = some (path, content)) :
    c'.state.files path = some content.toUTF8 ∧
      ∃ a, (Reachable (keepsOutput lib) a ∧ ReflTransGen (Next (keepsOutput lib)) a c) ∧
        HandedInOrder path content a.state c.state := by
  obtain ⟨u, rfl⟩ := writesLog_eq hwrites
  obtain ⟨cond, hle, hr, hc', hn'⟩ := recorded_next hc hn
  have hperf := performs_of_log ((transcripts_valid hr hle).next_established hc' hn') hlog
  refine ⟨?_, ?_⟩
  · obtain ⟨ch, w₁, houtcome, heq⟩ := performs_cases hperf
    simp only [World.outcome, Option.some.injEq] at houtcome
    split at houtcome <;> cases houtcome
    rw [heq]
    exact Function.update_self ..
  obtain ⟨canonical, previous, next, rows, hpath, hprecedes,
    ⟨before, hseen, since, hsince, hothers⟩, hcontent, hqueued⟩ := hperf.2.2.2.1 rfl
  -- the configuration the rows were read in
  obtain ⟨a, b, ha, hab, hbc, hread, rfl⟩ := reachable_of_log hc hsince
  obtain ⟨cond₀, hle₀, hr₀, ha₀, hab₀⟩ := recorded_next ha hab
  have hi := (transcripts_valid hr₀ hle₀).inv ha₀
  refine ⟨a, ⟨ha, .head hab hbc⟩, canonical, next.taskId, next.jobRunId, previous.attempt,
    previous.id, rows, hpath, ⟨⟨since, hsince, hothers⟩, hcontent⟩, (hi.2.2.2 next hseen.2).2.1,
    fun hthere => ?_⟩
  obtain ⟨x, y, hretried, hxsame, hysame⟩ := retriedBy_of_seen hi hseen.1 hseen.2 hprecedes hthere
  have hx : x = _ := hxsame
  have hy : y = _ := hysame
  have hid : previous.id = x.id := by rw [hx]
  refine ⟨x, y, hretried, ⟨by rw [hy], by rw [hy], by rw [hx]⟩, hid.symm,
    by rw [hy]; exact hqueued, ?_⟩
  have htranscript : content = a.state.db.transcript x.id := by
    rcases select_cases (performs_of_log hab₀ hread) with ⟨e, he⟩ | hrows
    · cases he
    · cases hrows
      rw [hcontent, hid]
      exact a.state.db.join_selectTaskRunAttemptOutputs x.id
  rw [htranscript]
  exact drainedFrom_of_failed hi.1 (.head hab hbc) hretried.rows.1 hretried.failed

namespace Replay

/-- The first attempt prints these chunks and fails, all before the monitor looks at it; the
second one is about to be handed the log. -/
def failsAfter (chunks : List TaskRunAttemptOutputChunk) : List Event :=
  boot (retried 1) ++ request 0 (.submit (retried 1) "etl" [] 0 none) 4 ++
    wake .jobRunReleaser 4 ++ wake .jobRunDispatcher 9 ++ wake .taskRunDispatcher 4 ++
    wake .taskRunMonitor 4 ++ wake .taskRunAttemptDispatcher 11 ++
    chunks.map (fun chunk => .env (.deliver 1 chunk)) ++
    [.env (.exit 1 (.code 1)), .env (.groupExit 1), .env (.eof 1 .stdout),
      .env (.eof 1 .stderr)] ++
    wake .taskRunAttemptMonitor 9 ++ wake .taskRunMonitor 3 ++ wake .taskRunAttemptDispatcher 10

def loading : TaskRunAttemptOutputChunk := ⟨.stdout, "loading\n"⟩

def noRows : TaskRunAttemptOutputChunk := ⟨.stderr, "no rows\n"⟩

/-- Where the log of the first attempt goes. -/
def logPath : String := "/.flowlite/runs/1/.output/extract.1.log"

end Replay

open Replay in
/-- What was printed first on stdout and then on stderr is handed on so, in a run that is
there. -/
theorem retry_log_stdout_first : ∃ c c' : (flowlite library).Config,
    (c'.state.files logPath = some "loading\nno rows\n".toUTF8 ∧
      ∃ a, (Reachable (keepsOutput library) a ∧ ReflTransGen (Next (keepsOutput library)) a c) ∧
        HandedInOrder logPath "loading\nno rows\n" a.state c.state) ∧
    (c.state.db.jobRuns.find 1).isSome = true := by
  have hrun : (replay (keepsOutput library) (failsAfter [loading, noRows])).any (fun c =>
      (execEvent (keepsOutput library) c (step (.service .taskRunAttemptDispatcher))).any
        fun c' => c.state.log.length < c'.state.log.length && c'.state.log.head?.any fun e =>
          decide (e.writesLog = some (logPath, "loading\nno rows\n") ∧
            (c.state.db.jobRuns.find 1).isSome = true)) = true := by
    decide +kernel
  obtain ⟨c, c', e, hc, hn, hlog, hcheck⟩ := next_of_replay hrun
  obtain ⟨hwrites, hthere⟩ := of_decide_eq_true hcheck
  exact ⟨c, c', retry_log_in_order library c c' hc hn e hlog _ _ hwrites, hthere⟩

open Replay in
/-- What was printed the other way round, in one pass, is handed on the same: its readers
came to the end of their pipes, and no row failed. -/
theorem retry_log_regrouped : ∃ (c c' : (flowlite library).Config) (e : Host.Event) (p : Process),
    (Reachable (keepsOutput library) c ∧ Next (keepsOutput library) c c' ∧
      c'.state.log = e :: c.state.log) ∧
    e.writesLog = some (logPath, "loading\nno rows\n") ∧
    (c.state.procs.find 1 = some p ∧ p.taskRunAttemptId = 1 ∧ ReadToEnd 1 c.state) ∧
    p.delivered = [noRows, loading] ∧
    ¬ ∃ exit note, p.exited = some exit ∧ Noted exit note ∧
      LogInOrder "loading\nno rows\n" note p := by
  have hrun : (replay (keepsOutput library) (failsAfter [noRows, loading])).any (fun c =>
      (execEvent (keepsOutput library) c (step (.service .taskRunAttemptDispatcher))).any
        fun c' => c.state.log.length < c'.state.log.length && c'.state.log.head?.any fun e =>
          decide (e.writesLog = some (logPath, "loading\nno rows\n") ∧
            c.state.log.any (·.readsToEnd 1) = true) &&
          (c.state.procs.find 1).any fun p => decide (p.taskRunAttemptId = 1 ∧
            p.delivered = [noRows, loading] ∧ p.exited = some (.code 1))) = true := by
    decide +kernel
  obtain ⟨c, c', e, hc, hn, hlog, hcheck⟩ := next_of_replay hrun
  obtain ⟨hevent, hprocess⟩ := Bool.and_eq_true_iff.mp hcheck
  obtain ⟨hwrites, hend⟩ := of_decide_eq_true hevent
  obtain ⟨p, hp, hprocess⟩ := (Option.any_eq_true _ _).mp hprocess
  obtain ⟨hid, hdelivered, hexited⟩ := of_decide_eq_true hprocess
  refine ⟨c, c', e, p, ⟨hc, hn, hlog⟩, hwrites, ⟨hp, hid, hend⟩, hdelivered, ?_⟩
  rintro ⟨exit, note, hexit, hnote, horder⟩
  cases hexited.symm.trans hexit
  rw [Noted, if_neg (by decide)] at hnote
  unfold LogInOrder at horder
  rw [hnote, hdelivered] at horder
  revert horder
  decide

end Flowlite

import Flowlite.Logic.Ownership

/-!
# Attempts the monitor is entrusted with

An attempt that is running has a child, in the map or with the monitor that has just taken
it out; only an attempt without one is settled as invalid. A verdict that was reached before
the command has ended travels with the child, and the attempt is settled as it says. `entrusted` is
the outline that says both. It holds as long as `serve` does and the database answers the two
services that start and end attempts.
-/

namespace Flowlite

open Store Host Threads Crud Machine Outline

variable {lib : Library} {cond : (flowlite lib).Condition} {O : Outline (flowlite lib)}

/-! ## What may not fail -/

/-- `serve` does not crash, no statement of `TaskRunAttemptMonitor` fails, and
`TaskRunAttemptDispatcher` can write the attempt it is at. -/
def recordsAttempts (lib : Library) : (flowlite lib).Condition where
  step t o _ r _ :=
    match t, o, r with
    | .service .taskRunAttemptMonitor, .select _, .error _ => False
    | .service .taskRunAttemptMonitor, .write _, .error _ => False
    | .service .taskRunAttemptDispatcher, .write (.updateTaskRunAttempts _ _), .error _ => False
    | _, _, _ => True
  env e _ _ :=
    match e with
    | .crash => False
    | _ => True

instance : (recordsAttempts lib).Checked where
  step t o w r w' := by
    rcases t with s | n
    case service =>
      rcases s
      case taskRunAttemptMonitor =>
        rcases o
        case select q => rcases r <;> (dsimp only [recordsAttempts]; infer_instance)
        case write q => rcases r <;> (dsimp only [recordsAttempts]; infer_instance)
        all_goals exact isTrue trivial
      case taskRunAttemptDispatcher =>
        rcases o with _ | q
        case write =>
          rcases q
          case updateTaskRunAttempts f i =>
            rcases r <;> (dsimp only [recordsAttempts]; infer_instance)
          all_goals exact isTrue trivial
        all_goals exact isTrue trivial
      all_goals exact isTrue trivial
    case client => exact isTrue trivial
  env e w w' := by
    rcases e <;> (dsimp only [recordsAttempts]; infer_instance)

/-! ## The outline -/

/-- What the attempt will settle as, if its command was asked to exit. -/
def Host.TaskRunAttemptChild.verdict (child : TaskRunAttemptChild) : Option TaskRunAttemptStatus :=
  child.terminating.map (·.status)

/-- What was taken out of the map, and under which attempt it was looked for. -/
def Host.Event.taken : Host.Event → Option (Nat × Option TaskRunAttemptChild)
  | ⟨_, .childrenRemove id, .ok child⟩ => some (id, child)
  | _ => none

/-- What was last taken out of the map. -/
def Host.World.taken (w : World) : Option (Nat × Option TaskRunAttemptChild) :=
  w.log.findSome? Host.Event.taken

/-- The attempt's child is the one last taken out of the map, and the map has none for it. -/
def InHandOf (id : Nat) (child : TaskRunAttemptChild) (w : World) : Prop :=
  w.taken = some (id, some child) ∧
    ∀ x, w.db.taskRunAttempts.find id = some x → w.children id = none

/-- Every running attempt but this one has its child in the map. -/
def InMapBut (id : Option Nat) (w : World) : Prop :=
  ∀ n x, w.db.taskRunAttempts.find n = some x → x.status = .running → id ≠ some n →
    (w.children n).isSome = true

/-- For no queued attempt but this one was a spawn begun. -/
def UnbegunBut (id : Option Nat) (w : World) : Prop :=
  ∀ n x, w.db.taskRunAttempts.find n = some x → x.status = .queued → id ≠ some n →
    x.startedAt = none

/-- A running attempt has a child, and none is invalid. -/
structure Entrusted (w : World) : Prop where
  placed : ∀ n x, w.db.taskRunAttempts.find n = some x → x.status = .running →
    (w.children n).isSome = true ∨ ∃ child, w.taken = some (n, some child)
  up : ∀ n x, w.db.taskRunAttempts.find n = some x → x.status = .running →
    ∃ config, w.serve = .up config
  valid : ∀ n x, w.db.taskRunAttempts.find n = some x → x.status ≠ .invalid

/-- What the monitor does with the child in hand goes by what the child says. -/
def GoesBy (id : Nat) (verdict : Option TaskRunAttemptStatus) (w : World) : Prop :=
  ∃ child, InHandOf id child w ∧ ∀ status, child.verdict = some status → verdict = some status

/-- The monitor has one child in hand at a time, and settles its attempt as it says. -/
def entrusted (lib : Library) : Outline (flowlite lib) where
  inv := Entrusted
  pre t o w :=
    match o with
    | .childrenRemove id => InMapBut none w ∧
        ∀ x, w.db.taskRunAttempts.find id = some x → x.status = .running
    | .childrenInsert id child =>
        (t = .service .taskRunAttemptDispatcher →
          ∀ x, w.db.taskRunAttempts.find id = some x → x.status = .queued) ∧
        (t = .service .taskRunAttemptMonitor → GoesBy id child.verdict w)
    | .write (.updateTaskRunAttempts f i) => ∀ status id, i.status = some status →
        f.id = some id → ∀ x, w.db.taskRunAttempts.find id = some x → status ≠ .invalid ∧
          (status = .running → (w.children id).isSome = true) ∧
          (t = .service .taskRunAttemptMonitor → GoesBy id (some status) w)
    | _ => True
  idle t w :=
    match t with
    | .service .taskRunAttemptDispatcher => UnbegunBut none w
    | .service .taskRunAttemptMonitor => InMapBut none w
    | _ => True

/-! ## One step -/

section Steps

variable {t : Tid} {o : Op} {w w' : World} {r : Result o}

theorem takenOut_performs (h : Performs cond t o w r w') :
    w'.taken = ((Host.Event.mk t o r).taken).or w.taken := by
  unfold Host.World.taken
  rw [log_performs h, List.findSome?_cons]
  cases (Host.Event.mk t o r).taken <;> rfl

/-- Any operation but one that takes a child out of the map. -/
def TakesNone (o : Op) : Prop := ∀ id, o ≠ .childrenRemove id

theorem taken_kept (h : Performs cond t o w r w') (ho : TakesNone o) : w'.taken = w.taken := by
  rw [takenOut_performs h]
  cases o <;> first
    | rfl
    | exact absurd rfl (ho _)

theorem taken_removed {id : Nat} {child : Option TaskRunAttemptChild}
    (h : Performs cond t (.childrenRemove id) w (.ok child) w') : w'.taken = some (id, child) := by
  rw [takenOut_performs h]
  rfl

theorem taken_happens {kill : Tid → Bool} (h : Happens cond w w' kill) : w'.taken = w.taken := by
  unfold Host.World.taken
  rw [log_happens h]

/-- Only the monitor takes a child. -/
theorem takesNone_of_other (hb : cond.Le (base lib).established) (h : Performs cond t o w r w')
    (ht : t ≠ .service .taskRunAttemptMonitor) : TakesNone o := by
  rintro id rfl
  exact ht (allowed_of hb h)

theorem children_kept (h : Performs cond t o w r w') (hremove : TakesNone o) {n : Nat}
    (hn : (w.children n).isSome = true) : (w'.children n).isSome = true := by
  rcases children_cases h with ⟨id, child, -, heq⟩ | ⟨id, rfl, -⟩ | ⟨-, -, heq⟩
  · rw [heq, Function.update_apply]
    split
    · rfl
    · exact hn
  · exact absurd rfl (hremove id)
  · rw [heq]
    exact hn

/-- An attempt that reads running now was running, or its child is in the map. -/
theorem running_before (hb : cond.Le (base lib).established)
    (hpre : (entrusted lib).pre t o w) (h : Performs cond t o w r w') {n : Nat}
    {x' : TaskRunAttempt} (hx' : w'.db.taskRunAttempts.find n = some x')
    (hrunning : x'.status = .running) :
    (∃ x, w.db.taskRunAttempts.find n = some x ∧ x.status = .running) ∨
      (w.children n).isSome = true ∧ t = .service .taskRunAttemptDispatcher ∧ TakesNone o := by
  have hallowed := allowed_of hb h
  rcases taskRunAttempt_origin h hx' with hx | ⟨i, now, rfl, -, rfl, -, -, -, rfl⟩ |
    ⟨x, hx, f, i, rfl, -, hf, rfl⟩
  · exact .inl ⟨x', hx, hrunning⟩
  · cases hallowed with
    | addAttempt hqueued =>
        have hstatus : i.status = .running := hrunning
        rw [hqueued] at hstatus
        cases hstatus
  · cases hset : i.status with
    | none => exact .inl ⟨x, hx, by simpa [UpdateTaskRunAttemptsInput.patch, hset] using hrunning⟩
    | some status =>
        obtain rfl : status = .running := by
          simpa [UpdateTaskRunAttemptsInput.patch, hset] using hrunning
        obtain ⟨id, hid⟩ := updateTaskRunAttempts_id hallowed
        have hkey : id = n :=
          (updateTaskRunAttemptsFilter_holds hid hf).symm.trans (Table.key_of_find hx)
        subst hkey
        refine .inr ⟨(hpre _ id hset hid x hx).2.1 rfl, ?_, fun _ h => by cases h⟩
        cases hallowed with
        | dropAttempt hs => rcases hs with rfl | rfl <;> cases hset
        | markStarted | wait | recoverAttempt => cases hset
        | startAttempt => rfl
        | settleAttempt hfinished =>
            cases hset
            cases hfinished

theorem entrusted_step (hb : cond.Le (base lib).established) (hi : Entrusted w)
    (hpre : (entrusted lib).pre t o w) (h : Performs cond t o w r w') : Entrusted w' where
  placed n x' hx' hrunning := by
    rcases running_before hb hpre h hx' hrunning with ⟨x, hx, hbefore⟩ | ⟨hchild, -, htakes⟩
    · by_cases htakes : TakesNone o
      · rw [taken_kept h htakes]
        exact (hi.placed n x hx hbefore).imp_left (children_kept h htakes)
      · obtain ⟨id, rfl⟩ : ∃ id, o = .childrenRemove id := by
          by_contra hnone
          exact htakes fun id heq => hnone ⟨id, heq⟩
        have hchild := hpre.1 n x hx hbefore nofun
        obtain ⟨child, rfl⟩ := Infallible.succeeds (by trivial) h
        rcases children_cases h with ⟨id', child', heq, -⟩ | ⟨id', heq, hafter⟩ | ⟨-, hnone, -⟩
        · cases heq
        · cases heq
          by_cases hn : n = id
          · subst hn
            obtain ⟨child', hchild'⟩ := Option.isSome_iff_exists.mp hchild
            refine .inr ⟨child', ?_⟩
            rw [taken_removed h, ← childrenRemove_answer h, hchild']
          · left
            rw [hafter, Function.update_of_ne hn]
            exact hchild
        · exact absurd rfl (hnone id)
    · exact .inl (children_kept h htakes hchild)
  up n x' hx' hrunning := by
    rcases running_before hb hpre h hx' hrunning with ⟨x, hx, hbefore⟩ | ⟨-, rfl, -⟩
    · obtain ⟨config, hup⟩ := hi.up n x hx hbefore
      rcases serve_cases h with heq | ⟨-, config', hstarting, -⟩
      · exact ⟨config, heq.trans hup⟩
      · rw [hup] at hstarting
        cases hstarting
    · exact running_kept h (running_of hb h) (by rintro rfl; cases allowed_of hb h)
  valid n x' hx' := by
    rcases taskRunAttempt_origin h hx' with hx | ⟨i, now, rfl, -, rfl, -, -, -, rfl⟩ |
      ⟨x, hx, f, i, rfl, -, hf, rfl⟩
    · exact hi.valid n x' hx
    · cases allowed_of hb h with
      | addAttempt hqueued =>
          show i.status ≠ .invalid
          rw [hqueued]
          nofun
    · cases hset : i.status with
      | none => simpa [UpdateTaskRunAttemptsInput.patch, hset] using hi.valid n x hx
      | some status =>
          obtain ⟨id, hid⟩ := updateTaskRunAttempts_id (allowed_of hb h)
          have hkey : id = n :=
            (updateTaskRunAttemptsFilter_holds hid hf).symm.trans (Table.key_of_find hx)
          subst hkey
          simpa [UpdateTaskRunAttemptsInput.patch, hset] using (hpre status id hset hid x hx).1

theorem no_crash (hrc : cond.Le (recordsAttempts lib)) {e : External} {v v' : World}
    (h : cond.env e v v') : e ≠ .crash := by
  rintro rfl
  exact hrc.2 _ _ _ h

theorem children_happens (hrc : cond.Le (recordsAttempts lib)) {kill : Tid → Bool}
    (h : Happens cond w w' kill) : w'.children = w.children := by
  obtain ⟨e, he, hcond⟩ := h
  exact ((external_children he).resolve_left fun hcrash => no_crash hrc hcond hcrash.1).2

theorem entrusted_happens (hrc : cond.Le (recordsAttempts lib)) (hi : Entrusted w)
    {kill : Tid → Bool} (h : Happens cond w w' kill) : Entrusted w' := by
  have hdb := happens_db h
  refine ⟨fun n x hx hrunning => ?_, fun n x hx hrunning => ?_, fun n x hx => ?_⟩ <;>
    rw [hdb] at hx
  · rw [children_happens hrc h, taken_happens h]
    exact hi.placed n x hx hrunning
  · obtain ⟨config, hup⟩ := hi.up n x hx hrunning
    obtain ⟨e, he, hcond⟩ := h
    rcases external_serve he with heq | ⟨hdown, -⟩ | ⟨hcrash, -⟩
    · exact ⟨config, heq.trans hup⟩
    · rw [hup] at hdown
      cases hdown
    · exact absurd hcrash (no_crash hrc hcond)
  · exact hi.valid n x hx

/-! ## What the two services know -/

theorem inMapBut_kept (hb : cond.Le (base lib).established) (hpre : (entrusted lib).pre t o w)
    (htakes : TakesNone o) (h : Performs cond t o w r w') {id : Option Nat}
    (hw : InMapBut id w) : InMapBut id w' := by
  intro n x' hx' hrunning hn
  rcases running_before hb hpre h hx' hrunning with ⟨x, hx, hbefore⟩ | ⟨hchild, -, -⟩
  · exact children_kept h htakes (hw n x hx hbefore hn)
  · exact children_kept h htakes hchild

theorem inMapBut_happens (hrc : cond.Le (recordsAttempts lib)) {kill : Tid → Bool}
    (h : Happens cond w w' kill) {id : Option Nat} (hw : InMapBut id w) : InMapBut id w' := by
  unfold InMapBut
  rw [happens_db h, children_happens hrc h]
  exact hw

theorem InMapBut.stable (hb : cond.Le (base lib).established)
    (hrc : cond.Le (recordsAttempts lib)) (id : Option Nat) :
    (entrusted lib).Stable cond (.service .taskRunAttemptMonitor) (InMapBut id) := by
  intro w w' hothers hw
  cases hothers with
  | run hu _ _ hpre hperf =>
      exact inMapBut_kept hb hpre (takesNone_of_other hb hperf hu) hperf hw
  | env _ _ _ hhappens => exact inMapBut_happens hrc hhappens hw

/-- Any operation but one that writes when an attempt was started. -/
def MarksNone : Op → Prop
  | .write (.updateTaskRunAttempts _ i) => i.startedAt = none
  | _ => True

/-- Only the dispatcher marks an attempt. -/
theorem marksNone_of_other (hb : cond.Le (base lib).established) (h : Performs cond t o w r w')
    (ht : t ≠ .service .taskRunAttemptDispatcher) : MarksNone o := by
  have hallowed := allowed_of hb h
  cases o with
  | write q =>
      cases q
      case updateTaskRunAttempts f i =>
        cases hallowed <;> first
          | rfl
          | exact absurd rfl ht
      all_goals trivial
  | _ => trivial

theorem unbegunBut_kept (hb : cond.Le (base lib).established) (hmarks : MarksNone o)
    (h : Performs cond t o w r w') {id : Option Nat} (hw : UnbegunBut id w) :
    UnbegunBut id w' := by
  intro n x' hx' hqueued hn
  rcases taskRunAttempt_origin h hx' with hx | ⟨i, now, rfl, -, rfl, -, -, -, rfl⟩ |
    ⟨x, hx, f, i, rfl, -, hf, rfl⟩
  · exact hw n x' hx hqueued hn
  · rfl
  · have hstarted : i.startedAt = none := hmarks
    have hstatus : x.status = .queued := by
      cases hset : i.status with
      | none => simpa [UpdateTaskRunAttemptsInput.patch, hset] using hqueued
      | some status =>
          have hqueued : status = .queued := by
            simpa [UpdateTaskRunAttemptsInput.patch, hset] using hqueued
          rw [hqueued] at hset
          exact absurd hset (update_not_queued (allowed_of hb h))
    simpa [UpdateTaskRunAttemptsInput.patch, hstarted] using hw n x hx hstatus hn

theorem UnbegunBut.stable (hb : cond.Le (base lib).established) (id : Option Nat) :
    O.Stable cond (.service .taskRunAttemptDispatcher) (UnbegunBut id) := by
  intro w w' hothers hw
  cases hothers with
  | run hu _ _ _ hperf => exact unbegunBut_kept hb (marksNone_of_other hb hperf hu) hperf hw
  | env _ _ _ hhappens =>
      unfold UnbegunBut
      rw [happens_db hhappens]
      exact hw

/-- What neither moves a child nor writes a status asks for nothing. -/
theorem KeepsCommands.entrusted_pre (ho : KeepsCommands o) (t : Tid) (w : World) :
    (entrusted lib).pre t o w := by
  cases o with
  | childrenInsert => exact absurd trivial ho.2
  | childrenRemove => exact absurd trivial ho.2
  | write q =>
      cases q
      case updateTaskRunAttempts f i =>
        intro status id hset
        rw [show i.status = none from ho.1] at hset
        cases hset
      all_goals trivial
  | _ => trivial

theorem KeepsCommands.takesNone (ho : KeepsCommands o) : TakesNone o := by
  rintro id rfl
  exact ho.2 trivial

end Steps

/-! ## What is answered -/

/-- An operation the monitor can count on. -/
def Answerable : Op → Prop
  | .select _ | .write _ => True
  | o => Infallible o

theorem answerable (hrc : cond.Le (recordsAttempts lib)) (o : Op) (w : World) (e : Err)
    (w' : World) (ho : Answerable o) :
    ¬ Performs cond (.service .taskRunAttemptMonitor) o w (.error e) w' := by
  intro h
  have hstep := hrc.1 _ _ _ _ _ h.2
  cases o with
  | select => exact hstep
  | write => exact hstep
  | _ =>
      obtain ⟨a, ha⟩ := Infallible.succeeds (by exact ho) h
      cases ha

section Answers

open Prog TaskRunAttemptMonitor

theorem goesThrough_op {o : Op} (ho : Answerable o) : (Crud.perform o).GoesThrough Answerable :=
  goesThrough_perform ho

theorem stopUnlessSucceeded_goesThrough (a : TaskRunAttempt) (status : TaskRunAttemptStatus) :
    (stopUnlessSucceeded a status).GoesThrough Answerable := by
  have hselect : ∀ q, (select q).GoesThrough Answerable := fun q => goesThrough_perform trivial
  unfold stopUnlessSucceeded
  split
  · trivial
  · refine (hselect _).bind fun children => GoesThrough.forEach fun child _ => ?_
    refine GoesThrough.bind ((hselect _).bind fun _ => goesThrough_ret _) fun stop => ?_
    split
    · trivial
    · exact (goesThrough_perform (by trivial)).bind fun _ => goesThrough_ret _

theorem insertOutput_goesThrough (a : TaskRunAttempt) (stdout stderr : String) :
    (insertOutput a stdout stderr).GoesThrough Answerable := by
  refine GoesThrough.forEach fun (stream, content) _ => ?_
  dsimp only
  split
  · trivial
  · exact (goesThrough_perform (by trivial)).bind fun _ => goesThrough_ret _

theorem finishReading_goesThrough (a : TaskRunAttempt) (child : TaskRunAttemptChild) :
    (finishReading a child).GoesThrough Answerable := by
  refine (goesThrough_op (o := .recvUntilClosed child.process) trivial).bind
    fun (chunks, closed) => ?_
  dsimp only
  split
  · exact insertOutput_goesThrough a _ _
  · exact (goesThrough_op (o := .abortReaders child.process) trivial).bind
      fun _ => insertOutput_goesThrough a _ _

theorem noteTimeout_goesThrough (a : TaskRunAttempt) (child : TaskRunAttemptChild)
    (status : TaskRunAttemptStatus) : (noteTimeout a child status).GoesThrough Answerable := by
  unfold noteTimeout
  split
  · exact (goesThrough_op (o := .now) trivial).bind fun _ => insertOutput_goesThrough a _ _
  · trivial

/-- Looking for the result, the monitor takes every error as a value. -/
theorem readTaskOutput_goesThrough (config : Config) (a : TaskRunAttempt) :
    (readTaskOutput config a).GoesThrough Answerable := by
  refine (goesThrough_attempt _).bind fun dir => ?_
  split
  · trivial
  refine (goesThrough_attempt _).bind fun metadata => ?_
  split
  · trivial
  · trivial
  split
  · trivial
  refine (goesThrough_attempt _).bind fun bytes => ?_
  split
  · trivial
  · split <;> trivial

end Answers

/-! ## The monitor -/

section Monitor

open TaskRunAttemptMonitor

variable (hb : cond.Le (base lib).established) (ha : cond.Le (attempts lib).established)
  (hrc : cond.Le (recordsAttempts lib)) {a : TaskRunAttempt} {child : TaskRunAttemptChild}

/-- The monitor has this child of the attempt in hand, and no other attempt's. -/
def InCharge (id : Nat) (child : TaskRunAttemptChild) (w : World) : Prop :=
  AttemptAt thread id w ∧ InMapBut (some id) w ∧ InHandOf id child w

/-- The attempt may settle so, as far as its child says. -/
def SettlesAs (child : TaskRunAttemptChild) (status : TaskRunAttemptStatus) : Prop :=
  status ≠ .invalid ∧ status ≠ .running ∧
    ∀ verdict, child.verdict = some verdict → status = verdict ∧ verdict ≠ .succeeded

theorem settlesAs_of_none {status : TaskRunAttemptStatus} (hnone : child.verdict = none)
    (hinvalid : status ≠ .invalid) (hrunning : status ≠ .running) : SettlesAs child status := by
  refine ⟨hinvalid, hrunning, fun verdict hverdict => ?_⟩
  rw [hnone] at hverdict
  cases hverdict

include hb in
theorem inHandOf_other {u : Tid} {o : Op} {w w' : World} {r : Result o} {id : Nat}
    (hu : u ≠ thread) (hpre : (entrusted lib).pre u o w) (h : Performs cond u o w r w')
    (hat : AttemptAt thread id w) (hw : InHandOf id child w) : InHandOf id child w' := by
  refine ⟨(taken_kept h (takesNone_of_other hb h hu)).trans hw.1, fun x' hx' => ?_⟩
  obtain ⟨x, hx, -⟩ := attemptStatus_performs h hat.2.1 hx'
  rcases children_cases h with ⟨id', child', rfl, heq⟩ | ⟨id', rfl, -⟩ | ⟨-, -, heq⟩
  · have hdispatcher : u = .service .taskRunAttemptDispatcher :=
      (allowed_of hb h).2.resolve_right hu
    have hne : id ≠ id' := by
      rintro rfl
      have hqueued := hpre.1 hdispatcher x hx
      rw [show x.status = .running from hat.2.2 x hx] at hqueued
      cases hqueued
    rw [heq, Function.update_of_ne hne]
    exact hw.2 x hx
  · exact absurd (allowed_of hb h) hu
  · rw [heq]
    exact hw.2 x hx

include hb ha hrc in
theorem inCharge_stable (id : Nat) (child : TaskRunAttemptChild) :
    (entrusted lib).Stable cond thread (InCharge id child) := by
  intro w w' hothers ⟨hat, hmap, hhand⟩
  refine ⟨attemptAt_stable hb (meetsAttempts ha) _ id w w' hothers hat,
    InMapBut.stable hb hrc _ w w' hothers hmap, ?_⟩
  cases hothers with
  | run hu _ _ hpre hperf => exact inHandOf_other hb hu hpre hperf hat hhand
  | env _ _ _ hhappens =>
      unfold InHandOf
      rw [taken_happens hhappens, happens_db hhappens, children_happens hrc hhappens]
      exact hhand

include hb in
theorem inCharge_kept {o : Op} (ho : KeepsCommands o) {w w' : World} {r : Result o} {id : Nat}
    (h : Performs cond thread o w r w') (hw : InCharge id child w) : InCharge id child w' := by
  obtain ⟨hat, hmap, htaken, hnone⟩ := hw
  refine ⟨(attemptAt_keeps ho.1 hat h).2,
    inMapBut_kept hb (ho.entrusted_pre _ w) ho.takesNone h hmap,
    (taken_kept h ho.takesNone).trans htaken, fun x' hx' => ?_⟩
  obtain ⟨x, hx, -⟩ := attemptStatus_performs h hat.2.1 hx'
  rcases children_cases h with ⟨id', child', rfl, -⟩ | ⟨id', rfl, -⟩ | ⟨-, -, heq⟩
  · exact absurd trivial ho.2
  · exact absurd trivial ho.2
  · rw [heq]
    exact hnone x hx

include hb ha hrc in
theorem inCharge_uses {α : Type} {p : Code α} (hp : p.Uses KeepsCommands) :
    (entrusted lib).Triple cond thread (InCharge a.id child) p fun _ => InCharge a.id child :=
  Triple.of_uses (inCharge_stable hb ha hrc a.id child) (hp.mono fun _ ho w _ _ _ hw hperf =>
    ⟨ho.entrusted_pre _ w, fun _ => inCharge_kept hb ho hperf hw⟩)

include hb ha hrc in
/-- What goes through leaves the monitor in charge. -/
theorem inCharge_through {α : Type} {p : Code α} {Q : World → Prop} (hp : p.Uses KeepsCommands)
    (hthrough : p.GoesThrough Answerable) :
    (entrusted lib).Triple cond thread (InCharge a.id child) p
      (Outcome (InCharge a.id child) Q) := by
  refine ((inCharge_uses hb ha hrc hp).goesThrough hthrough (answerable hrc)).post ?_
  rintro r w - ⟨h, b, rfl⟩
  exact h

omit hb ha hrc in
/-- A fact about no state stays known. -/
theorem outcome_fact {α : Type} {F : Prop} {P W Q : World → Prop} {p : Code α}
    (h : O.Triple cond thread P p (Outcome W Q)) :
    O.Triple cond thread (fun w => F ∧ P w) p (Outcome (fun w => F ∧ W w) Q) := by
  refine Triple.of_fact (fun _ _ h => h.1) fun hfact => h.conseq (fun _ _ h => h.2) ?_
  intro r w _ h
  cases r with
  | ok _ => exact ⟨hfact, h⟩
  | error _ => exact h

theorem attemptOutput_keeps (stream : TaskRunAttemptOutputStream) (content : String) :
    KeepsCommands (.write (.insertTaskRunAttemptOutput (outputInput a stream content))) :=
  ⟨trivial, id⟩

include hb ha hrc in
/-- The write of the status is the last the monitor does with the attempt. -/
theorem entrusted_finish {status : TaskRunAttemptStatus} (hstatus : SettlesAs child status)
    (output : Option String) :
    (entrusted lib).Triple cond thread (InCharge a.id child) (finishTaskRunAttempt a status output)
      fun _ => InMapBut none := by
  refine Triple.bind (inCharge_through (Q := InMapBut none) hb ha hrc ?_
    (stopUnlessSucceeded_goesThrough a status)) (fun _ => ?_) fun _ _ _ h => h
  · unfold stopUnlessSucceeded
    split
    · trivial
    · exact stopChildJobRuns_uses (fun _ h => h.keepsCommands) (fun _ => ⟨trivial, id⟩) a
  refine Triple.bind (inCharge_through (Q := InMapBut none) hb ha hrc
    (now_silent.mono fun _ h => h.keepsCommands) (goesThrough_op (o := .now) trivial))
    (fun now => ?_) fun _ _ _ h => h
  have hpre : ∀ w, InCharge a.id child w → (entrusted lib).pre thread
      (.write (.updateTaskRunAttempts { id := some a.id }
        { status := some status, finishedAt := some (some now), output })) w := by
    intro w hw status' id hset hid x hx
    cases hset
    cases hid
    exact ⟨hstatus.1, fun h => absurd h hstatus.2.1, fun _ => ⟨child, hw.2.2,
      fun verdict hverdict => congrArg some (hstatus.2.2 verdict hverdict).1⟩⟩
  refine Triple.perform (inCharge_stable hb ha hrc a.id child) (fun w _ _ _ hw _ => hpre w hw)
    fun w r w' _ hw hperf _ n x' hx' hrunning _ => ?_
  cases r with
  | error e => exact absurd hperf (answerable hrc _ _ _ _ trivial)
  | ok _ =>
      have hne : n ≠ a.id := by
        rintro rfl
        obtain ⟨x, -, rfl⟩ := updateTaskRunAttempts_row hperf hx'
        exact hstatus.2.1 hrunning
      exact inMapBut_kept hb (hpre w hw) nofun hperf hw.2.1 n x' hx' hrunning
        (by simpa using hne.symm)

include hb ha hrc in
/-- Handed back, the child still says what the one taken out said. -/
theorem entrusted_insert {child' : TaskRunAttemptChild}
    (hverdict : ∀ verdict, child.verdict = some verdict → child'.verdict = some verdict) :
    (entrusted lib).Triple cond thread (InCharge a.id child)
      (Crud.perform (.childrenInsert a.id child')) fun _ => InMapBut none := by
  refine Triple.perform (inCharge_stable hb ha hrc a.id child)
    (fun w r w' _ hw _ => ⟨nofun, fun _ => ⟨child, hw.2.2, hverdict⟩⟩)
    fun w r w' _ hw hperf _ n x hx hrunning _ => ?_
  rw [db_of_not_write hperf (by simp)] at hx
  rcases children_cases hperf with ⟨id, child'', ho, heq⟩ | ⟨id, ho, -⟩ | ⟨hnone, -, -⟩
  · cases ho
    rw [heq, Function.update_apply]
    split
    · rfl
    · rename_i hne
      exact hw.2.1 n x hx hrunning (by simpa using Ne.symm hne)
  · cases ho
  · exact absurd rfl (hnone _ _)

include hb in
/-- No child is in the map only for an attempt whose row is gone. -/
theorem entrusted_remove (ha : cond.Le (attempts lib).established)
    (hrc : cond.Le (recordsAttempts lib)) :
    (entrusted lib).Triple cond thread (fun w => InMapBut none w ∧ AttemptAt thread a.id w)
      (Crud.perform (.childrenRemove a.id)) fun r w => match r with
        | .ok none => InMapBut none w ∧ AttemptAt thread a.id w ∧
            w.db.taskRunAttempts.find a.id = none
        | .ok (some child) => EndsStopped child ∧ InCharge a.id child w
        | .error _ => InMapBut none w := by
  refine Triple.perform ((InMapBut.stable hb hrc none).and
    (attemptAt_stable hb (meetsAttempts ha) _ a.id))
    (fun w _ _ _ hw _ => ⟨hw.1, fun x hx => hw.2.2.2 x hx⟩) ?_
  intro w r w' hi ⟨hmap, hat⟩ hperf _
  have hat' := (attemptAt_keeps (by trivial) hat hperf).2
  have hdb := db_of_not_write hperf (by simp)
  obtain ⟨child, rfl⟩ := Infallible.succeeds (by trivial) hperf
  have hanswer := childrenRemove_answer hperf
  obtain ⟨id, ho, hafter⟩ : ∃ id, Op.childrenRemove a.id = .childrenRemove id ∧
      w'.children = Function.update w.children id none := by
    rcases children_cases hperf with ⟨_, _, ho, -⟩ | h | ⟨-, hnone, -⟩
    · cases ho
    · exact h
    · exact absurd rfl (hnone _)
  cases ho
  have hothers : ∀ n x, w'.db.taskRunAttempts.find n = some x → x.status = .running → n ≠ a.id →
      (w'.children n).isSome = true := by
    intro n x hx hrunning hne
    rw [hdb] at hx
    rw [hafter, Function.update_of_ne hne]
    exact hmap n x hx hrunning nofun
  cases child with
  | some child =>
      refine ⟨(hb.1 _ _ _ _ _ hperf.2).1.2 a.id child hanswer, hat', fun n x hx hrunning hne =>
        hothers n x hx hrunning (by simpa using hne.symm), taken_removed hperf, fun _ _ => ?_⟩
      rw [hafter, Function.update_self]
  | none =>
      have hgone : w'.db.taskRunAttempts.find a.id = none := by
        cases hx : w'.db.taskRunAttempts.find a.id with
        | none => rfl
        | some x =>
            rw [hdb] at hx
            have hchild := hmap a.id x hx (hat.2.2 x hx) nofun
            rw [hanswer] at hchild
            cases hchild
      refine ⟨fun n x hx hrunning _ => hothers n x hx hrunning ?_, hat', hgone⟩
      rintro rfl
      rw [hgone] at hx
      cases hx

include hb in
/-- So the attempt that is settled as invalid is one that is not there. -/
theorem entrusted_setToInvalid (hrc : cond.Le (recordsAttempts lib)) :
    (entrusted lib).Triple cond thread (fun w => InMapBut none w ∧
        a.id < w.db.taskRunAttempts.next ∧ w.db.taskRunAttempts.find a.id = none)
      (setToInvalid a) fun _ => InMapBut none := by
  have hgone : Permanent cond fun w => a.id < w.db.taskRunAttempts.next ∧
      w.db.taskRunAttempts.find a.id = none := {
    performs := fun {_ o w _ w'} h hw => by
      refine ⟨lt_of_lt_of_le hw.1 (taskRunAttempts_next_le h), ?_⟩
      cases hx' : w'.db.taskRunAttempts.find a.id with
      | none => rfl
      | some x' =>
          obtain ⟨x, hx, -⟩ := attemptStatus_performs h hw.1 hx'
          rw [hw.2] at hx
          cases hx
    happens := fun h hw => by rwa [happens_db h] }
  have hstable := (InMapBut.stable hb hrc none).and (hgone.stable thread)
  have hkeep : ∀ {α : Type} {p : Code α}, p.Uses KeepsCommands →
      (entrusted lib).Triple cond thread _ p _ := fun hp => Triple.of_uses hstable
    (hp.mono fun o ho w r w' _ hw hperf => ⟨ho.entrusted_pre _ w, fun _ =>
      ⟨inMapBut_kept hb (ho.entrusted_pre _ w) ho.takesNone hperf hw.1,
        hgone.performs hperf hw.2⟩⟩)
  refine Triple.bind (hkeep ?_) (fun _ => ?_) fun _ _ _ h => h.1
  · exact stopChildJobRuns_uses (fun _ h => h.keepsCommands) (fun _ => ⟨trivial, id⟩) a
  refine Triple.bind (hkeep (now_silent.mono fun _ h => h.keepsCommands)) (fun now => ?_)
    fun _ _ _ h => h.1
  have hpre : ∀ w, w.db.taskRunAttempts.find a.id = none → (entrusted lib).pre thread
      (.write (.updateTaskRunAttempts { id := some a.id }
        { status := some .invalid, finishedAt := some (some now), output := none })) w := by
    intro w hw status id _ hid x hx
    cases hid
    rw [hw] at hx
    cases hx
  exact Triple.perform hstable (fun w _ _ _ hw _ => hpre w hw.2.2)
    fun w r w' _ hw hperf _ => inMapBut_kept hb (hpre w hw.2.2) nofun hperf hw.1

/-- The monitor is in charge of the child until it hands it back, or until the attempt is
settled as the child says. -/
def entrustedPhases (hb : cond.Le (base lib).established) (ha : cond.Le (attempts lib).established)
    (hrc : cond.Le (recordsAttempts lib)) (config : Config) (a : TaskRunAttempt) :
    Phases (entrusted lib) cond config a (InMapBut none) :=
  have hsilent : ∀ o, Silent o → KeepsCommands o := fun _ h => h.keepsCommands
  { held child w := child.verdict = none ∧ InCharge a.id child w
    decided child status w := SettlesAs child status ∧ InCharge a.id child w
    ending child status w := SettlesAs child status ∧ InCharge a.id child w
    dead child status w := SettlesAs child status ∧ InCharge a.id child w
    received status w := ∃ child, SettlesAs child status ∧ InCharge a.id child w
    refused _ w := ∃ child, child.verdict = none ∧ InCharge a.id child w
    settling status w := ∃ child, SettlesAs child status ∧ InCharge a.id child w
    derive child := by
      refine Triple.of_fact (fun _ _ h => h.1) fun hnone => ?_
      refine (deriveNextStatus_triple (inCharge_stable hb ha hrc a.id child)
        fun o ho w _ _ _ hw hperf => ⟨ho.keepsCommands.entrusted_pre _ w, fun _ =>
          inCharge_kept hb ho.keepsCommands hperf hw⟩).conseq (fun _ _ h => h.2) ?_
      intro r w hi h
      cases r with
      | error e => exact ⟨hnone, h⟩
      | ok status => cases status <;> first
          | exact h
          | exact ⟨hnone, h⟩
          | exact ⟨settlesAs_of_none hnone nofun nofun, h⟩
          | exact ⟨settlesAs_of_none hnone nofun nofun, h.1⟩
    note child status := outcome_fact (inCharge_through hb ha hrc
      (noteTimeout_uses hsilent a attemptOutput_keeps child status)
      (noteTimeout_goesThrough a child status))
    wait child status o ho := by
      have hkeeps : KeepsCommands o := by rcases ho with rfl | rfl | rfl <;> exact ⟨trivial, id⟩
      exact outcome_fact (inCharge_through hb ha hrc (uses_op hkeeps)
        (goesThrough_op (by rcases ho with rfl | rfl | rfl <;> trivial)))
    kill child status := outcome_fact (inCharge_through hb ha hrc
      (uses_op (by exact ⟨trivial, id⟩)) (goesThrough_op (by trivial)))
    receive child status := (outcome_fact (inCharge_through hb ha hrc
      (finishReading_uses a attemptOutput_keeps child ⟨trivial, id⟩ ⟨trivial, id⟩)
      (finishReading_goesThrough a child))).post fun r _ _ h => by
        cases r with
        | ok _ => exact ⟨child, h⟩
        | error _ => exact h
    result := Triple.of_exists fun child => (outcome_fact (inCharge_through hb ha hrc
      ((readTaskOutput_silent config a).mono hsilent)
      (readTaskOutput_goesThrough config a))).post fun r _ _ h => by
        rcases r with _ | _ | _
        · exact h
        · refine ⟨child, Option.eq_none_iff_forall_ne_some.mpr fun verdict hverdict => ?_, h.2⟩
          obtain ⟨rfl, hne⟩ := h.1.2.2 verdict hverdict
          exact hne rfl
        · exact ⟨child, h⟩
    refuse _ := Triple.of_exists fun child => (outcome_fact (inCharge_through hb ha hrc
      (insertOutput_uses a attemptOutput_keeps _ _) (insertOutput_goesThrough a _ _))).post
        fun r _ _ h => by
          cases r with
          | ok _ => exact ⟨child, settlesAs_of_none h.1 nofun nofun, h.2⟩
          | error _ => exact h
    settle _ _ _ _ h := h
    finish status output := Triple.of_exists fun child => Triple.of_fact (fun _ _ h => h.1)
      fun hstatus => (entrusted_finish hb ha hrc hstatus output).pre fun _ _ h => h.2
    putBack _ := (entrusted_insert hb ha hrc fun _ h => h).pre fun _ _ h => h.2
    keep child := (recordAndPutBack_triple
      (inCharge_uses hb ha hrc (recordOutput_uses a attemptOutput_keeps child ⟨trivial, id⟩))
      (entrusted_insert hb ha hrc fun _ h => h)).pre fun _ _ h => h.2
    keepEnding child termination := by
      refine Triple.of_fact (fun _ _ h => h.1) fun hstatus => ?_
      refine (recordAndPutBack_triple
        (inCharge_uses hb ha hrc (recordOutput_uses a attemptOutput_keeps _ ⟨trivial, id⟩))
        (entrusted_insert hb ha hrc fun verdict hverdict => ?_)).pre fun _ _ h => h.2
      exact congrArg some (hstatus.2.2 verdict hverdict).1 }

include hb ha hrc in
theorem entrusted_monitor (config : Config) (a : TaskRunAttempt) :
    (entrusted lib).Triple cond thread (fun w => InMapBut none w ∧ AttemptAt thread a.id w)
      (handleRunningTaskRunAttempt config a) fun _ => InMapBut none := by
  refine Triple.bind (entrusted_remove hb ha hrc) (fun child => ?_) fun _ _ _ h => h
  cases child with
  | none => exact (entrusted_setToInvalid hb hrc).pre fun _ _ h => ⟨h.1, h.2.1.2.1, h.2.2⟩
  | some child =>
      refine Triple.of_fact (fun _ _ h => h.1) fun hchild => ?_
      dsimp only
      split
      · rename_i termination hterminating
        have hends := hchild termination hterminating
        have hverdict : child.verdict = some termination.status := by
          unfold TaskRunAttemptChild.verdict
          rw [hterminating]
          rfl
        have hsettles : SettlesAs child termination.status := by
          refine ⟨?_, ?_, fun verdict h => ?_⟩
          · rcases hends with h | h <;> rw [h] <;> nofun
          · rcases hends with h | h <;> rw [h] <;> nofun
          · cases hverdict.symm.trans h
            exact ⟨rfl, by rcases hends with h | h <;> rw [h] <;> nofun⟩
        exact ((entrustedPhases hb ha hrc config a).handleTerminating child hterminating
          (hsettles.2.2 _ hverdict).2).pre fun _ _ h => ⟨hsettles, h.2⟩
      · rename_i hnone
        refine ((entrustedPhases hb ha hrc config a).handleChild child).pre fun _ _ h => ⟨?_, h.2⟩
        unfold TaskRunAttemptChild.verdict
        rw [hnone]
        rfl

end Monitor

/-! ## The dispatcher -/

section Dispatcher

open TaskRunAttemptDispatcher

variable (hb : cond.Le (base lib).established) (ha : cond.Le (attempts lib).established)
  (hrc : cond.Le (recordsAttempts lib)) {a : TaskRunAttempt}

/-- The dispatcher is at this attempt, and has begun no spawn but one for the other. -/
def AtUnbegun (begun : Option Nat) (id : Nat) (w : World) : Prop :=
  AttemptAt thread id w ∧ UnbegunBut begun w

/-- If the attempt is there, its child is in the map. -/
def PlacedIfThere (id : Nat) (w : World) : Prop :=
  ∀ x, w.db.taskRunAttempts.find id = some x → (w.children id).isSome = true

/-- What moves no child, and says nothing of an attempt's start or status. -/
def LeavesUnbegun (o : Op) : Prop := KeepsStatus o ∧ ¬ MovesChild o ∧ MarksNone o

theorem Reads.leavesUnbegun {o : Op} (h : Reads o) : LeavesUnbegun o := by
  refine ⟨h.1.keepsStatus, h.1.keepsCommands.2, ?_⟩
  cases o with
  | write => exact h.1.elim
  | _ => trivial

theorem Silent.leavesUnbegun {o : Op} (h : Silent o) : LeavesUnbegun o := by
  refine ⟨h.keepsStatus, h.keepsCommands.2, ?_⟩
  cases o with
  | write => exact h.elim
  | _ => trivial

include hb ha in
theorem atUnbegun_stable (begun : Option Nat) (id : Nat) :
    (entrusted lib).Stable cond thread (AtUnbegun begun id) :=
  (attemptAt_stable hb (meetsAttempts ha) _ id).and (UnbegunBut.stable hb begun)

include hb ha in
theorem atUnbegun_uses {α : Type} {begun : Option Nat} {id : Nat} {p : Code α}
    (hp : p.Uses LeavesUnbegun) :
    (entrusted lib).Triple cond thread (AtUnbegun begun id) p fun _ => AtUnbegun begun id :=
  Triple.of_uses (atUnbegun_stable hb ha begun id) (hp.mono fun _ ho w _ _ _ hw hperf =>
    ⟨KeepsCommands.entrusted_pre ⟨ho.1, ho.2.1⟩ _ w, fun _ =>
      ⟨(attemptAt_keeps ho.1 hw.1 hperf).2, unbegunBut_kept hb ho.2.2 hperf hw.2⟩⟩)

/-- A write to one attempt says nothing of the others. -/
theorem unbegunBut_update {t : Tid} {id : Nat} {i : UpdateTaskRunAttemptsInput} {w w' : World}
    {r : Result (.write (.updateTaskRunAttempts { id := some id } i))}
    (h : Performs cond t (.write (.updateTaskRunAttempts { id := some id } i)) w r w')
    (hw : UnbegunBut (some id) w) :
    UnbegunBut (some id) w' := by
  intro n x' hx' hstatus hne
  rcases taskRunAttempt_origin h hx' with hx | ⟨_, _, ho, -⟩ | ⟨x, hx, f, j, ho, -, hf, rfl⟩
  · exact hw n x' hx hstatus hne
  · cases ho
  · cases ho
    have hid : x.id = id := updateTaskRunAttemptsFilter_holds rfl hf
    exact absurd (congrArg some (hid.symm.trans (Table.key_of_find hx))) hne

include hb ha hrc in
/-- A write to the attempt the dispatcher is at goes through, and leaves the others alone. -/
theorem entrusted_update {P Q W : World → Prop} {i : UpdateTaskRunAttemptsInput}
    (hP : (entrusted lib).Stable cond thread P)
    (hpre : ∀ w, AtUnbegun (some a.id) a.id w → P w → (entrusted lib).pre thread
      (.write (.updateTaskRunAttempts { id := some a.id } i)) w)
    (hQ : ∀ w r w', AtUnbegun (some a.id) a.id w → P w →
      Performs cond thread (.write (.updateTaskRunAttempts { id := some a.id } i)) w (.ok r) w' →
      UnbegunBut (some a.id) w' → Q w') :
    (entrusted lib).Triple cond thread (fun w => AtUnbegun (some a.id) a.id w ∧ P w)
      (updateTaskRunAttempts { id := some a.id } i) (Outcome Q W) := by
  refine Triple.perform ((atUnbegun_stable hb ha _ a.id).and hP)
    (fun w _ _ _ hw _ => hpre w hw.1 hw.2) fun w r w' _ hw hperf _ => ?_
  cases r with
  | error e => exact (hrc.1 _ _ _ _ _ hperf.2).elim
  | ok r => exact hQ w r w' hw.1 hw.2 hperf (unbegunBut_update hperf hw.1.2)

include hb ha in
/-- What is settled before a spawn is begun is no sign of one. -/
theorem entrusted_settle :
    (entrusted lib).Triple cond thread (AtUnbegun none a.id) (settle a .skipped)
      fun _ => UnbegunBut none := by
  refine Triple.bind (atUnbegun_uses hb ha (now_silent.mono fun _ h => h.leavesUnbegun))
    (fun now => ?_) fun _ _ _ h => h.2
  refine Triple.perform (atUnbegun_stable hb ha none a.id) (fun w r w' _ hw _ => ?_)
    fun w r w' _ hw hperf _ => unbegunBut_kept hb (by exact rfl) hperf hw.2
  rintro status id hset - x -
  cases hset
  exact ⟨nofun, nofun, nofun⟩

include hb ha hrc in
/-- The monitor takes no child of an attempt that is queued. -/
theorem placedIfThere_stable (id : Nat) : (entrusted lib).Stable cond thread fun w =>
    AttemptAt thread id w ∧ PlacedIfThere id w := by
  intro w w' hothers ⟨hat, hw⟩
  refine ⟨attemptAt_stable hb (meetsAttempts ha) _ id w w' hothers hat, ?_⟩
  cases hothers with
  | run hu _ _ hpre hperf =>
      intro x' hx'
      obtain ⟨x, hx, -⟩ := attemptStatus_performs hperf hat.2.1 hx'
      rcases children_cases hperf with ⟨id', child, rfl, heq⟩ | ⟨id', rfl, heq⟩ | ⟨-, -, heq⟩
      · rw [heq, Function.update_apply]
        split
        · rfl
        · exact hw x hx
      · have hne : id ≠ id' := by
          rintro rfl
          have hrunning := hpre.2 x hx
          rw [show x.status = .queued from hat.2.2 x hx] at hrunning
          cases hrunning
        rw [heq, Function.update_of_ne hne]
        exact hw x hx
      · rw [heq]
        exact hw x hx
  | env _ _ _ hhappens =>
      unfold PlacedIfThere
      rw [happens_db hhappens, children_happens hrc hhappens]
      exact hw

include hb ha hrc in
/-- Only once its child is in the map does the attempt read running. -/
theorem entrusted_handOver (child : TaskRunAttemptChild) (processGroupId : Nat) :
    (entrusted lib).Triple cond thread (AtUnbegun (some a.id) a.id)
      (handOver a child processGroupId) fun _ => UnbegunBut none := by
  have hinsert : (entrusted lib).Triple cond thread (AtUnbegun (some a.id) a.id)
      (Crud.perform (.childrenInsert a.id child)) fun _ w => AtUnbegun (some a.id) a.id w ∧
        AttemptAt thread a.id w ∧ PlacedIfThere a.id w := by
    refine Triple.perform (atUnbegun_stable hb ha _ a.id)
      (fun w _ _ _ hw _ => ⟨fun _ x hx => hw.1.2.2 x hx, nofun⟩) fun w r w' _ hw hperf _ => ?_
    have hat' := (attemptAt_keeps (by trivial) hw.1 hperf).2
    refine ⟨⟨hat', unbegunBut_kept hb (by trivial) hperf hw.2⟩, hat', fun _ _ => ?_⟩
    rcases children_cases hperf with ⟨id, child', ho, heq⟩ | ⟨id, ho, -⟩ | ⟨hnone, -, -⟩
    · cases ho
      rw [heq, Function.update_self]
      rfl
    · cases ho
    · exact absurd rfl (hnone _ _)
  refine Triple.bind (Triple.infallible (Q := UnbegunBut none) (by trivial) hinsert)
    (fun _ => ?_) fun _ _ _ h => h
  refine (entrusted_update (Q := UnbegunBut none) (W := UnbegunBut none) hb ha hrc
    (placedIfThere_stable hb ha hrc a.id) (fun w _ hw => ?_) fun w r w' hw _ hperf hw' => ?_).post
    fun r _ _ h => by cases r <;> exact h
  · rintro status id hset hid x hx
    cases hset
    cases hid
    exact ⟨nofun, fun _ => hw.2 x hx, nofun⟩
  · intro n x' hx' hqueued _
    refine hw' n x' hx' hqueued ?_
    rintro ⟨⟩
    obtain ⟨x, -, rfl⟩ := updateTaskRunAttempts_row hperf hx'
    cases hqueued

include hb ha hrc in
/-- The mark is there while a spawn is under way, and is taken back if nothing was started. -/
theorem entrusted_setToRunning (config : Config) :
    (entrusted lib).Triple cond thread (AtUnbegun none a.id) (setToRunning lib config a)
      fun _ => UnbegunBut none := by
  refine Triple.bind (atUnbegun_uses hb ha (prepare_uses (fun _ h => h.leavesUnbegun)
    (fun _ _ => ⟨trivial, id, trivial⟩) lib config a)) (fun (taskRun, command) => ?_)
    fun _ _ _ h => h.2
  refine Triple.bind (atUnbegun_uses hb ha (now_silent.mono fun _ h => h.leavesUnbegun))
    (fun startedAt => ?_) fun _ _ _ h => h.2
  refine Triple.bind ((entrusted_update (a := a) (P := fun _ => True)
    (Q := AtUnbegun (some a.id) a.id) (W := UnbegunBut none)
    (i := { startedAt := some (some startedAt) }) hb ha hrc (stable_true _)
    (fun w _ _ => KeepsCommands.entrusted_pre (by exact ⟨rfl, id⟩) _ w)
    fun w r w' hw _ hperf hw' => ⟨(attemptAt_keeps (by exact rfl) hw.1 hperf).2, hw'⟩).pre
    fun w _ hw => ⟨⟨hw.1, fun n x hx hqueued _ => hw.2 n x hx hqueued nofun⟩, trivial⟩)
    (fun _ => ?_) fun _ _ _ h => h
  have hspawn : (entrusted lib).Triple cond thread (AtUnbegun (some a.id) a.id)
      (Crud.perform (.spawn a.id command startedAt)) fun _ => AtUnbegun (some a.id) a.id :=
    Triple.perform (atUnbegun_stable hb ha _ a.id) (fun _ _ _ _ _ _ => trivial)
      fun w r w' _ hw hperf _ =>
        ⟨(attemptAt_keeps (by trivial) hw.1 hperf).2, unbegunBut_kept hb (by trivial) hperf hw.2⟩
  refine Triple.bind (Triple.attempt (Q := Outcome (AtUnbegun (some a.id) a.id) fun _ => False)
    (hspawn.conseq (fun _ _ h => h) fun _ _ _ h => h)) (fun spawned => ?_) fun _ _ _ h => h.elim
  cases spawned with
  | error e =>
      refine Triple.bind ((entrusted_update (a := a) (P := fun _ => True) (Q := UnbegunBut none)
        (W := UnbegunBut none) (i := { startedAt := some none }) hb ha hrc (stable_true _)
        (fun w _ _ => KeepsCommands.entrusted_pre (by exact ⟨rfl, id⟩) _ w)
        fun w r w' hw _ hperf hw' n x' hx' hqueued _ => ?_).pre fun w _ hw => ⟨hw, trivial⟩)
        (fun _ => Triple.throw fun _ _ h => h) fun _ _ _ h => h
      by_cases hn : a.id = n
      · subst hn
        obtain ⟨x, -, rfl⟩ := updateTaskRunAttempts_row hperf hx'
        rfl
      · exact hw' n x' hx' hqueued (by simpa using hn)
  | ok spawned =>
      exact entrusted_handOver hb ha hrc (childOf taskRun startedAt spawned.1) spawned.2

/-- Of an attempt that is not marked as started, the dispatcher derives no `.invalid`. -/
theorem TaskRunAttemptDispatcher.derive_ends (config : Config) (hunbegun : a.startedAt = none) :
    (deriveNextStatus config a).Ends fun status =>
      status = .skipped ∨ status = .queued ∨ status = .running := by
  unfold deriveNextStatus
  simp only [hunbegun, Option.isSome_none, Bool.false_eq_true, if_false]
  refine (Prog.ends_bind _ _).mpr (.of_forall _ fun isStopped => ?_)
  cases isStopped with
  | true => exact .inl rfl
  | false =>
      refine (Prog.ends_bind _ _).mpr (.of_forall _ fun stayQueued => ?_)
      cases stayQueued with
      | true => exact .inr (.inl rfl)
      | false => exact .inr (.inr rfl)

include hb ha hrc in
theorem entrusted_dispatcher (config : Config) (hunbegun : a.startedAt = none) :
    (entrusted lib).Triple cond thread (AtUnbegun none a.id)
      (handleQueuedTaskRunAttempt lib config a) fun _ => UnbegunBut none := by
  refine Triple.bind (Triple.ends (atUnbegun_uses hb ha ((deriveNextStatus_silent config a).mono
    fun _ h => h.leavesUnbegun)) (derive_ends config hunbegun)) (fun status => ?_)
    fun _ _ _ h => h.1.2
  refine Triple.of_fact (fun _ _ h => h.2 status rfl) fun hstatus => ?_
  refine Triple.pre (W := AtUnbegun none a.id) ?_ fun _ _ h => h.1
  rcases hstatus with rfl | rfl | rfl
  · exact entrusted_settle hb ha
  · exact Triple.ret fun _ _ h => h.2
  · exact entrusted_setToRunning hb ha hrc config

include hb ha hrc in
/-- The attempts selected were not marked, as no spawn is under way between two of them. -/
theorem entrusted_dispatches (config : Config) :
    (entrusted lib).Triple cond thread (fun w => UnbegunBut none w ∧ Running thread w)
      (poller lib config).pass fun _ => UnbegunBut none := by
  refine Poller.pass_triple (K := fun (x : TaskRunAttempt) w =>
    AttemptAt thread x.id w ∧ x.startedAt = none) (R := fun x y : TaskRunAttempt => x.id ≠ y.id)
    ?_ (fun x => (attemptAt_stable hb (meetsAttempts ha) _ x.id).and ((Permanent.const _).stable _))
    (fun x => ?_)
    fun x y hxy => (handles lib config x).mono fun o ho w r w' _ _ _ hperf hat =>
      ⟨attemptAt_frame hxy ho.2 (by rintro rfl; cases ho.1) hperf hat.1, hat.2⟩
  · refine (Triple.selectTaskRunAttempts ((UnbegunBut.stable hb none).and (Running.stable hb _))
      (fun w r h => ⟨h.1, running_log.mpr h.2⟩) (fun _ _ => trivial)
      fun w r x _ hw hfind hholds => ?_).post fun _ _ _ h => ⟨h.1.1, h.2⟩
    have hqueued : x.status = .queued := by simpa [SelectTaskRunAttemptsFilter.holds] using hholds
    refine ⟨⟨running_log.mpr hw.2, Table.lt_next_of_find (t := w.db.taskRunAttempts) hfind,
      fun y hy => ?_⟩, hw.1 x.id x hfind hqueued (by simp)⟩
    cases hfind.symm.trans hy
    exact hqueued
  · exact Triple.of_fact (fun _ _ h => h.2.2) fun hunbegun =>
      (entrusted_dispatcher hb ha hrc config hunbegun).pre fun _ _ h => ⟨h.2.1, h.1⟩

end Dispatcher

/-! ## The outline holds -/

theorem entrusted_fresh : Entrusted .fresh where
  placed _ _ h := nomatch h
  up _ _ h := nomatch h
  valid _ _ h := nomatch h

/-- Recovery is over before an attempt is running, and nobody else has an attempt to write. -/
theorem entrusted_others (hb : cond.Le (base lib).established)
    (ha : cond.Le (attempts lib).established) {t : Tid} (ht : ¬ HasChildren t) {o : Op}
    {w w' : World} {r : Result o} (hi : Entrusted w) (h : Performs cond t o w r w') :
    (entrusted lib).pre t o w := by
  have hallowed := allowed_of hb h
  cases o with
  | childrenInsert =>
      exact ⟨fun hdispatcher => absurd (.inl hdispatcher) ht,
        fun hmonitor => absurd (.inr hmonitor) ht⟩
  | childrenRemove => exact absurd (.inr hallowed) ht
  | write q =>
      cases q
      case updateTaskRunAttempts f i =>
        intro status id hset hid x hx
        cases hallowed with
        | dropAttempt => exact absurd (.inl rfl) ht
        | markStarted => cases hset
        | startAttempt => exact absurd (.inl rfl) ht
        | settleAttempt => exact absurd (.inr rfl) ht
        | recoverAttempt =>
            obtain ⟨config, hstarting⟩ := running_of hb h
            have hkey : x.id = id := Table.key_of_find hx
            have hholds := (ha.1 _ _ _ _ _ h.2).2.1 _ _ rfl (by rw [hset]; rfl) id x hx
            obtain ⟨config', hup⟩ := hi.up id x hx (hholds (by
              cases hid
              simp [UpdateTaskRunAttemptsFilter.holds, hkey]))
            rw [hup] at hstarting
            cases hstarting
        | wait => cases hset
      all_goals trivial
  | _ => trivial

theorem entrusted_valid (hb : cond.Le (base lib).established)
    (ha : cond.Le (attempts lib).established) (hrc : cond.Le (recordsAttempts lib)) :
    (entrusted lib).Valid cond where
  init := by
    rintro w rfl
    refine ⟨entrusted_fresh, fun t => ?_⟩
    have hmap : InMapBut none .fresh := fun _ _ h => nomatch h
    have hunbegun : UnbegunBut none .fresh := fun _ _ h => nomatch h
    cases t with
    | client n => trivial
    | service s => cases s <;> trivial
  step _ _ _ _ _ hi hpre hperf := entrusted_step hb hi hpre hperf
  env := by
    intro w w' kill hi hhappens
    refine ⟨entrusted_happens hrc hi hhappens, fun t hkill => ?_⟩
    obtain ⟨e, he, hcond⟩ := hhappens
    cases t with
    | client n => trivial
    | service s => exact absurd (external_service he hkill) (no_crash hrc hcond)
  idle t := by
    cases t with
    | client n => exact stable_true _
    | service s => cases s <;> first
        | exact stable_true _
        | exact InMapBut.stable hb hrc none
        | exact UnbegunBut.stable hb none
  start := by
    have hothers : ∀ {t : Tid}, ¬ HasChildren t → ∀ {P : World → Prop} (p : Code Unit),
        (entrusted lib).Triple cond t P p fun _ _ => True := by
      intro t ht P p
      refine Triple.pre (W := fun _ => True) ?_ fun _ _ _ => trivial
      exact Triple.of_pre fun o w r w' hi hperf => entrusted_others hb ha ht hi hperf
    refine start_triple (fun config fuel s => ?_) fun c r => hothers (by rintro (h | h) <;> cases h) _
    cases s with
    | taskRunAttemptDispatcher => exact entrusted_dispatches hb ha hrc config
    | taskRunAttemptMonitor =>
        exact attemptAt_pass hb (meetsAttempts ha) (by exact rfl) (InMapBut.stable hb hrc none)
          (fun _ _ _ _ h => h) (fun o w ho _ => ho.keepsCommands.entrusted_pre _ w)
          (fun a => (entrusted_monitor hb ha hrc config a).pre fun _ _ h => ⟨h.1, h.2.1⟩)
          (TaskRunAttemptMonitor.handle_on config)
    | _ => exact hothers (by rintro (h | h) <;> cases h) _

end Flowlite

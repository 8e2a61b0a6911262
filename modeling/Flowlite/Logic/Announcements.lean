import Flowlite.Logic.JobRuns

/-!
# Announcements

A notification is open until the service has recorded what became of it, so what
keeps a message from going out twice is that nothing comes between the send and its
record: a record that fails, or a crash in that moment, leaves an open row whose
message is out. `recordsSends` is that condition, and `announcements` the outline
that says one send a row is then all there is, each of them about a run that has
ended as the row wants.
-/

namespace Flowlite

open Store Host Threads Crud Machine Outline

variable {lib : Library} {cond : (flowlite lib).Condition}

/-! ## Sends in the log -/

/-- The row an event of the log is a send for. -/
def Host.Event.announces (e : Host.Event) : Option Nat :=
  match e.op with
  | .sendNotification n _ _ _ => some n.id
  | _ => none

/-- How often a message was handed to a channel for a notification. -/
def Host.World.sends (w : World) (id : Nat) : Nat :=
  w.log.countP fun e => e.announces = some id

/-- The row whose send is the last thing the log has of any: it is out, and not
recorded. -/
def unrecorded : List Host.Event → Option Nat
  | [] => none
  | e :: rest =>
      match e.op, e.result with
      | .sendNotification n _ _ _, _ => some n.id
      | .write (.updateJobRunNotification _ _), .ok _ => none
      | _, _ => unrecorded rest

/-- No write that records a send fails, and `serve` does not end between a send and
its record. -/
def recordsSends (lib : Library) : (flowlite lib).Condition where
  step _ o _ r _ :=
    match o, r with
    | .write (.updateJobRunNotification _ i), .error _ => i.status = some .skipped
    | _, _ => True
  env e w _ :=
    match e with
    | .crash => unrecorded w.log = none
    | _ => True

instance : (recordsSends lib).Checked where
  step t o w r w' := by
    rcases o with _ | q
    case write =>
      rcases q
      case updateJobRunNotification id i => rcases r <;> (dsimp only [recordsSends]; infer_instance)
      all_goals exact isTrue trivial
    all_goals exact isTrue trivial
  env e w w' := by
    rcases e <;> (dsimp only [recordsSends]; infer_instance)

theorem announces_eq {t : Tid} {o : Op} {r : Result o} {id : Nat}
    (h : (Host.Event.mk t o r).announces = some id) :
    ∃ n channel recipients message, o = .sendNotification n channel recipients message ∧
      n.id = id := by
  unfold Host.Event.announces at h
  dsimp only at h
  split at h
  · cases h
    exact ⟨_, _, _, _, rfl, rfl⟩
  · cases h

/-- The operations that send, or record. -/
def Notifies : Op → Prop
  | .sendNotification _ _ _ _ | .write (.updateJobRunNotification _ _) => True
  | _ => False

theorem Silent.not_notifies {o : Op} (h : Silent o) : ¬ Notifies o := by
  cases o <;> first | exact id | exact h.elim

/-- Nobody but the notification service does either. -/
theorem notifies_thread {t : Tid} {o : Op} (h : Allowed t o) (ho : Notifies o) :
    t = .service .notifications := by
  cases o with
  | sendNotification => exact h
  | write q =>
      cases q
      case updateJobRunNotification =>
        cases h with
        | notify _ => rfl
      all_goals exact ho.elim
  | _ => exact ho.elim

section Steps

variable {t : Tid} {o : Op} {w w' : World} {r : Result o}

theorem unrecorded_kept {e : Host.Event} (ho : ¬ Notifies e.op) (log : List Host.Event) :
    unrecorded (e :: log) = unrecorded log := by
  obtain ⟨t, o, r⟩ := e
  cases o with
  | sendNotification => exact absurd trivial ho
  | write q =>
      cases q
      case updateJobRunNotification => exact absurd trivial ho
      all_goals rfl
  | _ => rfl

theorem announces_none {e : Host.Event} (ho : ¬ Notifies e.op) : e.announces = none := by
  obtain ⟨t, o, r⟩ := e
  cases o with
  | sendNotification => exact absurd trivial ho
  | _ => rfl

theorem sends_cons (w : World) (e : Host.Event) (id : Nat) :
    ({ w with log := e :: w.log } : World).sends id =
      w.sends id + if e.announces = some id then 1 else 0 := by
  unfold Host.World.sends
  rw [List.countP_cons]
  simp

theorem sends_performs (h : Performs cond t o w r w') (id : Nat) :
    w'.sends id = w.sends id + if (Host.Event.mk t o r).announces = some id then 1 else 0 := by
  unfold Host.World.sends
  rw [log_performs h, List.countP_cons]
  simp

theorem sends_kept (h : Performs cond t o w r w') (ho : ¬ Notifies o) (id : Nat) :
    w'.sends id = w.sends id := by
  rw [sends_performs h id, announces_none ho]
  rfl

/-- A send that is not recorded is a send. -/
theorem sends_of_unrecorded {w : World} {id : Nat} (h : unrecorded w.log = some id) :
    0 < w.sends id := by
  unfold Host.World.sends
  generalize w.log = log at h
  induction log with
  | nil => cases h
  | cons e rest ih =>
      rw [List.countP_cons]
      unfold unrecorded at h
      split at h
      · rename_i n channel recipients message _ hop _
        cases h
        have : e.announces = some n.id := by
          unfold Host.Event.announces
          rw [hop]
        rw [if_pos (by simpa using this)]
        exact Nat.succ_pos _
      · cases h
      · exact Nat.add_pos_left (ih h) _

end Steps

/-! ## What a send is about -/

/-- The row this notification was written as, as far as it is still there. -/
def Host.World.HasNotification (w : World) (n : JobRunNotification) : Prop :=
  n.id < w.db.jobRunNotifications.next ∧
    ∀ x, w.db.jobRunNotifications.find n.id = some x →
      x = { n with status := x.status, error := x.error, sentAt := x.sentAt }

/-- The message reports an end of its run that the notification asks for, and the run
has not ended otherwise since. -/
structure Announced (w : World) (n : JobRunNotification) (message : JobRunMessage) : Prop where
  run : message.jobRun.id = n.jobRunId
  wanted : Notifications.wants n.notifyOn message.jobRun.status = true
  final : JobRunIs message.jobRun.id message.jobRun.status w
  row : w.HasNotification n

/-- What is wanted is an end, and not the one that may be written over. -/
theorem wants_finished {notifyOn : NotifyOn} {status : JobRunStatus}
    (h : Notifications.wants notifyOn status = true) :
    status.isFinished = true ∧ status ≠ .deleted := by
  unfold Notifications.wants at h
  split at h <;> first | exact ⟨rfl, nofun⟩ | cases h

/-- No ending is wanted both ways. -/
theorem wants_unique {a b : NotifyOn} {status : JobRunStatus}
    (ha : Notifications.wants a status = true) (hb : Notifications.wants b status = true) :
    a = b := by
  cases a <;> cases b <;> first
    | rfl
    | cases status <;> first | exact absurd ha (by decide) | exact absurd hb (by decide)

theorem hasNotification_of_find {w : World} {n : JobRunNotification}
    (h : w.db.jobRunNotifications.find n.id = some n) : w.HasNotification n :=
  ⟨Table.lt_next_of_find h, fun x hx => by rw [h] at hx; cases hx; rfl⟩

section Kept

variable {t : Tid} {o : Op} {w w' : World} {r : Result o}

theorem hasNotification_performs (h : Performs cond t o w r w') {n : JobRunNotification}
    (hn : w.HasNotification n) : w'.HasNotification n := by
  refine ⟨lt_of_lt_of_le hn.1 (jobRunNotifications_next_le h), fun x' hx' => ?_⟩
  rcases jobRunNotification_origin h hx' with hx | ⟨i, now, -, -, hid, -⟩ | ⟨x, i, hx, -, -, rfl⟩
  · exact hn.2 x' hx
  · exact absurd hn.1 (by omega)
  · have hsame : x = _ := hn.2 x hx
    rw [hsame]
    rfl

theorem announced_performs (hj : cond.Le (jobRuns lib).established)
    (h : Performs cond t o w r w') {n : JobRunNotification} {message : JobRunMessage}
    (ha : Announced w n message) : Announced w' n message where
  run := ha.run
  wanted := ha.wanted
  final :=
    have hend := wants_finished ha.wanted
    jobRunIs_performs hj hend.1 (fun hdeleted => absurd hdeleted hend.2) ha.final h
  row := hasNotification_performs h ha.row

theorem announced_happens {kill : Tid → Bool} (h : Happens cond w w' kill)
    {n : JobRunNotification} {message : JobRunMessage} (ha : Announced w n message) :
    Announced w' n message where
  run := ha.run
  wanted := ha.wanted
  final := jobRunIs_happens h ha.final
  row := by
    unfold Host.World.HasNotification
    rw [happens_db h]
    exact ha.row

end Kept

/-- Every send about this run reported this status of it. -/
def Alike (w : World) (jobRun : JobRun) : Prop :=
  ∀ e ∈ w.log, ∀ n channel recipients message,
    e.op = .sendNotification n channel recipients message →
      message.jobRun.id = jobRun.id → message.jobRun.status = jobRun.status

/-! ## The outline -/

/-- One send a row; every send about an end that is wanted; and a row is open after
its send for as long as that is unrecorded. -/
structure Announcements (w : World) : Prop where
  once : ∀ id, w.sends id ≤ 1
  announced : ∀ e ∈ w.log, ∀ n channel recipients message,
    e.op = .sendNotification n channel recipients message →
      channel = n.channel ∧ recipients = n.recipients ∧ Announced w n message ∧
        Alike w message.jobRun
  recorded : ∀ x ∈ w.db.jobRunNotifications.rows,
    (x.status = .pending → 0 < w.sends x.id → unrecorded w.log = some x.id) ∧
      (x.status = .sent ∨ x.status = .failed → 0 < w.sends x.id)

/-- A row that is open, and nothing out for it or any other. -/
def Unannounced (n : JobRunNotification) (w : World) : Prop :=
  w.sends n.id = 0 ∧ w.HasNotification n

/-- What the service knows when it sends, and when it records. -/
def announcements (lib : Library) : Outline (flowlite lib) where
  inv := Announcements
  pre _ o w :=
    match o with
    | .sendNotification n channel recipients message =>
        channel = n.channel ∧ recipients = n.recipients ∧ unrecorded w.log = none ∧
          w.sends n.id = 0 ∧ Announced w n message ∧ Alike w message.jobRun
    | .write (.updateJobRunNotification id i) =>
        i.status = some .skipped ∧ unrecorded w.log = none ∨
          (i.status = some .sent ∨ i.status = some .failed) ∧ unrecorded w.log = some id
    | _ => True
  idle t w := t = .service .notifications → unrecorded w.log = none

theorem notifies_pre {t : Tid} {o : Op} (ho : ¬ Notifies o) (w : World) :
    (announcements lib).pre t o w := by
  cases o with
  | sendNotification => exact absurd trivial ho
  | write q =>
      cases q
      case updateJobRunNotification => exact absurd trivial ho
      all_goals trivial
  | _ => trivial

section Invariant

variable {t : Tid} {o : Op} {w w' : World} {r : Result o}

theorem sends_pos {w : World} {id : Nat} (h : 0 < w.sends id) :
    ∃ e ∈ w.log, ∃ n channel recipients message,
      e.op = .sendNotification n channel recipients message ∧ n.id = id := by
  unfold Host.World.sends at h
  obtain ⟨⟨t, o, r⟩, he, hannounces⟩ := List.countP_pos_iff.mp h
  obtain ⟨n, channel, recipients, message, rfl, hid⟩ := announces_eq (of_decide_eq_true hannounces)
  exact ⟨_, he, n, channel, recipients, message, rfl, hid⟩

/-- What was sent is older than the next row. -/
theorem Announcements.lt_next (hi : Announcements w) {id : Nat} (h : 0 < w.sends id) :
    id < w.db.jobRunNotifications.next := by
  obtain ⟨e, he, n, channel, recipients, message, hop, rfl⟩ := sends_pos h
  exact (hi.announced e he n channel recipients message hop).2.2.1.row.1

/-- What an update that went through made of the row it names. -/
theorem updateJobRunNotification_row {id : Nat} {i : UpdateJobRunNotificationsInput} {a : Unit}
    (h : Performs cond t (.write (.updateJobRunNotification id i)) w (.ok a) w')
    {x' : JobRunNotification} (hx' : w'.db.jobRunNotifications.find id = some x') :
    ∃ x, w.db.jobRunNotifications.find id = some x ∧ x' = i.patch.apply x := by
  obtain ⟨now, hrun⟩ := write_ok h
  simp only [Write.run, Option.some.injEq, Prod.mk.injEq, true_and] at hrun
  rw [← hrun, Table.find_update] at hx'
  obtain ⟨x, hx, rfl⟩ := Option.map_eq_some_iff.mp hx'
  have hkey : x.id = id := Table.key_of_find hx
  exact ⟨x, hx, by simp [hkey]⟩

theorem announced_step (hj : cond.Le (jobRuns lib).established) (hi : Announcements w)
    (hpre : (announcements lib).pre t o w) (h : Performs cond t o w r w') :
    ∀ e ∈ w'.log, ∀ n channel recipients message,
      e.op = .sendNotification n channel recipients message →
        channel = n.channel ∧ recipients = n.recipients ∧ Announced w' n message ∧
          Alike w' message.jobRun := by
  intro e he n channel recipients message hop
  rw [log_performs h] at he
  rcases List.mem_cons.mp he with rfl | hold
  · cases hop
    obtain ⟨hchannel, hrecipients, -, -, hannounced, halike⟩ := hpre
    refine ⟨hchannel, hrecipients, announced_performs hj h hannounced, ?_⟩
    intro e' he' n' channel' recipients' message' hop' hrun
    rw [log_performs h] at he'
    rcases List.mem_cons.mp he' with rfl | he'
    · cases hop'
      rfl
    · exact halike e' he' n' channel' recipients' message' hop' hrun
  · obtain ⟨hchannel, hrecipients, hannounced, halike⟩ :=
      hi.announced e hold n channel recipients message hop
    refine ⟨hchannel, hrecipients, announced_performs hj h hannounced, ?_⟩
    intro e' he' n' channel' recipients' message' hop' hrun
    rw [log_performs h] at he'
    rcases List.mem_cons.mp he' with rfl | he'
    · cases hop'
      -- the send of this step knew of the earlier one
      exact (hpre.2.2.2.2.2 e hold n channel recipients message hop hrun.symm).symm
    · exact halike e' he' n' channel' recipients' message' hop' hrun

theorem recorded_step (hb : cond.Le (base lib).established) (hi : Announcements w)
    (hpre : (announcements lib).pre t o w) (h : Performs cond t o w r w') :
    ∀ x ∈ w'.db.jobRunNotifications.rows,
      (x.status = .pending → 0 < w'.sends x.id → unrecorded w'.log = some x.id) ∧
        (x.status = .sent ∨ x.status = .failed → 0 < w'.sends x.id) := by
  intro x' hx'
  have hfind := Table.find_of_mem hx'
  have hmore : 0 < w.sends x'.id → 0 < w'.sends x'.id := by
    intro hpos
    rw [sends_performs h]
    exact Nat.add_pos_left hpos _
  rcases jobRunNotification_origin h hfind with hx | ⟨i, now, rfl, -, hid, -, hnew⟩ |
    ⟨x, i, hx, rfl, ⟨a, rfl⟩, rfl⟩
  · -- the row is as it was
    obtain ⟨hopen, hclosed⟩ := hi.recorded x' (Table.mem_of_find hx)
    refine ⟨fun hpending hpos => ?_, fun hstatus => hmore (hclosed hstatus)⟩
    by_cases ho : Notifies o
    · cases o with
      | sendNotification n channel recipients message =>
          obtain ⟨-, -, hnone, -⟩ := hpre
          rw [log_performs h]
          by_cases hn : n.id = x'.id
          · exact congrArg some hn
          · have hsends : w'.sends x'.id = w.sends x'.id := by
              rw [sends_performs h, if_neg, Nat.add_zero]
              exact fun heq => hn (Option.some.inj heq)
            rw [hsends] at hpos
            rw [hopen hpending hpos] at hnone
            cases hnone
      | write q =>
          cases q with
          | updateJobRunNotification id i =>
              have hsends : w'.sends x'.id = w.sends x'.id := sends_performs h _
              rw [hsends] at hpos
              have hout := hopen hpending hpos
              rcases hpre with ⟨-, hnone⟩ | ⟨hstatus, hsome⟩
              · rw [hout] at hnone
                cases hnone
              · rw [hout] at hsome
                cases hsome
                cases r with
                | error e => rwa [log_performs h]
                | ok a =>
                    -- the record of this very row closes it
                    obtain ⟨x, -, hrow⟩ := updateJobRunNotification_row h hfind
                    have hset : x'.status = assign i.status x.status :=
                      congrArg JobRunNotification.status hrow
                    rcases hstatus with hstatus | hstatus <;>
                      rw [hpending, hstatus] at hset <;> cases hset
          | _ => exact ho.elim
      | _ => exact ho.elim
    · rw [sends_kept h ho] at hpos
      rw [log_performs h, unrecorded_kept ho]
      exact hopen hpending hpos
  · -- a new row is open, and nothing was sent for it
    have hstatus : i.status = .pending := by
      cases allowed_of hb h with
      | submitNotification _ hstatus => exact hstatus
    have hx'status : x'.status = .pending := by rw [hnew]; exact hstatus
    refine ⟨fun _ hpos => ?_, fun hclosed => ?_⟩
    · rw [sends_kept h (fun hn => hn)] at hpos
      exact absurd (hi.lt_next hpos) (by rw [show x'.id = _ from hid]; exact lt_irrefl _)
    · rw [hx'status] at hclosed
      rcases hclosed with hclosed | hclosed <;> cases hclosed
  · -- the row is what the record made of it
    rcases hpre with ⟨hstatus, -⟩ | ⟨hstatus, hsome⟩
    · have hset : (i.patch.apply x).status = .skipped := by
        simp [UpdateJobRunNotificationsInput.patch, hstatus]
      rw [hset]
      exact ⟨fun h => (by cases h), fun hclosed => by rcases hclosed with hclosed | hclosed <;> cases hclosed⟩
    · refine ⟨fun hpending => ?_, fun _ => hmore (sends_of_unrecorded hsome)⟩
      rcases hstatus with hstatus | hstatus <;>
        simp [UpdateJobRunNotificationsInput.patch, hstatus] at hpending

theorem announcements_step (hb : cond.Le (base lib).established)
    (hj : cond.Le (jobRuns lib).established) (hi : Announcements w)
    (hpre : (announcements lib).pre t o w) (h : Performs cond t o w r w') :
    Announcements w' where
  once id := by
    rw [sends_performs h]
    by_cases hsend : (Host.Event.mk t o r).announces = some id
    · obtain ⟨n, channel, recipients, message, rfl, rfl⟩ := announces_eq hsend
      rw [if_pos hsend, hpre.2.2.2.1]
    · rw [if_neg hsend]
      exact hi.once id
  announced := announced_step hj hi hpre h
  recorded := recorded_step hb hi hpre h

theorem announcements_happens {kill : Tid → Bool} (hi : Announcements w)
    (h : Happens cond w w' kill) : Announcements w' := by
  have hlog := log_happens h
  have hdb := happens_db h
  have hsends : ∀ id, w'.sends id = w.sends id := fun id => by
    unfold Host.World.sends
    rw [hlog]
  refine ⟨fun id => ?_, fun e he n channel recipients message hop => ?_, fun x hx => ?_⟩
  · rw [hsends]
    exact hi.once id
  · rw [hlog] at he
    obtain ⟨hchannel, hrecipients, hannounced, halike⟩ :=
      hi.announced e he n channel recipients message hop
    refine ⟨hchannel, hrecipients, announced_happens h hannounced, ?_⟩
    unfold Alike
    rw [hlog]
    exact halike
  · rw [hdb] at hx
    rw [hsends, hlog]
    exact hi.recorded x hx

end Invariant

/-! ## The service -/

namespace Notifications

abbrev thread : Tid := .service .notifications

theorem unrecorded_stable (hb : cond.Le (base lib).established) (out : Option Nat) :
    (announcements lib).Stable cond thread fun w => unrecorded w.log = out := by
  intro w w' hothers hw
  cases hothers with
  | run hu _ _ _ hperf =>
      have ho := fun hn => hu (notifies_thread (allowed_of hb hperf) hn)
      rw [log_performs hperf, unrecorded_kept ho]
      exact hw
  | env _ _ _ hhappens => rwa [log_happens hhappens]

theorem unannounced_stable (hb : cond.Le (base lib).established) (n : JobRunNotification) :
    (announcements lib).Stable cond thread (Unannounced n) := by
  rintro w w' hothers ⟨hnone, hrow⟩
  cases hothers with
  | run hu _ _ _ hperf =>
      have ho := fun hn => hu (notifies_thread (allowed_of hb hperf) hn)
      exact ⟨by rw [sends_kept hperf ho, hnone], hasNotification_performs hperf hrow⟩
  | env _ _ _ hhappens =>
      unfold Unannounced Host.World.sends Host.World.HasNotification
      rw [log_happens hhappens, happens_db hhappens]
      exact ⟨hnone, hrow⟩

theorem unannounced_log {n : JobRunNotification} {w : World} {o : Op} {r : Result o}
    (ho : Silent o) (h : Unannounced n w) :
    Unannounced n { w with log := ⟨thread, o, r⟩ :: w.log } := by
  refine ⟨?_, h.2⟩
  rw [sends_cons, announces_none (e := ⟨thread, o, r⟩) ho.not_notifies]
  exact h.1

/-- An open row whose run has been read, and has ended as the row wants. -/
structure Due (n : JobRunNotification) (jobRun : JobRun) (w : World) : Prop where
  recorded : unrecorded w.log = none
  unannounced : Unannounced n w
  run : jobRun.id = n.jobRunId
  final : JobRunIs jobRun.id jobRun.status w
  alike : Alike w jobRun

theorem alike_log {jobRun : JobRun} {w : World} {e : Host.Event} (ho : ¬ Notifies e.op)
    (h : Alike w jobRun) : Alike { w with log := e :: w.log } jobRun := by
  intro e' he' n channel recipients message hop hrun
  rcases List.mem_cons.mp he' with rfl | he'
  · rw [hop] at ho
    exact absurd trivial ho
  · exact h e' he' n channel recipients message hop hrun

theorem due_log {n : JobRunNotification} {jobRun : JobRun} {w : World} {o : Op} {r : Result o}
    (ho : Silent o) (h : Due n jobRun w) :
    Due n jobRun { w with log := ⟨thread, o, r⟩ :: w.log } where
  recorded := (unrecorded_kept (e := ⟨thread, o, r⟩) ho.not_notifies w.log).trans h.recorded
  unannounced := unannounced_log ho h.unannounced
  run := h.run
  final := h.final
  alike := alike_log ho.not_notifies h.alike

theorem due_stable (hb : cond.Le (base lib).established) (hj : cond.Le (jobRuns lib).established)
    {n : JobRunNotification} {jobRun : JobRun} (hwants : wants n.notifyOn jobRun.status = true) :
    (announcements lib).Stable cond thread (Due n jobRun) := by
  have hend := wants_finished hwants
  intro w w' hothers h
  refine ⟨unrecorded_stable hb none w w' hothers h.recorded,
    unannounced_stable hb n w w' hothers h.unannounced, h.run, ?_, ?_⟩
  · cases hothers with
    | run _ _ _ _ hperf =>
        exact jobRunIs_performs hj hend.1 (fun hdeleted => absurd hdeleted hend.2) h.final hperf
    | env _ _ _ hhappens => exact jobRunIs_happens hhappens h.final
  · cases hothers with
    | run hu _ _ _ hperf =>
        have ho := fun hn => hu (notifies_thread (allowed_of hb hperf) hn)
        unfold Alike
        rw [log_performs hperf]
        exact alike_log (w := w) ho h.alike
    | env _ _ _ hhappens =>
        unfold Alike
        rw [log_happens hhappens]
        exact h.alike

/-- Reading a run tells how each message about it was worded. -/
theorem alike_of_find {w : World} (hi : Announcements w) {x : JobRun}
    (hx : w.db.jobRuns.find x.id = some x) : Alike w x := by
  intro e he n channel recipients message hop hrun
  have hannounced := (hi.announced e he n channel recipients message hop).2.2.1
  exact (hannounced.final.2 x (by rw [hrun]; exact hx)).symm

/-- The record of a send goes through. -/
theorem announcements_record (hb : cond.Le (base lib).established)
    (hr : cond.Le (recordsSends lib)) (n : JobRunNotification)
    {i : UpdateJobRunNotificationsInput} (hi : i.status = some .sent ∨ i.status = some .failed) :
    (announcements lib).Triple cond thread (fun w => unrecorded w.log = some n.id) (record n i)
      fun _ w => unrecorded w.log = none := by
  refine Triple.perform (unrecorded_stable hb _) (fun _ _ _ _ hw _ => .inr ⟨hi, hw⟩) ?_
  intro w r w' _ _ hperf _
  rw [log_performs hperf]
  cases r with
  | ok a => rfl
  | error e =>
      have hskipped : i.status = some .skipped := hr.1 _ _ _ _ _ hperf.2
      rw [hskipped] at hi
      rcases hi with hi | hi <;> cases hi

theorem announcements_skip (hb : cond.Le (base lib).established) (n : JobRunNotification) :
    (announcements lib).Triple cond thread (fun w => unrecorded w.log = none)
      (record n { status := some .skipped }) fun _ w => unrecorded w.log = none := by
  refine Triple.perform (unrecorded_stable hb _) (fun _ _ _ _ hw _ => .inl ⟨rfl, hw⟩) ?_
  intro w r w' _ hw hperf _
  rw [log_performs hperf]
  cases r with
  | ok a => rfl
  | error e => exact hw

/-- What is sent is due, and is recorded before anything else is done. -/
theorem announcements_deliver (hb : cond.Le (base lib).established)
    (hj : cond.Le (jobRuns lib).established) (hr : cond.Le (recordsSends lib))
    (n : JobRunNotification) (jobRun : JobRun) (hwants : wants n.notifyOn jobRun.status = true) :
    (announcements lib).Triple cond thread (Due n jobRun) (do
      let taskRuns ← selectTaskRuns { jobRunId := some jobRun.id }
      let failures ← Prog.collect
        (taskRuns.filter fun t => t.status = .failed || t.status = .timedOut) getFailure
      match ← (Crud.perform (.sendNotification n n.channel n.recipients
          { jobRun, taskRuns, failures })).attempt with
      | .error error =>
          record n { status := some .failed, error := some error.text }
          Prog.throw error
      | .ok _ =>
          let now ← now
          record n { status := some .sent, sentAt := some (some now) })
      fun _ w => unrecorded w.log = none := by
  have hsilent : ∀ {α : Type} {p : Code α}, p.Uses Silent →
      (announcements lib).Triple cond thread (Due n jobRun) p fun _ => Due n jobRun :=
    fun hp => Triple.silent hp (due_stable hb hj hwants) (fun _ _ _ ho h => due_log ho h)
      fun _ w ho _ => notifies_pre ho.not_notifies w
  refine Triple.bind (hsilent (selectTaskRuns_silent _)) (fun taskRuns => ?_)
    fun _ _ _ h => h.recorded
  refine Triple.bind (hsilent (Prog.Uses.collect fun r _ => getFailure_silent r))
    (fun failures => ?_) fun _ _ _ h => h.recorded
  refine Triple.bind (R := fun r (w : World) =>
      (∀ e, r ≠ .error e) ∧ unrecorded w.log = some n.id)
    (Triple.attempt (Triple.perform (due_stable hb hj hwants) ?_ ?_)) (fun sent => ?_)
    fun e _ _ h => absurd rfl (h.1 e)
  · intro w r w' _ h _
    exact ⟨rfl, rfl, h.recorded, h.unannounced.1, ⟨h.run, hwants, h.final, h.unannounced.2⟩, h.alike⟩
  · intro w r w' _ _ hperf _
    rw [log_performs hperf]
    exact ⟨nofun, rfl⟩
  · refine Triple.pre ?_ fun _ _ h => h.2
    cases sent with
    | error error =>
        exact Triple.bind (announcements_record hb hr n (.inr rfl))
          (fun _ => Triple.throw fun _ _ h => h) fun _ _ _ h => h
    | ok _ =>
        refine Triple.bind (Triple.now (unrecorded_stable hb _) ?_ ?_)
          (fun now => (announcements_record hb hr n (.inl rfl)).pre fun _ _ h => h.1)
          fun e _ _ h => absurd rfl (h.2 e)
        · exact fun w o r ho h => (unrecorded_kept (e := ⟨thread, o, r⟩) ho.not_notifies _).trans h
        · exact fun _ w ho _ => notifies_pre ho.not_notifies w

/-- One open row: sent about and recorded, closed, or left open. -/
theorem announcements_handle (hb : cond.Le (base lib).established)
    (hj : cond.Le (jobRuns lib).established) (hr : cond.Le (recordsSends lib))
    (n : JobRunNotification) :
    (announcements lib).Triple cond thread
      (fun w => unrecorded w.log = none ∧ Unannounced n w) (handleOpenNotification n)
      fun _ w => unrecorded w.log = none := by
  refine Triple.bind (Triple.getJobRun (K := fun jobRun w => jobRun.id = n.jobRunId ∧
      JobRunIs jobRun.id jobRun.status w ∧ Alike w jobRun)
    ((unrecorded_stable hb none).and (unannounced_stable hb n)) ?_ ?_ ?_) (fun jobRun => ?_)
    fun _ _ _ h => h.1.1
  · exact fun w o r ho h => ⟨(unrecorded_kept (e := ⟨thread, o, r⟩) ho.not_notifies _).trans h.1,
      unannounced_log ho h.2⟩
  · exact fun _ w ho _ => notifies_pre ho.not_notifies w
  · intro w o r x ho hi _ hx
    have hid : x.id = n.jobRunId := Table.key_of_find hx
    rw [← hid] at hx
    refine ⟨hid, ⟨Table.lt_next_of_find (t := w.db.jobRuns) hx, fun y hy => ?_⟩,
      alike_log (e := ⟨thread, o, r⟩) ho.not_notifies (alike_of_find hi hx)⟩
    cases hx.symm.trans hy
    rfl
  split
  · exact Triple.ret fun _ _ h => h.1.1
  split
  · exact (announcements_skip hb n).pre fun _ _ h => h.1.1
  · rename_i hwants
    refine (announcements_deliver hb hj hr n jobRun (by simpa using hwants)).pre fun w _ h => ?_
    obtain ⟨hid, hfinal, halike⟩ := h.2 jobRun rfl
    exact ⟨h.1.1, h.1.2, hid, hfinal, halike⟩

theorem announcements_pass (hb : cond.Le (base lib).established)
    (hj : cond.Le (jobRuns lib).established) (hr : cond.Le (recordsSends lib)) :
    (announcements lib).Triple cond thread (fun w => unrecorded w.log = none) poller.pass
      fun _ w => unrecorded w.log = none := by
  refine Poller.pass_triple (K := Unannounced)
    (R := fun x y : JobRunNotification => x.id ≠ y.id) ?_ (fun n => unannounced_stable hb n)
    (fun n => announcements_handle hb hj hr n) fun x y hxy => ?_
  · refine Triple.select (q := .jobRunNotifications { status := some .pending })
      (Q := fun rows w => rows.Pairwise (fun x y => x.id ≠ y.id) ∧ ∀ x ∈ rows, Unannounced x w)
      (unrecorded_stable hb none) (fun _ _ h => h) (fun _ _ => trivial) fun w hi hw => ?_
    refine ⟨(w.db.jobRunNotifications.ordered.filter _).imp fun h => ne_of_lt h, fun x hx => ?_⟩
    obtain ⟨hrow, hholds⟩ := List.mem_filter.mp hx
    have hpending : x.status = .pending := by
      simpa [SelectJobRunNotificationsFilter.holds] using hholds
    refine unannounced_log trivial ⟨?_, hasNotification_of_find (Table.find_of_mem hrow)⟩
    -- a send for an open row would be unrecorded, and nothing is
    by_contra hsent
    have hout := (hi.recorded x hrow).1 hpending (Nat.pos_of_ne_zero hsent)
    rw [hw] at hout
    cases hout
  · refine handle_uses (P := fun o => ∀ w r w', (announcements lib).inv w →
      (announcements lib).inv w' → (announcements lib).pre thread o w →
      Performs cond thread o w r w' → Unannounced y w → Unannounced y w') ?_ x ?_ ?_
    · intro o ho w r w' _ _ _ hperf h
      rw [silent_performs ho hperf]
      exact unannounced_log ho h
    · intro message w r w' _ _ _ hperf h
      refine ⟨?_, hasNotification_performs hperf h.2⟩
      rw [sends_performs hperf, h.1, if_neg]
      exact fun heq => hxy (Option.some.inj heq)
    · intro i _ w r w' _ _ _ hperf h
      exact ⟨(sends_performs hperf _).trans h.1, hasNotification_performs hperf h.2⟩

end Notifications

theorem announcements_valid (hb : cond.Le (base lib).established)
    (hj : cond.Le (jobRuns lib).established) (hr : cond.Le (recordsSends lib)) :
    (announcements lib).Valid cond where
  init := by
    rintro w rfl
    refine ⟨⟨fun _ => Nat.zero_le _, fun _ h => ?_, fun _ h => ?_⟩, fun _ _ => rfl⟩
    · exact absurd h List.not_mem_nil
    · exact absurd h List.not_mem_nil
  step _ _ _ _ _ hi hpre hperf := announcements_step hb hj hi hpre hperf
  env := by
    intro w w' kill hi hhappens
    refine ⟨announcements_happens hi hhappens, fun t ht hthread => ?_⟩
    subst hthread
    rw [log_happens hhappens]
    obtain ⟨e, he, hcond⟩ := hhappens
    -- only a crash ends the service, and it does not come after a send
    have hcrash := external_service he ht
    subst hcrash
    exact hr.2 _ _ _ hcond
  idle t := by
    intro w w' hothers hidle hthread
    subst hthread
    exact Notifications.unrecorded_stable hb none w w' hothers (hidle rfl)
  start := by
    -- no other thread sends or records
    have hothers : ∀ {t : Tid}, t ≠ .service .notifications → ∀ (P : World → Prop) (p : Code Unit),
        (announcements lib).Triple cond t P p fun _ => (announcements lib).idle t := by
      intro t ht P p
      refine (Triple.of_pre fun o w r w' _ hperf => notifies_pre ?_ w).conseq
        (fun _ _ _ => trivial) fun _ _ _ _ hthread => absurd hthread ht
      exact fun ho => ht (notifies_thread (allowed_of hb hperf) ho)
    refine start_triple (fun config fuel s => ?_) fun c r => hothers (by nofun) _ _
    by_cases hs : s = .notifications
    · subst hs
      exact (Notifications.announcements_pass hb hj hr).conseq (fun _ _ h => h.1 rfl)
        fun _ _ _ h _ => h
    · exact hothers (by simpa using hs) _ _

end Flowlite

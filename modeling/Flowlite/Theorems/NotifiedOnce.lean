import Flowlite.Logic.Closings
import Flowlite.Theorems.Replay

/-!
# Notifications go out at most once

The send is no statement, and its record is one that may fail or never come. As long
as it does come, a message goes out once, and only about an end its notification asks
for; a row whose run ended otherwise is closed, and nothing goes out. Where the record does
not come, the row is still open, and the next pass sends its message again.
-/

namespace Flowlite

open Store Host Threads Crud Machine Outline Relation

/-- No message goes out twice, or about an end nobody asked to hear of, and what nobody
asked to hear of is closed. -/
structure NotifiedOnce (w : World) : Prop where
  once : ∀ id, w.sends id ≤ 1
  /-- What goes out goes where the row says, and is about a run that has ended so. -/
  wanted : ∀ e ∈ w.log, ∀ n channel recipients message,
    e.op = .sendNotification n channel recipients message →
      channel = n.channel ∧ recipients = n.recipients ∧
        message.jobRun.status.isFinished = true ∧ Announced w n message
  /-- Nothing goes out for a row whose run ended otherwise, and it reads open or skipped. -/
  unwanted : ∀ n ∈ w.db.jobRunNotifications.rows, ∀ x, w.db.jobRuns.find n.jobRunId = some x →
    x.status.isFinished = true → Notifications.wants n.notifyOn x.status = false →
      w.sends n.id = 0 ∧ (n.status = .pending ∨ n.status = .skipped)
  /-- The service reads the run of each open row it has selected; where it has ended otherwise,
  closing the row as skipped is what the service does next. -/
  inTurn : ∀ after e before, w.log = after ++ e :: before → e.thread = .service .notifications →
    InTheirTurn before e.op
  /-- Where that went through, the row reads skipped. -/
  closed : ∀ t id, ⟨t, closesRow id, .ok ()⟩ ∈ w.log →
    ∀ n, w.db.jobRunNotifications.find id = some n → n.status = .skipped
  /-- A run is announced one way only, on whatever channel. -/
  oneWay : ∀ e ∈ w.log, ∀ e' ∈ w.log, ∀ n channel recipients message n' channel' recipients'
    message', e.op = .sendNotification n channel recipients message →
      e'.op = .sendNotification n' channel' recipients' message' →
        message.jobRun.id = message'.jobRun.id → n.notifyOn = n'.notifyOn

theorem Announcements.notifiedOnce {w : World} (h : Announcements w) (hclosings : Closings w) :
    NotifiedOnce w where
  once := h.once
  wanted e he n channel recipients message hop := by
    obtain ⟨hchannel, hrecipients, hannounced, -⟩ :=
      h.announced e he n channel recipients message hop
    exact ⟨hchannel, hrecipients, (wants_finished hannounced.wanted).1, hannounced⟩
  unwanted n hn x hx hfinished hunwanted := by
    -- whatever was sent for this row was about this run as it stands
    have hnone : w.sends n.id = 0 := by
      by_contra hsent
      obtain ⟨e, he, n', channel, recipients, message, hop, hid⟩ :=
        sends_pos (Nat.pos_of_ne_zero hsent)
      have hannounced := (h.announced e he n' channel recipients message hop).2.2.1
      have hfind := Table.find_of_mem hn
      rw [key_jobRunNotification, ← hid] at hfind
      have hrow := hannounced.row.2 n hfind
      have hrun : n.jobRunId = n'.jobRunId := by rw [hrow]
      have hnotifyOn : n.notifyOn = n'.notifyOn := by rw [hrow]
      rw [hrun, ← hannounced.run] at hx
      have hstatus := hannounced.final.2 x hx
      rw [hstatus, hnotifyOn, hannounced.wanted] at hunwanted
      cases hunwanted
    refine ⟨hnone, ?_⟩
    have hclosed := (h.recorded n hn).2
    rw [hnone] at hclosed
    cases hstatus : n.status with
    | pending => exact .inl rfl
    | skipped => exact .inr rfl
    | sent => exact absurd (hclosed (.inl hstatus)) (lt_irrefl _)
    | failed => exact absurd (hclosed (.inr hstatus)) (lt_irrefl _)
  inTurn := hclosings.inTurn
  closed t id hmem n hn := by
    obtain ⟨-, s, hs, -, hreads⟩ := hclosings.reads t id _ hmem
    cases hs
    exact hreads n hn
  oneWay e he e' he' n channel recipients message n' channel' recipients' message' hop hop'
      hrun := by
    obtain ⟨-, -, hannounced, halike⟩ := h.announced e he n channel recipients message hop
    have hannounced' := (h.announced e' he' n' channel' recipients' message' hop').2.2.1
    have hstatus := halike e' he' n' channel' recipients' message' hop' hrun.symm
    refine wants_unique hannounced.wanted ?_
    rw [← hstatus]
    exact hannounced'.wanted

/-- **Notifications go out at most once** in every run of the system in which each send
is recorded. -/
theorem notified_once (lib : Library) (c : (flowlite lib).Config)
    (hc : Reachable (recordsSends lib) c) : NotifiedOnce c.state := by
  have hbase := base_valid.established hc
  have hjobs := (jobRuns_valid (Condition.and_le_right _ _)).established hbase
  have hvalid : (announcements lib).Valid _ := announcements_valid
    ((Condition.and_le_left _ _).trans (Condition.and_le_right _ _))
    (Condition.and_le_right _ _) ((Condition.and_le_left _ _).trans (Condition.and_le_left _ _))
  have hclosings : Closings c.state := (closings_valid (Condition.and_le_right _ _)).inv hbase
  exact (hvalid.inv hjobs).notifiedOnce hclosings

namespace Replay

/-- The job of `config`, somebody of which wants to hear of its successes. -/
def notifying : Config :=
  { config with jobs := [{ job with onSuccessRecipients := [(.email, ["ops"])] }] }

/-- A run of it is submitted, and its one command succeeds. -/
def succeeds : List Event :=
  boot notifying ++ request 0 (.submit notifying "etl" [] 0 none) 5 ++ wake .jobRunReleaser 4 ++
    wake .jobRunDispatcher 9 ++ wake .taskRunDispatcher 4 ++ wake .taskRunMonitor 4 ++
    wake .taskRunAttemptDispatcher 11 ++ [.env (.exit 1 (.code 0)), .env (.eof 1 .stdout),
    .env (.eof 1 .stderr)] ++ wake .taskRunAttemptMonitor 8 ++ wake .taskRunMonitor 4 ++
    wake .jobRunMonitor 4

/-- The success is announced, and that is recorded. -/
def announced : List Event := succeeds ++ wake .notifications 6 ++ wake .notifications 1

/-- The success is announced, the record fails, and the next pass comes. -/
def announcedTwice : List Event :=
  succeeds ++ wake .notifications 5 ++ [step (.service .notifications) { fails := true }] ++
    wake .notifications 4

end Replay

open Replay in
/-- The message went out, and the row says so. -/
theorem notified_once_at_success : ∃ c : (flowlite library).Config,
    c.state.sends 1 = 1 ∧ (c.state.db.jobRunNotifications.find 1).any (·.status = .sent) ∧
      NotifiedOnce c.state := by
  have hrun : (replay (recordsSends library) announced).any (fun c => decide
      (c.state.sends 1 = 1 ∧
        (c.state.db.jobRunNotifications.find 1).any (·.status = .sent))) = true := by
    decide +kernel
  obtain ⟨c, hc, hcheck⟩ := reachable_of_replay hrun
  obtain ⟨hsent, hstatus⟩ := of_decide_eq_true hcheck
  exact ⟨c, hsent, hstatus, notified_once library c hc⟩

open Replay in
/-- Without the condition it fails: the message goes out once for each pass. -/
theorem unrecorded_message_goes_out_again : ∃ c : (flowlite library).Config,
    Reachable .any c ∧ c.state.sends 1 = 2 ∧ ¬ NotifiedOnce c.state := by
  have hrun : (replay .any announcedTwice).any (fun c => decide (c.state.sends 1 = 2)) = true := by
    decide +kernel
  obtain ⟨c, hc, hcheck⟩ := reachable_of_replay hrun
  have hsends := of_decide_eq_true hcheck
  refine ⟨c, hc, hsends, fun honce => ?_⟩
  have := honce.once 1
  rw [hsends] at this
  exact absurd this (by decide)

end Flowlite

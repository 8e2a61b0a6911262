import Flowlite.Logic.Entrusted
import Flowlite.Theorems.CommandsAreHeld
import Flowlite.Theorems.VerdictCauses

/-!
# A verdict that was reached sticks

Between the moment a command is asked to exit and the moment it is gone, its attempt reads
running, and all there is of the verdict is a mark on the child. That mark goes from the map to
the monitor's hand and back with every pass; the attempt settles as it says, whatever the command
exits with.
-/

namespace Flowlite

open Store Host Threads Crud Machine Outline Relation

variable {lib : Library} {cond : (flowlite lib).Condition}

/-- What is known of the runs in which nothing is lost. -/
structure LosesNone (lib : Library) (cond : (flowlite lib).Condition) : Prop where
  base : cond.Le (base lib).established
  attempts : cond.Le (attempts lib).established
  records : cond.Le (recordsAttempts lib)
  entrusted : cond.Le (entrusted lib).established

theorem losesNone (lib : Library) : ∃ cond : (flowlite lib).Condition,
    Entails (recordsAttempts lib) cond ∧ LosesNone lib cond := by
  obtain ⟨c₁, h₁, hb⟩ := (base_valid : (base lib).Valid (recordsAttempts lib)).entails
  obtain ⟨c₂, h₂, ha⟩ := (attempts_valid hb).entails
  have hb₂ := h₂.le.trans hb
  have hrc₂ := h₂.le.trans h₁.le
  obtain ⟨c₃, h₃, he⟩ := (entrusted_valid hb₂ ha hrc₂).entails
  exact ⟨c₃, (h₁.trans h₂).trans h₃,
    ⟨h₃.le.trans hb₂, h₃.le.trans ha, h₃.le.trans hrc₂, he⟩⟩

theorem LosesNone.valid (h : LosesNone lib cond) : (Flowlite.entrusted lib).Valid cond :=
  entrusted_valid h.base h.attempts h.records

/-! ## No attempt is lost -/

/-- Every attempt that reads running has a child, and none was settled for want of one. -/
structure NoneLost (w : World) : Prop where
  running : ∀ id a, w.db.taskRunAttempts.find id = some a → a.status = .running →
    (w.children id).isSome = true ∨ ∃ child, w.taken = some (id, some child)
  valid : ∀ id a, w.db.taskRunAttempts.find id = some a → a.status ≠ .invalid

/-- **No attempt is lost**: while `serve` and the statements of the two services go through, no
attempt is settled as invalid, and one that is running has its child in the map, or in the hand of
the monitor that has just taken it. Between two passes of the monitor they are all in the map. -/
theorem no_attempt_is_lost (lib : Library) (c : (flowlite lib).Config)
    (hc : Reachable (recordsAttempts lib) c) :
    NoneLost c.state ∧ (c.pool (.service .taskRunAttemptMonitor) = none →
      ∀ id a, c.state.db.taskRunAttempts.find id = some a → a.status = .running →
        (c.state.children id).isSome = true) := by
  obtain ⟨cond, hentails, h⟩ := losesNone lib
  have hreach := hentails.reachable hc
  obtain ⟨hplaced, -, hnone⟩ := h.valid.inv hreach
  refine ⟨⟨hplaced, hnone⟩, fun hidle id a ha hrunning => ?_⟩
  exact h.valid.idle_of_none hreach hidle id a ha hrunning nofun

open Replay in
/-- The command has been spawned, and the monitor has not been at it. -/
theorem no_attempt_is_lost_spawned : ∃ c : (flowlite library).Config,
    attemptStatusOf 1 c = some .running ∧ NoneLost c.state ∧ (c.state.children 1).isSome = true := by
  have hrun : (replay (recordsAttempts library) spawned).any (fun c => decide
      (betweenPasses c = true ∧ attemptStatusOf 1 c = some .running)) = true := by
    decide +kernel
  obtain ⟨c, hc, hcheck⟩ := reachable_of_replay hrun
  obtain ⟨hbetween, hrunning⟩ := of_decide_eq_true hcheck
  obtain ⟨hnone, hmap⟩ := no_attempt_is_lost library c hc
  obtain ⟨a, ha, hstatus⟩ := Option.map_eq_some_iff.mp hrunning
  exact ⟨c, hrunning, hnone, hmap (betweenPasses_spec hbetween _ (.inr rfl)) 1 a ha hstatus⟩

/-! ## The verdict -/

/-- The child the attempt has, in the map or in the monitor's hand, says what it settles as. -/
def Marked (id : Nat) (verdict : TaskRunAttemptStatus) (w : World) : Prop :=
  match w.children id with
  | some child => child.verdict = some verdict
  | none => ∃ child, w.taken = some (id, some child) ∧ child.verdict = some verdict

/-- The attempt has settled so, or is running and will. -/
def BoundTo (id : Nat) (verdict : TaskRunAttemptStatus) (w : World) : Prop :=
  id < w.db.taskRunAttempts.next ∧ ∀ a, w.db.taskRunAttempts.find id = some a →
    a.status = verdict ∨ a.status = .running ∧ Marked id verdict w

section Steps

variable {t : Tid} {o : Op} {w w' : World} {r : Result o} {id : Nat}
  {verdict : TaskRunAttemptStatus}

/-- With the mark in hand, whatever goes by the child goes by the mark. -/
theorem Marked.goesBy (h : Marked id verdict w) {a : TaskRunAttempt}
    (ha : w.db.taskRunAttempts.find id = some a) {settled : Option TaskRunAttemptStatus}
    (hgoes : GoesBy id settled w) : settled = some verdict := by
  obtain ⟨child, ⟨htaken, hnone⟩, hsettled⟩ := hgoes
  unfold Marked at h
  rw [hnone a ha] at h
  obtain ⟨child', htaken', hverdict⟩ := h
  rw [htaken] at htaken'
  cases htaken'
  exact hsettled verdict hverdict

theorem marked_of_map {child : TaskRunAttemptChild} (h : w.children id = some child) :
    Marked id verdict w ↔ child.verdict = some verdict := by
  unfold Marked
  rw [h]

theorem marked_of_hand (h : w.children id = none) : Marked id verdict w ↔
    ∃ child, w.taken = some (id, some child) ∧ child.verdict = some verdict := by
  unfold Marked
  rw [h]

theorem marked_congr (hchild : w'.children id = w.children id) (htaken : w'.taken = w.taken) :
    Marked id verdict w' ↔ Marked id verdict w := by
  unfold Marked
  rw [hchild, htaken]

/-- The mark stays while the attempt is running, through every move of the child. -/
theorem Marked.performs (h : LosesNone lib cond) (hperf : Performs cond t o w r w')
    {a : TaskRunAttempt} (ha : w.db.taskRunAttempts.find id = some a)
    (hrunning : a.status = .running) (hw : Marked id verdict w) : Marked id verdict w' := by
  have hpre := (h.entrusted.1 _ _ _ _ _ hperf.2).2.1
  rcases children_cases hperf with ⟨id', child, rfl, heq⟩ | ⟨id', rfl, heq⟩ | ⟨-, hnone, heq⟩
  · by_cases hid : id = id'
    · subst hid
      refine (marked_of_map (by rw [heq, Function.update_self])).mpr ?_
      rcases (allowed_of h.base hperf).2 with rfl | rfl
      · rw [hpre.1 rfl a ha] at hrunning
        cases hrunning
      · exact hw.goesBy ha (hpre.2 rfl)
    · exact (marked_congr (by rw [heq, Function.update_of_ne hid])
        (taken_kept hperf nofun)).mpr hw
  · obtain ⟨child, hchild⟩ := Option.isSome_iff_exists.mp (hpre.1 id a ha hrunning nofun)
    have hverdict := (marked_of_map hchild).mp hw
    by_cases hid : id = id'
    · subst hid
      obtain ⟨answer, rfl⟩ := Infallible.succeeds (by trivial) hperf
      refine (marked_of_hand (by rw [heq, Function.update_self])).mpr ⟨child, ?_, hverdict⟩
      rw [taken_removed hperf, ← childrenRemove_answer hperf, hchild]
    · refine (marked_of_map ?_).mpr hverdict
      rw [heq, Function.update_of_ne hid, hchild]
  · exact (marked_congr (by rw [heq]) (taken_kept hperf hnone)).mpr hw

theorem boundTo_permanent (h : LosesNone lib cond) (hfinished : verdict.isFinished = true) :
    Permanent cond (BoundTo id verdict) where
  performs {t o w r w'} hperf hw := by
    refine ⟨lt_of_lt_of_le hw.1 (taskRunAttempts_next_le hperf), fun a' ha' => ?_⟩
    obtain ⟨hi, hpre, -⟩ := h.entrusted.1 _ _ _ _ _ hperf.2
    obtain ⟨a, ha, heq | ⟨f, i, rfl, -, hf, hset⟩⟩ := attemptStatus_performs hperf hw.1 ha'
    · rcases hw.2 a ha with hsettled | ⟨hrunning, hmarked⟩
      · exact .inl (heq.trans hsettled)
      · exact .inr ⟨heq.trans hrunning, hmarked.performs h hperf ha hrunning⟩
    -- the status is written: by the monitor, and as the child in its hand says
    have hfrom := (h.attempts.1 _ _ _ _ _ hperf.2).2.1 f i rfl (by rw [hset]; rfl) id a ha hf
    rcases hw.2 a ha with hsettled | ⟨hrunning, hmarked⟩
    · rw [hsettled] at hfrom
      unfold AttemptFrom at hfrom
      split at hfrom <;> first
        | exact hfrom.elim
        | (rw [hfrom] at hfinished; cases hfinished)
    · obtain ⟨id', hid⟩ := updateTaskRunAttempts_id (allowed_of h.base hperf)
      obtain rfl : id' = id :=
        (updateTaskRunAttemptsFilter_holds hid hf).symm.trans (Table.key_of_find ha)
      rw [hrunning] at hfrom
      have ht : t = .service .taskRunAttemptMonitor := by
        unfold AttemptFrom at hfrom
        split at hfrom
        · cases hfrom
        · rfl
        · obtain ⟨config, hstarting⟩ := running_of h.base hperf
          obtain ⟨config', hup⟩ := hi.up id' a ha hrunning
          rw [hup] at hstarting
          cases hstarting
        · exact hfrom.elim
      have hgoes := (hpre _ id' hset hid a ha).2.2 ht
      exact .inl (Option.some.inj (hmarked.goesBy ha hgoes))
  happens {w w' kill} hhappens hw := by
    unfold BoundTo Marked
    rw [happens_db hhappens, children_happens h.records hhappens, taken_happens hhappens]
    exact hw

end Steps

/-- **A verdict sticks**: once the command of a running attempt has been asked to exit, the attempt
reads running, or as it was decided then, in every later state, whatever the command exits with. -/
theorem verdicts_stick (lib : Library) (c c' : (flowlite lib).Config)
    (hc : Reachable (recordsAttempts lib) c)
    (hstar : ReflTransGen (Next (recordsAttempts lib)) c c') (a : TaskRunAttempt)
    (ha : a ∈ c.state.db.taskRunAttempts.rows) (hrunning : a.status = .running)
    (child : TaskRunAttemptChild) (hchild : c.state.children a.id = some child)
    (termination : Termination) (hasked : child.terminating = some termination) :
    ∀ a' ∈ c'.state.db.taskRunAttempts.rows, a'.id = a.id →
      a'.status = .running ∨ a'.status = termination.status := by
  obtain ⟨cond, hentails, h⟩ := losesNone lib
  have hreach := hentails.reachable hc
  obtain ⟨hfind, hverdict⟩ : c.state.db.taskRunAttempts.find a.id = some a ∧
      child.verdict = some termination.status :=
    ⟨Table.find_of_mem ha, by unfold TaskRunAttemptChild.verdict; rw [hasked]; rfl⟩
  have hends := (base_valid.inv hc).2 a.id child hchild termination hasked
  have hfinished : termination.status.isFinished = true := by
    rcases hends with heq | heq <;> rw [heq] <;> rfl
  have hbound : BoundTo a.id termination.status c'.state :=
    (boundTo_permanent h hfinished).star (hentails.star hc hstar)
      ⟨Table.lt_next_of_find hfind, fun b hb => by
        cases hfind.symm.trans hb
        exact .inr ⟨hrunning, (marked_of_map hchild).mpr hverdict⟩⟩
  intro a' ha' hid
  rcases hbound.2 a' (hid ▸ Table.find_of_mem ha') with hsettled | ⟨hrunning', -⟩
  · exact .inr hsettled
  · exact .inl hrunning'

namespace Replay

/-- It exits after all, and with zero; the monitor finds it gone. -/
def exitsInGrace : List Event :=
  [.env (.exit 1 (.code 0)), .env (.groupExit 1), .env (.eof 1 .stdout), .env (.eof 1 .stderr),
    .start (.service .taskRunAttemptMonitor) (.pass 10)] ++ monitorAt (seconds 101) 9

/-- The child attempt 1 has in the map was asked to exit, and the attempt is running. -/
def asked (c : (flowlite library).Config) : Bool :=
  (c.state.db.taskRunAttempts.find 1).any fun a => a.status = .running &&
    (c.state.children 1).any fun child => child.terminating.any fun t => t.status = .timedOut

end Replay

open Replay in
/-- The command is past its timeout and asked to exit. It exits with zero, and its attempt reads
timed out all the same. -/
theorem verdicts_stick_exit : ∃ c c' : (flowlite library).Config,
    asked c = true ∧ attemptStatusOf 1 c' = some .timedOut ∧
      ∀ a ∈ c'.state.db.taskRunAttempts.rows, a.id = 1 →
        a.status = .running ∨ a.status = .timedOut := by
  have hrun : (replay (recordsAttempts library) askedToExit).any (fun c => asked c &&
      (exec (recordsAttempts library) c exitsInGrace).any fun c' =>
        decide (attemptStatusOf 1 c' = some .timedOut)) = true := by
    decide +kernel
  obtain ⟨c, c', hc, hstar, hasked, htimedOut⟩ := star_of_replay hrun
  refine ⟨c, c', hasked, of_decide_eq_true htimedOut, fun a' ha' hid => ?_⟩
  obtain ⟨a, ha, hcheck⟩ := (Option.any_eq_true _ _).mp hasked
  obtain ⟨hrunning, hcheck⟩ := Bool.and_eq_true_iff.mp hcheck
  obtain ⟨child, hchild, hcheck⟩ := (Option.any_eq_true _ _).mp hcheck
  obtain ⟨termination, htermination, hstatus⟩ := (Option.any_eq_true _ _).mp hcheck
  have hkey : a.id = 1 := Table.key_of_find ha
  rw [← of_decide_eq_true hstatus]
  exact verdicts_stick library c c' hc hstar a (Table.mem_of_find ha)
    (of_decide_eq_true hrunning) child (hkey ▸ hchild) termination htermination a' ha'
    (hid.trans hkey.symm)

end Flowlite

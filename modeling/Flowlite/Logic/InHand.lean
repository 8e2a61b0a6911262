import Flowlite.Logic.Attempts

/-!
# The attempt in hand

`TaskRunAttemptDispatcher` begins with every attempt by asking whether its run is
stopped, and asks that nowhere else. So what it has read since it last asked, it has
read for the attempt in hand.
-/

namespace Flowlite

open Store Host Threads Crud Machine Outline

variable {lib : Library} {cond : (flowlite lib).Condition} {O : Outline (flowlite lib)}

/-- The question whether a run is stopped, in the log. -/
def Host.Event.asksStop (e : Host.Event) : Bool :=
  match e.op with
  | .select (.jobRunStops _ _) => true
  | _ => false

/-- What `TaskRunAttemptDispatcher` has done since it last asked whether a run is
stopped, the latest first. -/
def Host.World.inHand (w : World) : List Host.Event :=
  (w.log.filter fun e => e.thread = .service .taskRunAttemptDispatcher).takeWhile
    fun e => !e.asksStop

/-- The dispatcher has read this for the attempt in hand. -/
def Host.World.HasRead (w : World) (q : Query) (a : q.Answer) : Prop :=
  ⟨.service .taskRunAttemptDispatcher, .select q, .ok a⟩ ∈ w.inHand

/-- The latest of its questions, with the answer. -/
def Host.World.asked (w : World) : Option Host.Event :=
  w.log.find? fun e => decide (e.thread = .service .taskRunAttemptDispatcher) && e.asksStop

/-- The dispatcher has asked for the run's stop, found none, and asked nothing of the kind
since. -/
def Host.World.FoundUnstopped (w : World) (jobRunId : Nat) : Prop :=
  w.asked = some ⟨.service .taskRunAttemptDispatcher, .select (stopQuery jobRunId), .ok []⟩

theorem asksStop_iff {t : Tid} {o : Op} {r : Result o} :
    (Host.Event.mk t o r).asksStop = true ↔ AsksStop o := by
  unfold Host.Event.asksStop AsksStop
  dsimp only
  split <;> simp_all

section Steps

variable {t : Tid} {o : Op} {w w' : World} {r : Result o}

theorem inHand_other (h : Performs cond t o w r w') (ht : t ≠ .service .taskRunAttemptDispatcher) :
    w'.inHand = w.inHand := by
  unfold Host.World.inHand
  rw [log_performs h, List.filter_cons]
  simp only [ht, decide_false, Bool.false_eq_true, if_false]

theorem inHand_happens {kill : Tid → Bool} (h : Happens cond w w' kill) : w'.inHand = w.inHand := by
  unfold Host.World.inHand
  rw [log_happens h]

theorem asked_performs (h : Performs cond t o w r w')
    (ho : t = .service .taskRunAttemptDispatcher → ¬ AsksStop o) : w'.asked = w.asked := by
  unfold Host.World.asked
  rw [log_performs h, List.find?_cons]
  by_cases ht : t = .service .taskRunAttemptDispatcher
  · have hasks : (Host.Event.mk t o r).asksStop = false := by
      rw [← Bool.not_eq_true]
      exact fun h => ho ht (asksStop_iff.mp h)
    simp only [hasks, Bool.and_false]
  · simp only [ht, decide_false, Bool.false_and]

theorem asked_happens {kill : Tid → Bool} (h : Happens cond w w' kill) : w'.asked = w.asked := by
  unfold Host.World.asked
  rw [log_happens h]

theorem asked_own (h : Performs cond (.service .taskRunAttemptDispatcher) o w r w')
    (ho : AsksStop o) : w'.asked = some ⟨.service .taskRunAttemptDispatcher, o, r⟩ := by
  unfold Host.World.asked
  rw [log_performs h, List.find?_cons]
  simp only [decide_true, asksStop_iff.mpr ho, Bool.and_self]

/-- What the dispatcher does short of asking comes on top. -/
theorem inHand_own (h : Performs cond (.service .taskRunAttemptDispatcher) o w r w')
    (ho : ¬ AsksStop o) : w'.inHand = ⟨.service .taskRunAttemptDispatcher, o, r⟩ :: w.inHand := by
  have hasks : (Host.Event.mk (.service .taskRunAttemptDispatcher) o r).asksStop = false := by
    rw [← Bool.not_eq_true]
    exact fun h => ho (asksStop_iff.mp h)
  unfold Host.World.inHand
  rw [log_performs h, List.filter_cons]
  simp only [decide_true, if_true, List.takeWhile_cons, hasks, Bool.not_false]

theorem hasRead_other (h : Performs cond t o w r w') (ht : t ≠ .service .taskRunAttemptDispatcher)
    {q : Query} {a : q.Answer} (hread : w.HasRead q a) : w'.HasRead q a := by
  unfold Host.World.HasRead
  rw [inHand_other h ht]
  exact hread

theorem hasRead_happens {kill : Tid → Bool} (h : Happens cond w w' kill) {q : Query} {a : q.Answer}
    (hread : w.HasRead q a) : w'.HasRead q a := by
  unfold Host.World.HasRead
  rw [inHand_happens h]
  exact hread

theorem hasRead_own (h : Performs cond (.service .taskRunAttemptDispatcher) o w r w')
    (ho : ¬ AsksStop o) {q : Query} {a : q.Answer} (hread : w.HasRead q a) : w'.HasRead q a := by
  unfold Host.World.HasRead
  rw [inHand_own h ho]
  exact List.mem_cons_of_mem _ hread

/-- A select that was answered has been read. -/
theorem hasRead_select {q : Query} {a : q.Answer}
    (h : Performs cond (.service .taskRunAttemptDispatcher) (.select q) w (.ok a) w')
    (hq : ¬ AsksStop (.select q)) : w'.HasRead q a := by
  unfold Host.World.HasRead
  rw [inHand_own h hq]
  exact List.mem_cons_self ..

end Steps

end Flowlite

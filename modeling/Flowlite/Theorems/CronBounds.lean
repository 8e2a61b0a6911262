import Mathlib.Data.Int.LeastGreatest
import Flowlite.Logic.CronBounds

/-!
# The runs of a schedule

`get_next_runs` returns the first runs a schedule has after an instant iff the bounds of the
code misplace none of the occurrences among them. Without transitions in the zone those are
the ones at midnight of the start date: the search starts there and looks for later ones.
-/

namespace Flowlite

open Store Firsts

namespace CronTrigger

/-- The first `count` runs come back iff every occurrence the bounds misplace comes after
`count` of them. -/
theorem getNextRuns_due_iff (trigger : CronTrigger) (now : Instant) (startFrom : Option Instant)
    (count : Nat) :
    FirstOf (trigger.due (startFrom.getD now)) count (trigger.getNextRuns now startFrom count) ↔
      ∀ m ∈ trigger.schedule.matching, trigger.disabled = false → startFrom.getD now < m →
        trigger.misplaces m →
        (count : ℕ∞) ≤ {r | r ∈ trigger.due (startFrom.getD now) ∧ r < m}.encard := by
  have hfound : FirstOf (trigger.found (startFrom.getD now)) count
      (trigger.getNextRuns now startFrom count) := getNextRuns_firstOf count startFrom
  rw [firstOf_iff_of_firstOf hfound]
  · constructor
    · intro hfar m hmatch henabled hlater hmisplaced
      exact hfar m (differ_iff.mpr ⟨henabled, hmatch, hlater, hmisplaced⟩)
    · intro hfar m hdiffer
      obtain ⟨henabled, hmatch, hlater, hmisplaced⟩ := differ_iff.mp hdiffer
      exact hfar m hmatch henabled hlater hmisplaced
  · -- the occurrences after an instant have a first
    intro m hm
    obtain ⟨least, hleast, hmin⟩ := Int.exists_least_of_bdd
      (P := fun m => ¬ (m ∈ trigger.found (startFrom.getD now) ↔
        m ∈ trigger.due (startFrom.getD now)))
      ⟨startFrom.getD now, fun m hm => (differ_iff.mp hm).2.2.1.le⟩ ⟨m, hm⟩
    exact ⟨least, hleast, hmin⟩

/-- A disabled schedule has no runs, and none are returned. -/
theorem getNextRuns_of_disabled {trigger : CronTrigger} (h : trigger.disabled = true)
    (now : Instant) (startFrom : Option Instant) (count : Nat) :
    trigger.getNextRuns now startFrom count = [] := by
  cases count with
  | zero => rfl
  | succ count => simp [getNextRuns, getNextRun, h]

/-! ## The midnight of the start date -/

section Fixed

variable {trigger : CronTrigger} {offset : Int}

/-- In a zone without transitions every local time is met once. -/
theorem earliest_of_fixed (h : ∀ t, trigger.timezone.localTime t = t + offset)
    (l : NaiveDateTime) : trigger.timezone.earliest l = some (l - offset) := by
  cases hl : trigger.timezone.earliest l with
  | none =>
    have hnone := trigger.timezone.earliest_none l hl (l - offset)
    exact absurd ((h _).trans (Int.sub_add_cancel l offset)) hnone
  | some t =>
    have heq : trigger.timezone.localTime t = l := (trigger.timezone.earliest_some l t hl).1
    rw [h] at heq
    rw [eq_sub_of_add_eq heq]

theorem latest_of_fixed (h : ∀ t, trigger.timezone.localTime t = t + offset)
    (l : NaiveDateTime) : trigger.timezone.latest l = some (l - offset) := by
  cases hl : trigger.timezone.latest l with
  | none =>
    have hnone := trigger.timezone.latest_none l hl (l - offset)
    exact absurd ((h _).trans (Int.sub_add_cancel l offset)) hnone
  | some t =>
    have heq : trigger.timezone.localTime t = l := (trigger.timezone.latest_some l t hl).1
    rw [h] at heq
    rw [eq_sub_of_add_eq heq]

/-- Its bound takes the midnight of the start date for the day before. -/
theorem afterStart_iff_of_fixed (h : ∀ t, trigger.timezone.localTime t = t + offset)
    (m : Instant) :
    trigger.afterStart m ↔ ∀ startDate ∈ trigger.startDate,
      startDate ≤ (trigger.timezone.localTime m).date ∧
        m + offset ≠ startDate.andHms 0 0 0 := by
  refine forall₂_congr fun startDate _ => ?_
  have hbound : ∀ m d : Int, day * d + 1000 * (3600 * 0 + 60 * 0 + 0) - offset < m ↔
      d ≤ (m + offset) / day ∧ m + offset ≠ day * d + 1000 * (3600 * 0 + 60 * 0 + 0) := by
    intro m d
    unfold day
    omega
  rw [earliest_of_fixed h, h]
  simp only [Option.mem_some_iff, exists_eq_left']
  exact hbound m startDate

/-- The end date's bound is right to the second. -/
theorem beforeEnd_iff_of_fixed (h : ∀ t, trigger.timezone.localTime t = t + offset)
    {m : Instant} (hm : (1000 : Int) ∣ m + offset) :
    trigger.beforeEnd m ↔
      ∀ endDate ∈ trigger.endDate, (trigger.timezone.localTime m).date ≤ endDate := by
  refine forall₂_congr fun endDate _ => ?_
  have hbound : ∀ m d : Int, (1000 : Int) ∣ m + offset →
      (m ≤ day * d + 1000 * (3600 * 23 + 60 * 59 + 59) - offset ↔ (m + offset) / day ≤ d) := by
    intro m d hm
    unfold day
    omega
  rw [latest_of_fixed h, h]
  simp only [Option.mem_some_iff, exists_eq_left']
  exact hbound m endDate hm

/-- There, of whole seconds, the bounds misplace the midnight of the start date alone. -/
theorem misplaces_iff_midnight (h : ∀ t, trigger.timezone.localTime t = t + offset)
    {m : Instant} (hm : (1000 : Int) ∣ m + offset) :
    trigger.misplaces m ↔
      trigger.inDates m ∧ ∃ startDate ∈ trigger.startDate, m + offset = startDate.andHms 0 0 0 := by
  unfold misplaces inDates
  rw [afterStart_iff_of_fixed h, beforeEnd_iff_of_fixed h hm]
  cases trigger.startDate with
  | none => simp
  | some startDate =>
    simp only [Option.mem_some_iff, forall_eq', exists_eq_left']
    tauto

end Fixed

/-! ## A start date with a run at midnight -/

/-- UTC itself. -/
def utc : Tz where
  localTime t := t + 0
  earliest l := some l
  latest l := some l
  earliest_some l t h := by
    cases h
    exact ⟨Int.add_zero l, fun u hu => (hu.symm.trans (Int.add_zero u)).le⟩
  earliest_none l h := by cases h
  latest_some l t h := by
    cases h
    exact ⟨Int.add_zero l, fun u hu => (hu.symm.trans (Int.add_zero u)).ge⟩
  latest_none l h := by cases h

theorem next_midnight_le {t k : Int} (h : t < day * k) : (t / day + 1) * day ≤ day * k := by
  unfold day at *
  omega

/-- The midnights: `0 0 0 * * *`. -/
def midnights : CronSchedule where
  matching := {m | day ∣ m}
  next t := some ((t / day + 1) * day)
  next_some t m h := by
    cases h
    refine ⟨⟨Dvd.intro_left _ rfl, Int.lt_ediv_add_one_mul_self t (by decide)⟩, fun u hu => ?_⟩
    obtain ⟨⟨k, hk⟩, hlt⟩ := hu
    rw [hk] at hlt ⊢
    exact next_midnight_le hlt
  next_none t h := by cases h

/-- From 2026-06-01 on. -/
def fromJune : CronTrigger where
  schedule := midnights
  timezone := utc
  startDate := some 20605
  endDate := none
  disabled := false

/-- Searched in January, its first run is the second of June. -/
theorem midnight_of_start_date_missed :
    ¬ FirstOf (fromJune.due (20463 * day)) 1
      (fromJune.getNextRuns 0 (some (20463 * day)) 1) := by
  intro h
  have hruns : fromJune.getNextRuns 0 (some (20463 * day)) 1 = [20606 * day] := by decide +kernel
  have hdue : 20605 * day ∈ fromJune.due (20463 * day) := by
    refine ⟨rfl, Dvd.intro_left _ rfl, by decide, ?_, ?_⟩
    · intro startDate hstart
      cases hstart
      decide
    · intro endDate hend
      cases hend
  rw [hruns] at h
  have hlater := (h.complete _ hdue (by decide)).2 _ (List.mem_singleton.mpr rfl)
  exact absurd hlater (by decide)

end CronTrigger

end Flowlite

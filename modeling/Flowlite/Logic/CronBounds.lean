import Flowlite.Order.Firsts
import Flowlite.Services.CronTrigger

/-!
# The bounds of a schedule

The dates of a schedule bound the local date of a run. The code turns them into two instants
and bounds the instant of the run: later than the start date's first midnight, no later than
the end date's last 23:59:59. What it returns is the first occurrences between those
(`getNextRuns_firstOf`).
-/

namespace Flowlite

open Store Firsts

namespace CronTrigger

variable (trigger : CronTrigger)

/-- The local date of the instant is one the schedule runs on. -/
def inDates (m : Instant) : Prop :=
  (∀ startDate ∈ trigger.startDate, startDate ≤ (trigger.timezone.localTime m).date) ∧
  (∀ endDate ∈ trigger.endDate, (trigger.timezone.localTime m).date ≤ endDate)

/-- The instant is later than the start date's midnight. -/
def afterStart (m : Instant) : Prop :=
  ∀ startDate ∈ trigger.startDate,
    ∃ startDt ∈ trigger.timezone.earliest (startDate.andHms 0 0 0), startDt < m

/-- The instant is no later than the end date's 23:59:59. -/
def beforeEnd (m : Instant) : Prop :=
  ∀ endDate ∈ trigger.endDate,
    ∃ endDt ∈ trigger.timezone.latest (endDate.andHms 23 59 59), m ≤ endDt

/-- The runs a schedule has after an instant. -/
def due (startFrom : Instant) : Set Instant :=
  {m | trigger.disabled = false ∧ m ∈ trigger.schedule.matching ∧ startFrom < m ∧
    trigger.inDates m}

/-- The runs the code finds after an instant. -/
def found (startFrom : Instant) : Set Instant :=
  {m | trigger.disabled = false ∧ m ∈ trigger.schedule.matching ∧ startFrom < m ∧
    trigger.afterStart m ∧ trigger.beforeEnd m}

/-- The bounds of the code let the instant through and its date does not, or its date
does and they do not. -/
def misplaces (m : Instant) : Prop :=
  ¬ (trigger.afterStart m ∧ trigger.beforeEnd m ↔ trigger.inDates m)

variable {trigger} {now startFrom m : Instant}

/-! ## One search -/

theorem searchFrom_some (h : trigger.searchFrom startFrom = some m) (u : Instant) :
    m < u ↔ startFrom < u ∧ trigger.afterStart u := by
  unfold searchFrom at h
  unfold afterStart
  cases hdate : trigger.startDate with
  | none =>
    rw [hdate] at h
    cases h
    simp
  | some startDate =>
    rw [hdate] at h
    cases hdt : trigger.timezone.earliest (startDate.andHms 0 0 0) with
    | none =>
      simp only [hdt] at h
      cases h
    | some startDt =>
      simp only [hdt, Option.some.injEq] at h
      simp only [Option.mem_some_iff, forall_eq', hdt, exists_eq_left']
      subst h
      split
      · rename_i hlt
        exact ⟨fun hu => ⟨hlt.trans hu, hu⟩, And.right⟩
      · rename_i hle
        exact ⟨fun hu => ⟨hu, (not_lt.mp hle).trans_lt hu⟩, And.left⟩

theorem searchFrom_none (h : trigger.searchFrom startFrom = none) (u : Instant) :
    ¬ trigger.afterStart u := by
  unfold searchFrom at h
  unfold afterStart
  cases hdate : trigger.startDate with
  | none =>
    rw [hdate] at h
    cases h
  | some startDate =>
    rw [hdate] at h
    cases hdt : trigger.timezone.earliest (startDate.andHms 0 0 0) with
    | none => simp [hdt]
    | some startDt =>
      simp only [hdt] at h
      cases h

theorem upToEnd_some {next : Instant} (h : trigger.upToEnd next = some m) :
    m = next ∧ trigger.beforeEnd next := by
  unfold upToEnd at h
  unfold beforeEnd
  cases hdate : trigger.endDate with
  | none =>
    rw [hdate] at h
    cases h
    simp
  | some endDate =>
    rw [hdate] at h
    cases hdt : trigger.timezone.latest (endDate.andHms 23 59 59) with
    | none =>
      simp only [hdt] at h
      cases h
    | some endDt =>
      simp only [hdt] at h
      split at h
      · cases h
      · rename_i hle
        cases h
        refine ⟨rfl, ?_⟩
        simpa only [Option.mem_some_iff, forall_eq', hdt, exists_eq_left'] using not_lt.mp hle

/-- What comes after an occurrence past the end is past the end as well. -/
theorem upToEnd_none {next : Instant} (h : trigger.upToEnd next = none) {u : Instant}
    (hu : next ≤ u) : ¬ trigger.beforeEnd u := by
  unfold upToEnd at h
  unfold beforeEnd
  cases hdate : trigger.endDate with
  | none =>
    rw [hdate] at h
    cases h
  | some endDate =>
    rw [hdate] at h
    cases hdt : trigger.timezone.latest (endDate.andHms 23 59 59) with
    | none => simp [hdt]
    | some endDt =>
      simp only [hdt] at h
      split at h
      · rename_i hlt
        simp only [Option.mem_some_iff, forall_eq', hdt, exists_eq_left']
        exact not_le.mpr (hlt.trans_le hu)
      · cases h

theorem getNextRun_some {startFrom : Option Instant}
    (h : trigger.getNextRun now startFrom = some m) :
    IsLeast (trigger.found (startFrom.getD now)) m := by
  unfold getNextRun at h
  split at h
  · cases h
  · rename_i henabled
    cases hsearch : trigger.searchFrom (startFrom.getD now) with
    | none =>
      simp only [hsearch] at h
      cases h
    | some begin =>
      cases hnext : trigger.schedule.next begin with
      | none =>
        simp only [hsearch, hnext] at h
        cases h
      | some next =>
        simp only [hsearch, hnext] at h
        obtain ⟨heq, hend⟩ := upToEnd_some h
        subst heq
        have hleast := trigger.schedule.next_some _ _ hnext
        obtain ⟨hlater, hstart⟩ := (searchFrom_some hsearch m).mp hleast.1.2
        refine ⟨⟨by simpa using henabled, hleast.1.1, hlater, hstart, hend⟩, ?_⟩
        intro u hu
        obtain ⟨-, hmatch, hlater, hstart, -⟩ := hu
        exact hleast.2 ⟨hmatch, (searchFrom_some hsearch u).mpr ⟨hlater, hstart⟩⟩

theorem getNextRun_none {startFrom : Option Instant}
    (h : trigger.getNextRun now startFrom = none) (u : Instant) :
    u ∉ trigger.found (startFrom.getD now) := by
  intro hu
  obtain ⟨henabled, hmatch, hlater, hstart, hend⟩ := hu
  unfold getNextRun at h
  rw [henabled] at h
  cases hsearch : trigger.searchFrom (startFrom.getD now) with
  | none => exact searchFrom_none hsearch u hstart
  | some begin =>
    have hbegin := (searchFrom_some hsearch u).mpr ⟨hlater, hstart⟩
    cases hnext : trigger.schedule.next begin with
    | none => exact trigger.schedule.next_none _ hnext u hmatch hbegin
    | some next =>
      simp only [hsearch, hnext] at h
      have hle := (trigger.schedule.next_some _ _ hnext).2 ⟨hmatch, hbegin⟩
      exact upToEnd_none h hle hend

/-! ## The walk -/

/-- What is found after a run that was found is found after where the search began. -/
theorem found_after (hm : m ∈ trigger.found startFrom) (u : Instant) :
    u ∈ trigger.found m ↔ u ∈ trigger.found startFrom ∧ m < u := by
  obtain ⟨-, -, hlater, -⟩ := hm
  constructor
  · intro hu
    obtain ⟨henabled, hmatch, hafter, hbounds⟩ := hu
    exact ⟨⟨henabled, hmatch, hlater.trans hafter, hbounds⟩, hafter⟩
  · intro hu
    obtain ⟨⟨henabled, hmatch, -, hbounds⟩, hafter⟩ := hu
    exact ⟨henabled, hmatch, hafter, hbounds⟩

theorem getNextRuns_firstOf (count : Nat) (startFrom : Option Instant) :
    FirstOf (trigger.found (startFrom.getD now)) count
      (trigger.getNextRuns now startFrom count) := by
  induction count generalizing startFrom with
  | zero => exact FirstOf.zero _
  | succ count ih =>
    unfold getNextRuns
    cases hnext : trigger.getNextRun now startFrom with
    | none => exact FirstOf.nil _ (getNextRun_none hnext)
    | some next =>
      have hleast := getNextRun_some hnext
      exact FirstOf.cons hleast ((ih (some next)).congr (found_after hleast.1))

/-! ## The bounds and the dates -/

theorem differ_iff :
    ¬ (m ∈ trigger.found startFrom ↔ m ∈ trigger.due startFrom) ↔
      trigger.disabled = false ∧ m ∈ trigger.schedule.matching ∧ startFrom < m ∧
        trigger.misplaces m := by
  have hfound : m ∈ trigger.found startFrom ↔ trigger.disabled = false ∧
      m ∈ trigger.schedule.matching ∧ startFrom < m ∧
      (trigger.afterStart m ∧ trigger.beforeEnd m) := Iff.rfl
  have hdue : m ∈ trigger.due startFrom ↔ trigger.disabled = false ∧
      m ∈ trigger.schedule.matching ∧ startFrom < m ∧ trigger.inDates m := Iff.rfl
  rw [hfound, hdue]
  unfold misplaces
  tauto

end CronTrigger

end Flowlite

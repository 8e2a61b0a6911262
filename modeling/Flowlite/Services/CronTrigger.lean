import Mathlib.Order.Bounds.Basic
import Flowlite.Store.Rows

/-!
# CronTrigger

The runs of a schedule: the occurrences of its cron expression, bounded by its dates. The
expression and the zone come from the `cron` and `chrono_tz` crates; a `CronSchedule` and a
`Tz` are what the code reads of them, with what they promise.
-/

namespace Flowlite

open Store

/-- A day of the local calendar, counted from 1970-01-01. -/
abbrev NaiveDate := Int

/-- A local date and time, in milliseconds from the midnight of day 0. -/
abbrev NaiveDateTime := Int

def day : Int := 86400000

def NaiveDate.andHms (date : NaiveDate) (hour min sec : Int) : NaiveDateTime :=
  day * date + 1000 * (3600 * hour + 60 * min + sec)

def NaiveDateTime.date (dateTime : NaiveDateTime) : NaiveDate := dateTime / day

/-- A time zone. A local time may be met by one instant, by several, or by none. -/
structure Tz where
  /-- `with_timezone`, as the local time it shows. -/
  localTime : Instant → NaiveDateTime
  /-- `and_local_timezone(..).earliest()`. -/
  earliest : NaiveDateTime → Option Instant
  /-- `and_local_timezone(..).latest()`. -/
  latest : NaiveDateTime → Option Instant
  earliest_some : ∀ l t, earliest l = some t → IsLeast {u | localTime u = l} t
  earliest_none : ∀ l, earliest l = none → ∀ u, localTime u ≠ l
  latest_some : ∀ l t, latest l = some t → IsGreatest {u | localTime u = l} t
  latest_none : ∀ l, latest l = none → ∀ u, localTime u ≠ l

/-- A cron expression, read in a zone: the instants it matches, and the search for the
next of them. -/
structure CronSchedule where
  matching : Set Instant
  /-- `after(&t).next()`. -/
  next : Instant → Option Instant
  next_some : ∀ t m, next t = some m → IsLeast {u | u ∈ matching ∧ t < u} m
  next_none : ∀ t, next t = none → ∀ u ∈ matching, ¬ t < u

structure CronTrigger where
  schedule : CronSchedule
  timezone : Tz
  startDate : Option NaiveDate
  endDate : Option NaiveDate
  disabled : Bool

namespace CronTrigger

variable (trigger : CronTrigger)

/-- `from_schedule`, with the parsers of the two crates. -/
def fromSchedule (cron : String → Tz → CronSchedule) (tz : String → Tz) (schedule : Schedule) :
    CronTrigger where
  schedule := cron schedule.cron (tz schedule.timezone)
  timezone := tz schedule.timezone
  startDate := schedule.startDate
  endDate := schedule.endDate
  disabled := schedule.disabled

/-- Where the search begins: no earlier than midnight on the start date. -/
def searchFrom (startFrom : Instant) : Option Instant :=
  match trigger.startDate with
  | none => some startFrom
  | some startDate =>
      match trigger.timezone.earliest (startDate.andHms 0 0 0) with
      | none => none
      | some startDt => some (if startFrom < startDt then startDt else startFrom)

/-- What was found, unless it is later than the last second of the end date. -/
def upToEnd (next : Instant) : Option Instant :=
  match trigger.endDate with
  | none => some next
  | some endDate =>
      match trigger.timezone.latest (endDate.andHms 23 59 59) with
      | none => none
      | some endDt => if next > endDt then none else some next

/-- `get_next_run_tz`; `now` is the clock, read where there is no `startFrom`. -/
def getNextRun (now : Instant) (startFrom : Option Instant) : Option Instant :=
  if trigger.disabled then none
  else
    match trigger.searchFrom (startFrom.getD now) with
    | none => none
    | some startFrom =>
        match trigger.schedule.next startFrom with
        | none => none
        | some next => trigger.upToEnd next

/-- Each one the next after the last. -/
def getNextRuns (now : Instant) : Option Instant → Nat → List Instant
  | _, 0 => []
  | startFrom, count + 1 =>
      match trigger.getNextRun now startFrom with
      | none => []
      | some next => next :: getNextRuns now (some next) count

end CronTrigger

end Flowlite

/-!
# Dates and times

A moment is a day of the calendar, or a day with a time of day, which may lie in a zone.  Each has
a short form, in which it is shown, and a long form, in which it is quoted.
-/

namespace SchemaViews

structure TimeOfDay where
  hour : Nat
  minute : Nat
  second : Nat
  microsecond : Nat
  /-- The minutes by which the zone is ahead. -/
  zone : Option Int
deriving DecidableEq, Repr

structure Moment where
  year : Nat
  month : Nat
  day : Nat
  time : Option TimeOfDay
deriving DecidableEq, Repr

namespace Moment

def padded (width n : Nat) : String :=
  let digits := toString n
  String.ofList (List.replicate (width - digits.length) '0') ++ digits

def spanText (minutes : Int) : String :=
  let days := Int.fdiv minutes 1440
  let seconds := 60 * Int.fmod minutes 1440
  let parts :=
    (if days = 0 then [] else [s!"days={days}"])
      ++ (if seconds = 0 then [] else [s!"seconds={seconds}"])
  "datetime.timedelta(" ++ (if parts.isEmpty then "0" else ", ".intercalate parts) ++ ")"

/-! ## Which moments there are -/

inductive Fault
  | year (given : Nat)
  | month
  | day
  | hour
  | minute
  | second
  | zone (minutes : Int)
deriving DecidableEq, Repr

def Fault.message : Fault → String
  | .year given => s!"year {given} is out of range"
  | .month => "month must be in 1..12"
  | .day => "day is out of range for month"
  | .hour => "hour must be in 0..23"
  | .minute => "minute must be in 0..59"
  | .second => "second must be in 0..59"
  | .zone minutes =>
    "offset must be a timedelta strictly between -timedelta(hours=24) and timedelta(hours=24), not "
      ++ spanText minutes ++ "."

def isLeap (year : Nat) : Bool :=
  year % 4 == 0 && (year % 100 != 0 || year % 400 == 0)

def daysIn (year month : Nat) : Nat :=
  if month = 2 then if isLeap year then 29 else 28
  else if month ∈ [4, 6, 9, 11] then 30
  else 31

def fault? (m : Moment) : Option Fault :=
  match m.time with
  | none => day? m
  | some t => zone? t <|> day? m <|> time? t
where
  zone? (t : TimeOfDay) : Option Fault :=
    match t.zone with
    | some minutes => if minutes.natAbs < 1440 then none else some (.zone minutes)
    | none => none
  day? (m : Moment) : Option Fault :=
    if m.year = 0 ∨ 9999 < m.year then some (.year m.year)
    else if m.month = 0 ∨ 12 < m.month then some .month
    else if m.day = 0 ∨ daysIn m.year m.month < m.day then some .day
    else none
  time? (t : TimeOfDay) : Option Fault :=
    if 23 < t.hour then some .hour
    else if 59 < t.minute then some .minute
    else if 59 < t.second then some .second
    else none

/-! ## Forms -/

def zoneShown (minutes : Int) : String :=
  (if minutes < 0 then "-" else "+") ++ padded 2 (minutes.natAbs / 60) ++ ":"
    ++ padded 2 (minutes.natAbs % 60)

def shown (m : Moment) : String :=
  let date := padded 4 m.year ++ "-" ++ padded 2 m.month ++ "-" ++ padded 2 m.day
  match m.time with
  | none => date
  | some t =>
    date ++ " " ++ padded 2 t.hour ++ ":" ++ padded 2 t.minute ++ ":" ++ padded 2 t.second
      ++ (if t.microsecond = 0 then "" else "." ++ padded 6 t.microsecond)
      ++ (t.zone.map zoneShown).getD ""

def zoneQuoted (minutes : Int) : String :=
  if minutes = 0 then "datetime.timezone.utc"
  else "datetime.timezone(" ++ spanText minutes ++ ")"

def quoted (m : Moment) : String :=
  match m.time with
  | none => s!"datetime.date({m.year}, {m.month}, {m.day})"
  | some t =>
    let small :=
      if t.microsecond ≠ 0 then [t.second, t.microsecond]
      else if t.second ≠ 0 then [t.second]
      else []
    let parts := ([m.year, m.month, m.day, t.hour, t.minute] ++ small).map toString
      ++ (t.zone.map fun minutes => "tzinfo=" ++ zoneQuoted minutes).toList
    "datetime.datetime(" ++ ", ".intercalate parts ++ ")"

end Moment
end SchemaViews

/-!
# `RailsUpgrade.Calendar`: days and moments

A `Day` is a year, a month and a day, a `Moment` a time of a day with or without an offset from
universal time. `Day.check` and `Moment.check` find the first part that is out of range. `text`
writes them with signs between the numbers, `inner` as parts of a greater value.
-/

set_option autoImplicit false

namespace RailsUpgrade

/-- A day of the calendar. -/
structure Day where
  year : Nat
  month : Nat
  day : Nat
  deriving DecidableEq, Repr

/-- A moment. The offset from universal time is in minutes. -/
structure Moment where
  date : Day
  hour : Nat
  minute : Nat
  second : Nat
  micro : Nat
  offset : Option Int
  deriving DecidableEq, Repr

/-- What is out of range in a day or a moment. -/
inductive CalendarFault where
  | year (n : Nat)
  | month
  | day
  | hour
  | minute
  | second
  | offset (minutes : Int)
  deriving DecidableEq, Repr

/-- A span of minutes: full days, rounded down, and the seconds that are left. -/
def spanText (minutes : Int) : String :=
  let days := minutes / 1440
  let seconds := (minutes % 1440) * 60
  let parts := (if days == 0 then [] else ["days=" ++ toString days])
    ++ (if seconds == 0 then [] else ["seconds=" ++ toString seconds])
  "datetime.timedelta(" ++ (if parts.isEmpty then "0" else String.intercalate ", " parts) ++ ")"

/-- What is wrong with a day or a moment. -/
def CalendarFault.message : CalendarFault → String
  | .year n => "year " ++ toString n ++ " is out of range"
  | .month => "month must be in 1..12"
  | .day => "day is out of range for month"
  | .hour => "hour must be in 0..23"
  | .minute => "minute must be in 0..59"
  | .second => "second must be in 0..59"
  | .offset minutes =>
    "offset must be a timedelta strictly between -timedelta(hours=24) and timedelta(hours=24), not "
      ++ spanText minutes ++ "."

/-- A number with at least `width` digits. -/
def padded (width n : Nat) : String :=
  let digits := Nat.toDigits 10 n
  String.ofList (List.replicate (width - digits.length) '0' ++ digits)

/-- Numbers with commas between them. -/
def listed (numbers : List Nat) : String := String.intercalate ", " (numbers.map toString)

namespace Day

/-- Whether a year has a day more. -/
def isLeap (year : Nat) : Bool := year % 4 == 0 && (year % 100 != 0 || year % 400 == 0)

/-- How many days a month has. -/
def lastDay (year month : Nat) : Nat :=
  match month with
  | 2 => if isLeap year then 29 else 28
  | 4 | 6 | 9 | 11 => 30
  | _ => 31

/-- The first part of a day that is out of range. -/
def fault? (d : Day) : Option CalendarFault :=
  if d.year == 0 then some (.year d.year)
  else if d.month == 0 || 12 < d.month then some .month
  else if d.day == 0 || lastDay d.year d.month < d.day then some .day
  else none

/-- A day with signs between its numbers. -/
def text (d : Day) : String :=
  padded 4 d.year ++ "-" ++ padded 2 d.month ++ "-" ++ padded 2 d.day

/-- A day as part of a greater value. -/
def inner (d : Day) : String := "datetime.date(" ++ listed [d.year, d.month, d.day] ++ ")"

end Day

namespace Moment

/-- The first part of a moment that is out of range. The offset counts first. -/
def fault? (m : Moment) : Option CalendarFault :=
  match m.offset.filter fun o => o ≤ -1440 || 1440 ≤ o with
  | some o => some (.offset o)
  | none => match m.date.fault? with
    | some fault => some fault
    | none =>
      if 23 < m.hour then some .hour
      else if 59 < m.minute then some .minute
      else if 59 < m.second then some .second
      else none

/-- An offset with its sign. -/
def offsetText (minutes : Int) : String :=
  (if minutes < 0 then "-" else "+") ++ padded 2 (minutes.natAbs / 60) ++ ":"
    ++ padded 2 (minutes.natAbs % 60)

/-- A moment with signs between its numbers. -/
def text (m : Moment) : String :=
  m.date.text ++ " " ++ padded 2 m.hour ++ ":" ++ padded 2 m.minute ++ ":" ++ padded 2 m.second
    ++ (if m.micro == 0 then "" else "." ++ padded 6 m.micro)
    ++ match m.offset with
      | none => ""
      | some o => offsetText o

/-- A moment as part of a greater value. Seconds and parts of them are left out if they are zero. -/
def inner (m : Moment) : String :=
  let d := m.date
  let fine := if m.micro != 0 then [m.second, m.micro] else if m.second != 0 then [m.second] else []
  "datetime.datetime(" ++ listed ([d.year, d.month, d.day, m.hour, m.minute] ++ fine)
    ++ (match m.offset with
      | none => ""
      | some 0 => ", tzinfo=datetime.timezone.utc"
      | some o => ", tzinfo=datetime.timezone(" ++ spanText o ++ ")")
    ++ ")"

end Moment

end RailsUpgrade

import EntityGraph.Calendar.Span

/-!
# Dates and times of day

Dates are those of the proleptic Gregorian calendar from year 1 to year 9999. A date also has a
number: day 1 is the first of January of year 1.

A timestamp is a date with a time of day in microseconds. It may name a zone by its offset from
universal time. Timestamps with a zone are compared by universal time, those without one by what
they say, and between the two kinds there is neither an order nor a distance.
-/

namespace EntityGraph.Calendar

/-- A day of the calendar. -/
structure Date where
  year : Nat
  month : Nat
  day : Nat
  deriving DecidableEq, Repr, Inhabited

/-- A day and a time of day, with the offset of a zone in minutes if it names one. -/
structure Timestamp where
  date : Date
  hour : Nat
  minute : Nat
  second : Nat
  micro : Nat
  offset : Option Int
  deriving DecidableEq, Repr, Inhabited

/-- Every fourth year is a leap year, but of the full centuries only every fourth. -/
def isLeap (year : Nat) : Bool :=
  year % 4 == 0 && (year % 100 != 0 || year % 400 == 0)

/-- The number of days of a month. -/
def daysInMonth (year month : Nat) : Nat :=
  if month == 2 then (if isLeap year then 29 else 28)
  else if [4, 6, 9, 11].contains month then 30 else 31

/-- The date of these numbers, if there is such a day. -/
def Date.ofNumbers? (year month day : Nat) : Option Date :=
  if 1 ≤ year && year ≤ 9999 && 1 ≤ month && month ≤ 12 && 1 ≤ day
      && day ≤ daysInMonth year month then
    some ⟨year, month, day⟩
  else none

/-- The days of the years before this one. -/
def daysBeforeYear (year : Nat) : Nat :=
  let y := year - 1
  365 * y + y / 4 - y / 100 + y / 400

/-- The days of the months of a year before this one. -/
def daysBeforeMonth (year month : Nat) : Nat :=
  ((List.range month).drop 1).foldl (fun n m => n + daysInMonth year m) 0

/-- The number of a day, counted from 1. -/
def Date.toOrdinal (d : Date) : Nat :=
  daysBeforeYear d.year + daysBeforeMonth d.year d.month + d.day

/-- The number of the last day of year 9999. -/
def lastOrdinal : Nat := daysBeforeYear 10000

/-- The day with a number, if it lies in the calendar. -/
def Date.ofOrdinal? (n : Nat) : Option Date :=
  if n < 1 || n > lastOrdinal then none
  else
    let guess := n / 366 + 1
    let year := ((List.range 30).map (guess + ·)).foldl
      (fun best y => if daysBeforeYear y < n && y ≤ 9999 then y else best) guess
    let rest := n - daysBeforeYear year
    let month := ((List.range 13).drop 1).foldl
      (fun best m => if daysBeforeMonth year m < rest then m else best) 1
    some ⟨year, month, rest - daysBeforeMonth year month⟩

/-- The day after. -/
def Date.next? (d : Date) : Option Date :=
  Date.ofOrdinal? (d.toOrdinal + 1)

/-- Compares dates by year, month and day. -/
def Date.compare (a b : Date) : Ordering :=
  (Ord.compare a.year b.year).then ((Ord.compare a.month b.month).then (Ord.compare a.day b.day))

/-- The time of day in microseconds. -/
def Timestamp.microOfDay (t : Timestamp) : Nat :=
  ((t.hour * 60 + t.minute) * 60 + t.second) * 1000000 + t.micro

/-- The days from one date to another. -/
def Date.daysSince (a b : Date) : Int := (a.toOrdinal : Int) - b.toOrdinal

/-- The date so many days later, if it lies in the calendar. -/
def Date.addDays? (d : Date) (days : Int) : Option Date :=
  let n := (d.toOrdinal : Int) + days
  if n < 1 then none else Date.ofOrdinal? n.toNat

/-- The first day of the first week of a year: the Monday of the week that holds its fourth day.
Days are counted from 1, so that of the year 1 is day 1. -/
def firstMonday (year : Nat) : Nat :=
  let fourth := daysBeforeYear year + 4
  fourth - (fourth - 1) % 7

/-- The date of a day of the week in a week of a year. -/
def Date.ofWeek? (year week day : Nat) : Option Date :=
  let start := firstMonday year
  let next := firstMonday (year + 1)
  let n := start + 7 * (week - 1) + (day - 1)
  if 1 ≤ year && 1 ≤ week && 1 ≤ day && day ≤ 7 && start + 7 * (week - 1) < next then
    Date.ofOrdinal? n
  else none

/-- The date of a day of a year. -/
def Date.ofDayOfYear? (year day : Nat) : Option Date :=
  if 1 ≤ year && 1 ≤ day && daysBeforeYear year + day ≤ daysBeforeYear (year + 1) then
    Date.ofOrdinal? (daysBeforeYear year + day)
  else none

/-- A date as year, month and day between hyphens. -/
def Date.text (d : Date) : String :=
  Text.padded 4 d.year ++ "-" ++ Text.padded 2 d.month ++ "-" ++ Text.padded 2 d.day

/-- A date as its constructor, as messages show it. -/
def Date.shown (d : Date) : String :=
  s!"datetime.date({d.year}, {d.month}, {d.day})"

namespace Timestamp

/-- The midnight that begins a day. -/
def midnight (d : Date) : Timestamp := ⟨d, 0, 0, 0, 0, none⟩

/-- The offset of a zone as a span. -/
def offsetSpan (minutes : Int) : Span := ⟨minutes * 60 * Span.perSecond⟩

/-- The microseconds from the day before the calendar to what a timestamp says. -/
def wall (t : Timestamp) : Int := t.date.toOrdinal * Span.perDay + t.microOfDay

/-- The microseconds to a timestamp in universal time, if it names its zone. -/
def universal (t : Timestamp) : Int := t.wall - (offsetSpan (t.offset.getD 0)).micros

/-- Whether both timestamps name a zone, or neither does. -/
def comparable (a b : Timestamp) : Bool := a.offset.isSome == b.offset.isSome

/-- How two comparable timestamps compare. -/
def compare (a b : Timestamp) : Ordering := Ord.compare a.universal b.universal

/-- The span from one comparable timestamp to another. -/
def since (a b : Timestamp) : Span := ⟨a.universal - b.universal⟩

/-- The timestamp of a zone that says so many microseconds, if its day lies in the calendar. -/
def ofLocal? (n : Int) (offset : Option Int) : Option Timestamp :=
  let day := n.fdiv Span.perDay
  let rest := (n.fmod Span.perDay).toNat
  let seconds := rest / 1000000
  if day < 1 then none
  else (Date.ofOrdinal? day.toNat).map fun d =>
    ⟨d, seconds / 3600, seconds / 60 % 60, seconds % 60, rest % 1000000, offset⟩

/-- The timestamp a span later, if its day lies in the calendar. -/
def add? (t : Timestamp) (s : Span) : Option Timestamp := ofLocal? (t.wall + s.micros) t.offset

/-- An offset as signed hours and minutes. -/
def offsetText (minutes : Int) : String :=
  (if minutes < 0 then "-" else "+") ++ Text.padded 2 (minutes.natAbs / 60) ++ ":"
    ++ Text.padded 2 (minutes.natAbs % 60)

/-- The name of a zone. -/
def zoneName (minutes : Int) : String :=
  if minutes == 0 then "UTC" else "UTC" ++ offsetText minutes

/-- A zone as its constructor, as messages show it. -/
def zoneShown (minutes : Int) : String :=
  if minutes == 0 then "datetime.timezone.utc"
  else "datetime.timezone(" ++ (offsetSpan minutes).shown ++ ")"

/-- A date and a time of day with a separator between them; microseconds only if there are any, and
the offset of the zone at the end if there is one. -/
def textWith (separator : String) (t : Timestamp) : String :=
  t.date.text ++ separator ++ Text.padded 2 t.hour ++ ":" ++ Text.padded 2 t.minute ++ ":"
    ++ Text.padded 2 t.second ++ (if t.micro == 0 then "" else "." ++ Text.padded 6 t.micro)
    ++ t.offset.elim "" offsetText

/-- A timestamp as its constructor; seconds and microseconds are left out when they are zero. -/
def shown (t : Timestamp) : String :=
  let tail := if t.micro != 0 then [t.second, t.micro] else if t.second != 0 then [t.second] else []
  let numbers := [t.date.year, t.date.month, t.date.day, t.hour, t.minute] ++ tail
  let zone := t.offset.elim [] fun minutes => ["tzinfo=" ++ zoneShown minutes]
  "datetime.datetime(" ++ Text.commaSeparated (numbers.map toString ++ zone) ++ ")"

end Timestamp

end EntityGraph.Calendar

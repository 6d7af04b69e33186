import EntityGraph.Calendar.Date

/-!
# Reading timestamps

A date is a year and then a month and a day, a week and a day of that week, or a day of the year. A
week is marked by the letter W, and its first day may be left out; a day of the year has three
digits. Hyphens stand between all parts or nowhere; with a hyphen a month may stand alone.

A time of day may follow after a letter T of either case or a blank: an hour, then optionally
minutes, then optionally seconds, with colons exactly when the date has hyphens. Seconds may carry a
fraction after a point or a comma, of which six digits count. The hour 24 stands for the midnight
that ends the day. After a time there may be a zone: the letter Z of either case, or a signed offset
in hours, or in hours and minutes with or without a colon.
-/

namespace EntityGraph.Calendar

/-- Why a text is no timestamp. -/
inductive ReadingFault where
  /-- The text has another form, or a field is out of its range. -/
  | malformed
  /-- The midnight that ends the last day of the calendar. -/
  | afterLastDay
  deriving DecidableEq

/-- Exactly so many digits, and the rest. -/
def takeNumber (count : Nat) (cs : List Char) : Option (Nat × List Char) :=
  let ds := cs.take count
  if ds.length == count && ds.all Char.isDigit then
    some (ds.foldl (fun n c => 10 * n + (c.toNat - '0'.toNat)) 0, cs.drop count)
  else none

/-- The rest after an expected character. -/
def takeChar (expected : Char) : List Char → Option (List Char)
  | c :: rest => if c == expected then some rest else none
  | [] => none

/-- Whether a date can end before these characters. -/
def endsDate : List Char → Bool
  | [] => true
  | c :: _ => ['T', 't', ' '].contains c

/-- A week of a year after its mark, with or without a day of that week. -/
def takeWeek (hyphens : Bool) (year : Nat) (cs : List Char) : Option (Date × List Char) := do
  let (week, rest) ← takeNumber 2 cs
  if endsDate rest then return (← Date.ofWeek? year week 1, rest)
  let rest ← if hyphens then takeChar '-' rest else some rest
  let (day, rest) ← takeNumber 1 rest
  return (← Date.ofWeek? year week day, rest)

/-- A month, with or without a day, or a day of a year, after a hyphen. -/
def takeHyphened (year : Nat) (cs : List Char) : Option (Date × List Char) := do
  match takeNumber 3 cs with
  | some (day, rest) => return (← Date.ofDayOfYear? year day, rest)
  | none =>
    let (month, rest) ← takeNumber 2 cs
    match rest with
    | '-' :: rest =>
      let (day, rest) ← takeNumber 2 rest
      return (← Date.ofNumbers? year month day, rest)
    | rest => return (← Date.ofNumbers? year month 1, rest)

/-- A month and a day, or a day of a year, without hyphens. -/
def takeCompact (year : Nat) (cs : List Char) : Option (Date × List Char) := do
  match takeNumber 4 cs with
  | some (n, rest) => return (← Date.ofNumbers? year (n / 100) (n % 100), rest)
  | none =>
    let (day, rest) ← takeNumber 3 cs
    return (← Date.ofDayOfYear? year day, rest)

/-- A date; says also whether there were hyphens. -/
def takeDate (cs : List Char) : Option (Date × Bool × List Char) := do
  let (year, rest) ← takeNumber 4 cs
  let (hyphens, rest) := match rest with
    | '-' :: rest => (true, rest)
    | rest => (false, rest)
  let (date, rest) ← match rest with
    | 'W' :: rest => takeWeek hyphens year rest
    | rest => if hyphens then takeHyphened year rest else takeCompact year rest
  return (date, hyphens, rest)

/-- Whether a time of day can end before these characters. -/
def endsTime : List Char → Bool
  | [] => true
  | c :: _ => ['Z', 'z', '+', '-'].contains c

/-- The next two-digit field of a time of day, with its colon if the time is written with them. -/
def takeField (colons : Bool) (cs : List Char) : Option (Nat × List Char) := do
  let rest ← if colons then takeChar ':' cs else some cs
  takeNumber 2 rest

/-- The fraction of a second, in microseconds. -/
def takeFraction : List Char → Option (Nat × List Char)
  | c :: rest =>
    if c == '.' || c == ',' then
      let ds := rest.takeWhile Char.isDigit
      if ds.isEmpty then none
      else
        let six := (ds ++ List.replicate 6 '0').take 6
        some (six.foldl (fun n d => 10 * n + (d.toNat - '0'.toNat)) 0, rest.drop ds.length)
    else some (0, c :: rest)
  | [] => some (0, [])

/-- Hour, minute, second and microsecond. -/
def takeTime (colons : Bool) (cs : List Char) : Option (Nat × Nat × Nat × Nat × List Char) := do
  let (hour, rest) ← takeNumber 2 cs
  if endsTime rest then return (hour, 0, 0, 0, rest)
  let (minute, rest) ← takeField colons rest
  if endsTime rest then return (hour, minute, 0, 0, rest)
  let (second, rest) ← takeField colons rest
  let (micro, rest) ← takeFraction rest
  return (hour, minute, second, micro, rest)

/-- The offset of a zone in minutes, up to the end of the text. -/
def takeZone (cs : List Char) : Option (Option Int) :=
  match cs with
  | [] => some none
  | ['Z'] | ['z'] => some (some 0)
  | sign :: rest =>
    if sign != '+' && sign != '-' then none
    else do
      let (hours, rest) ← takeNumber 2 rest
      let (minutes, rest) ← match rest with
        | [] => some (0, [])
        | ':' :: rest => takeNumber 2 rest
        | rest => takeNumber 2 rest
      if !rest.isEmpty || minutes > 59 || hours > 23 then none
      else
        let total : Int := (hours * 60 + minutes : Nat)
        some (some (if sign == '-' then -total else total))

/-- A timestamp of these fields; the hour 24 is the next midnight. -/
def makeTimestamp (date : Date) (hour minute second micro : Nat) (offset : Option Int) :
    Except ReadingFault Timestamp :=
  if hour == 24 && minute == 0 && second == 0 && micro == 0 then
    match date.next? with
    | some next => .ok ⟨next, 0, 0, 0, 0, offset⟩
    | none => .error .afterLastDay
  else if hour > 23 || minute > 59 || second > 59 then .error .malformed
  else .ok ⟨date, hour, minute, second, micro, offset⟩

namespace Timestamp

/-- Reads a timestamp. -/
def read (s : String) : Except ReadingFault Timestamp := do
  let some (date, hyphens, rest) := takeDate s.toList | throw .malformed
  match rest with
  | [] => return midnight date
  | separator :: rest =>
    if !(['T', 't', ' '].contains separator) then throw .malformed
    let some (hour, minute, second, micro, rest) := takeTime hyphens rest | throw .malformed
    let some offset := takeZone rest | throw .malformed
    makeTimestamp date hour minute second micro offset

/-- Whether a timestamp is a plain date: midnight, and no zone. -/
def isDate (t : Timestamp) : Bool := t.microOfDay == 0 && t.offset.isNone

end Timestamp

end EntityGraph.Calendar

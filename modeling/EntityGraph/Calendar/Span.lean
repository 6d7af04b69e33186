import EntityGraph.Number.Binary
import EntityGraph.Text.Quoted

/-!
# Spans of time

A span is a number of microseconds of either sign, and it may not be longer than 999999999 days. It
is taken apart into days, seconds and microseconds, of which only the days can be negative. Spans
are added, multiplied and divided exactly; a result between two microseconds goes to the nearer
one, and a tie to the even one.
-/

namespace EntityGraph.Calendar

/-- A span of time in microseconds. -/
structure Span where
  micros : Int
  deriving DecidableEq, Repr, Inhabited

namespace Span

/-- The microseconds of a second. -/
def perSecond : Int := 1000000

/-- The microseconds of a day. -/
def perDay : Int := 86400 * perSecond

/-- The most days that a span can have. -/
def dayLimit : Int := 999999999

/-- The days of a span, rounded down. -/
def days (s : Span) : Int := s.micros.fdiv perDay

/-- The seconds of a span after its days. -/
def seconds (s : Span) : Int := (s.micros.fmod perDay).fdiv perSecond

/-- The microseconds of a span after its seconds. -/
def microseconds (s : Span) : Int := s.micros.fmod perSecond

/-- A span of so many microseconds, unless it is too long. -/
def ofMicros? (n : Int) : Option Span :=
  let s : Span := ⟨n⟩
  if s.days.natAbs ≤ dayLimit.toNat then some s else none

/-- The integer nearest to a quotient, the divisor not zero; a tie goes to the even one. -/
def nearest (num den : Int) : Int :=
  let n := Number.roundQuotient num.natAbs den.natAbs
  if (num < 0) != (den < 0) then -n else n

/-- A number of seconds less than a day as hours, minutes and seconds. -/
def clock (seconds : Int) : String :=
  let n := seconds.toNat
  toString (n / 3600) ++ ":" ++ Text.padded 2 (n / 60 % 60) ++ ":" ++ Text.padded 2 (n % 60)

/-- A span as days and a time of day. -/
def text (s : Span) : String :=
  let days := if s.days == 0 then ""
    else toString s.days ++ (if s.days.natAbs == 1 then " day, " else " days, ")
  let micros := if s.microseconds == 0 then "" else "." ++ Text.padded 6 s.microseconds.toNat
  days ++ clock s.seconds ++ micros

/-- A span as its constructor; parts that are zero are left out. -/
def shown (s : Span) : String :=
  let part := fun (name : String) (n : Int) => if n == 0 then [] else [name ++ "=" ++ toString n]
  let parts := part "days" s.days ++ part "seconds" s.seconds
    ++ part "microseconds" s.microseconds
  "datetime.timedelta(" ++ (if parts.isEmpty then "0" else Text.commaSeparated parts) ++ ")"

end Span

end EntityGraph.Calendar

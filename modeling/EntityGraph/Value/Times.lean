import EntityGraph.Value.Quantity

/-!
# Arithmetic of times

Two dates, or two timestamps of one kind, are a span apart, and a span leads from one of them to
another; of a span added to a date only the whole days count. Spans are added and subtracted,
multiplied and divided by numbers, and divided by one another. What leaves the calendar, or is too
long for a span, is a fault.
-/

namespace EntityGraph.Value

/-- A span of so many microseconds. -/
def spanOf (micros : Int) : Outcome Value :=
  match Calendar.Span.ofMicros? micros with
  | some s => .ok (span s)
  | Option.none => .error (.host .overflow "a span is too long")

/-- A date or a timestamp that may lie outside the calendar. -/
def insideCalendar {α : Type} (make : α → Value) : Option α → Outcome Value
  | some a => .ok (make a)
  | Option.none => .error (.host .overflow "date value out of range")

/-- A double as a fraction with a positive denominator. -/
def ratioOf (x : Float) : Outcome (Int × Nat) :=
  match Number.Binary.ofFloat? x with
  | some b =>
    let (num, den) := Number.scale b.mantissa b.exponent
    .ok (if b.negative then -(num : Int) else num, den)
  | Option.none =>
    if x.isNaN then .error (.host .wrongValue "cannot convert NaN to integer ratio")
    else .error (.host .overflow "cannot convert Infinity to integer ratio")

/-- The fault of dividing a span by nothing. -/
def emptyDivisor : Fault := .host .zeroDivision "integer division or modulo by zero"

/-- A span as the nearest one to a quotient. -/
def spanRatio (num den : Int) : Outcome Value :=
  if den == 0 then .error emptyDivisor else spanOf (Calendar.Span.nearest num den)

/-- The sum of two values if one of them is a span and the other one a time. -/
def addTimes? (a b : Value) : Option (Outcome Value) :=
  match a, b with
  | span s, span t => some (spanOf (s.micros + t.micros))
  | date d, span s | span s, date d => some (insideCalendar date (d.addDays? s.days))
  | timestamp t, span s | span s, timestamp t => some (insideCalendar timestamp (t.add? s))
  | _, _ => Option.none

/-- The difference of two times. -/
def subTimes? (a b : Value) : Option (Outcome Value) :=
  match a, b with
  | span s, span t => some (spanOf (s.micros - t.micros))
  | date d, span s => some (insideCalendar date (d.addDays? (-s.days)))
  | timestamp t, span s => some (insideCalendar timestamp (t.add? ⟨-s.micros⟩))
  | date d, date e => some (spanOf (d.daysSince e * Calendar.Span.perDay))
  | timestamp t, timestamp u =>
    some (if t.comparable u then .ok (span (t.since u))
      else .error (.wrongType "can't subtract offset-naive and offset-aware datetimes"))
  | _, _ => Option.none

/-- A span multiplied by a number. -/
def scaleSpan? (s : Calendar.Span) (factor : Value) : Option (Outcome Value) :=
  match factor with
  | float x _ => some do
    let (num, den) ← ratioOf x
    spanRatio (s.micros * num) den
  | v => v.asInt?.map fun n => spanOf (s.micros * n)

/-- The product of a span and a number. -/
def mulTimes? (a b : Value) : Option (Outcome Value) :=
  match a, b with
  | span s, b => scaleSpan? s b
  | a, span s => scaleSpan? s a
  | _, _ => Option.none

/-- The quotient of a span and a number, or of two spans. -/
def divTimes? (a b : Value) : Option (Outcome Value) :=
  match a, b with
  | span s, span t =>
    some (if t.micros == 0 then .error emptyDivisor
      else .ok (ofFloat ((Number.divide s.micros t.micros).getD 0.0)))
  | span s, float x _ => some do
    let (num, den) ← ratioOf x
    spanRatio (s.micros * den) num
  | span s, v => v.asInt?.map fun n => spanRatio s.micros n
  | _, _ => Option.none

/-- The remainder of two spans, with the sign of the divisor. -/
def modTimes? (a b : Value) : Option (Outcome Value) :=
  match a, b with
  | span s, span t =>
    some (if t.micros == 0 then .error emptyDivisor else spanOf (s.micros.fmod t.micros))
  | _, _ => Option.none

end EntityGraph.Value

import EntityGraph.Value.Filled
import EntityGraph.Value.Times

/-!
# Arithmetic of values

Integers have any size. Their quotient is the nearest double; a remainder has the sign of the
divisor. Where a double takes part, integers become doubles first; decimal numbers and complex
numbers take in integers, and complex ones also doubles. Times have an arithmetic of their own.

Texts, lists, tuples and bytes can be joined, and repeated an integer number of times; sets have
differences, unions and common elements; dictionaries can be merged, and classes make unions of
types. Everything else is a fault of the types.
-/

namespace EntityGraph

namespace Value

/-- The fault of an operator that does not apply to its operands. -/
def noOperation (w : World) (symbol : String) (a b : Value) : Fault :=
  .wrongType ("unsupported operand type(s) for " ++ symbol ++ ": '" ++ a.fullTypeName w ++ "' and '"
    ++ b.fullTypeName w ++ "'")

/-- The fault of joining something to a text, a list, a tuple or bytes. -/
def noJoin (w : World) (kind : String) (b : Value) : Fault :=
  .wrongType
    ("can only concatenate " ++ kind ++ " (not \"" ++ b.fullTypeName w ++ "\") to " ++ kind)

/-- Two sequences of one kind joined. -/
def join (w : World) (a b : Value) : Outcome Value :=
  match a, b with
  | str s, str t => .ok (str (s ++ t))
  | str _, b => .error (noJoin w "str" b)
  | list xs, list ys => .ok (list (xs ++ ys))
  | list _, b => .error (noJoin w "list" b)
  | bytes x, bytes y => .ok (bytes (x ++ y))
  | bytes _, b => .error (.wrongType ("can't concat " ++ b.fullTypeName w ++ " to bytes"))
  | a, b =>
    match a.tupleView? w, b.tupleView? w with
    | some xs, some ys => .ok (tuple (xs ++ ys))
    | some _, Option.none => .error (noJoin w "tuple" b)
    | Option.none, _ => .error (noOperation w "+" a b)

/-- The sum of two numbers or times, or two sequences of one kind joined. -/
def add (w : World) (a b : Value) : Outcome Value := do
  match ← numbers? a b with
  | some (.ints m n) => .ok (int (m + n))
  | some (.floats x y) => .ok (ofFloat (x + y))
  | some (.decimals x y) => ofDecimal (x.add y)
  | some (.complexes x y) => .ok (ofComplexFloat (x.add y))
  | Option.none => (addTimes? a b).getD (join w a b)

/-- The difference of two numbers, of two times, or of two sets. -/
def sub (w : World) (a b : Value) : Outcome Value := do
  match ← numbers? a b with
  | some (.ints m n) => .ok (int (m - n))
  | some (.floats x y) => .ok (ofFloat (x - y))
  | some (.decimals x y) => ofDecimal (x.sub y)
  | some (.complexes x y) => .ok (ofComplexFloat (x.sub y))
  | Option.none =>
    match a, b with
    | set xs, set ys => do
      .ok (set (setOrder (← xs.filterM fun x => do .ok (!(← anySame w x ys)))))
    | a, b => (subTimes? a b).getD (.error (noOperation w "-" a b))

/-- A list repeated; nothing if the count is negative. -/
def repeated {α : Type} (xs : List α) (n : Int) : List α :=
  if xs.isEmpty then [] else (List.replicate n.toNat xs).flatten

/-- The most elements that a repeated sequence can have. -/
def lengthLimit : Nat := Number.twoTo 32

/-- The most elements of a sequence that memory could ever hold. -/
def addressLimit : Nat := Number.twoTo 63

/-- A sequence repeated. The result has to fit into memory. -/
def timesWithin {α : Type} (isText : Bool) (make : List α → Value) (xs : List α) (n : Int) :
    Outcome Value :=
  let size := xs.length * n.toNat
  if n.natAbs ≥ addressLimit then
    .error (.host .overflow "cannot fit 'int' into an index-sized integer")
  else if isText && size ≥ addressLimit then .error (.host .overflow "repeated too often")
  else if size ≥ lengthLimit then .error (.host .memory "")
  else .ok (make (repeated xs n))

/-- A sequence repeated. -/
def times (w : World) (v : Value) (n : Int) : Option (Outcome Value) :=
  match v with
  | str s => some (timesWithin true (str ∘ String.ofList) s.toList n)
  | list xs => some (timesWithin false list xs n)
  | bytes bs => some (timesWithin true bytes bs n)
  | v => (v.tupleView? w).map fun xs => timesWithin false tuple xs n

/-- The fault of repeating a sequence another number than an integer of times. -/
def noTimes (w : World) (v : Value) : Fault :=
  .wrongType ("can't multiply sequence by non-int of type '" ++ v.fullTypeName w ++ "'")

/-- Whether a value is a sequence that can be repeated. -/
def isRepeatable (w : World) (v : Value) : Bool := (v.times w 0).isSome

/-- The product of two numbers, of a span and a number, or a sequence repeated. -/
def mul (w : World) (a b : Value) : Outcome Value := do
  match ← numbers? a b with
  | some (.ints m n) => .ok (int (m * n))
  | some (.floats x y) => .ok (ofFloat (x * y))
  | some (.decimals x y) => ofDecimal (x.mul y)
  | some (.complexes x y) => .ok (ofComplexFloat (x.mul y))
  | Option.none =>
    match mulTimes? a b, b.asInt?.bind (a.times w), a.asInt?.bind (b.times w) with
    | some v, _, _ => v
    | _, some v, _ => v
    | _, _, some v => v
    | _, _, _ =>
      if a.isRepeatable w then .error (noTimes w b)
      else if b.isRepeatable w then .error (noTimes w a)
      else .error (noOperation w "*" a b)

/-- The quotient of two numbers, or of a span and a number or another span. That of two integers is
a double. -/
def div (w : World) (a b : Value) : Outcome Value := do
  match ← numbers? a b with
  | some (.ints m n) =>
    if n == 0 then .error (.host .zeroDivision "division by zero")
    else
      match Number.divide m n with
      | some x => .ok (ofFloat x)
      | Option.none =>
        .error (.host .overflow "integer division result too large for a float")
  | some (.floats x y) =>
    if y == 0.0 then .error (.host .zeroDivision "float division by zero")
    else .ok (ofFloat (x / y))
  | some (.decimals x y) => ofDecimal (x.div y)
  | some (.complexes x y) =>
    match x.div? y with
    | some z => .ok (ofComplexFloat z)
    | Option.none => .error (.host .zeroDivision "complex division by zero")
  | Option.none => (divTimes? a b).getD (.error (noOperation w "/" a b))

/-- Whether a value is a complex number. -/
def isComplex : Value → Bool
  | complex .. => true
  | _ => false

/-- The remainder of two numbers or two spans, with the sign of the divisor, or a text or bytes
filled in. -/
def mod (w : World) (a b : Value) : Outcome Value := do
  match a with
  | str s => fill w s b
  | bytes bs => fillBytes w bs b
  | a =>
    if a.isComplex || b.isComplex then .error (noOperation w "%" a b)
    else
      match ← numbers? a b with
      | some (.ints m n) =>
        if n == 0 then .error (.host .zeroDivision "integer modulo by zero")
        else .ok (int (m.fmod n))
      | some (.floats x y) =>
        if y == 0.0 then .error (.host .zeroDivision "float modulo")
        else .ok (ofFloat (Number.modulus x y))
      | some (.decimals x y) => ofDecimal (x.mod y)
      | some (.complexes ..) => .error (noOperation w "%" a b)
      | Option.none => (modTimes? a b).getD (.error (noOperation w "%" a b))

/-- A number or a span with the other sign. -/
def neg (w : World) : Value → Outcome Value
  | float x _ => .ok (ofFloat (-x))
  | decimal d _ => ofDecimal d.neg
  | complex z _ => .ok (ofComplexFloat z.neg)
  | span s => spanOf (-s.micros)
  | v =>
    match v.asInt? with
    | some n => .ok (int (-n))
    | Option.none =>
      .error (.wrongType ("bad operand type for unary -: '" ++ v.fullTypeName w ++ "'"))

/-- The complement of an integer. -/
def complement (w : World) (v : Value) : Outcome Value :=
  match v.asInt? with
  | some n => .ok (int (-n - 1))
  | Option.none =>
    .error (.wrongType ("bad operand type for unary ~: '" ++ v.fullTypeName w ++ "'"))

/-- An integer's binary digits combined with those of another one, digit by digit. -/
def combineDigits (f : Bool → Bool → Bool) (m n : Int) : Int :=
  let width := max m.natAbs.log2 n.natAbs.log2 + 2
  let digit := fun (k : Int) (i : Nat) => (k / Number.twoTo i) % 2 == 1
  let value := (List.range width).foldl
    (fun (total : Int) i => if f (digit m i) (digit n i) then total + Number.twoTo i else total) 0
  if f (m < 0) (n < 0) then value - Number.twoTo width else value

/-- The digits common to two integers, the conjunction of two truth values, or the common elements
of two sets. -/
def bitAnd (w : World) (a b : Value) : Outcome Value :=
  match a, b with
  | bool x, bool y => .ok (bool (x && y))
  | set xs, set ys => do .ok (set (setOrder (← xs.filterM fun x => anySame w x ys)))
  | a, b =>
    match a.asInt?, b.asInt? with
    | some m, some n => .ok (int (combineDigits (· && ·) m n))
    | _, _ => .error (noOperation w "&" a b)

/-- The entries of two dictionaries, those of the second one first in rank. -/
def merge (w : World) (es fs : List (Value × Value)) : Outcome (List (Value × Value)) :=
  fs.foldlM (fun es (k, v) => putEntry w es k v) es

/-- Whether a value can stand among the types of a union. -/
def isTypeLike : Value → Bool
  | none | type _ => true
  | generic .. => true
  | foreign t _ => t == .builtin .unionType
  | _ => false

/-- The union of two types; of one type, the type itself. -/
def unite (w : World) (a b : Value) : Outcome Value :=
  match a, b with
  | type s, type t => .ok (if s == t then type s else ofClass .unionType)
  | a, b =>
    if a.isTypeLike && b.isTypeLike && !(a.isNone && b.isNone) then .ok (ofClass .unionType)
    else .error (noOperation w "|" a b)

/-- The digits of either of two integers, the disjunction of two truth values, the elements of two
sets, the entries of two dictionaries, or the union of two types. -/
def bitOr (w : World) (a b : Value) : Outcome Value :=
  match a, b with
  | bool x, bool y => .ok (bool (x || y))
  | set xs, set ys => makeSet w (xs ++ ys)
  | dict es, dict fs => do .ok (dict (← merge w es fs))
  | a, b =>
    match a.entriesView?, b.entriesView? with
    | some (es, _), some (fs, _) => do .ok (ofEntries (← merge w es fs))
    | _, _ =>
      match a.asInt?, b.asInt? with
      | some m, some n => .ok (int (combineDigits (· || ·) m n))
      | _, _ => unite w a b

end Value

end EntityGraph

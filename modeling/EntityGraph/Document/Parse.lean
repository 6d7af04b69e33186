import EntityGraph.Document.Token

/-!
# Parsing documents

The grammar of documents, one function for each of its phrases. A phrase reads tokens from the front
of what is left, and whatever does not fit the grammar is no document.

Repetitions take a bound on their number, which is computed from the tokens that are left, of which
every item takes at least one. Phrases that contain themselves take the number of levels that are
left to them: selection sets, lists, objects and list types of one definition together may stand no
more than two hundred deep.
-/

namespace EntityGraph.Document

/-- Reading tokens from the front of what is left. -/
abbrev Phrase := StateT (List Token) Option

namespace Phrase

open Interface (TypeExpr)

/-- The next token does not fit. -/
def unexpected {α : Type} : Phrase α := failure

/-- The next token, which stays. -/
def peek : Phrase (Option Token) := do
  match ← get with
  | .bad :: _ => unexpected
  | t :: _ => return some t
  | [] => return none

/-- Drops the next token. -/
def skip : Phrase Unit := modify (·.drop 1)

/-- Whether the next token is this one. -/
def isNext (t : Token) : Phrase Bool := do return (← peek) == some t

/-- Reads this token if it comes next. -/
def accept (t : Token) : Phrase Bool := do
  if ← isNext t then do skip; return true else return false

/-- Reads this token. -/
def expect (t : Token) : Phrase Unit := do
  if !(← accept t) then unexpected

/-- The opening and the closing brace. -/
def openBrace : Token := .mark '\x7b'

/-- The closing brace. -/
def closeBrace : Token := .mark '\x7d'

/-- A bound for what is left: the number of tokens and one more. -/
def bound : Phrase Nat := do return (← get).length + 1

/-- Items up to a closing token. -/
def itemsWithin {α : Type} (close : Token) (item : Phrase α) : Nat → Phrase (List α)
  | 0 => unexpected
  | fuel + 1 => do
    if ← accept close then return []
    else
      let x ← item
      return x :: (← itemsWithin close item fuel)

/-- Items between an opening and a closing token, possibly none. -/
def any {α : Type} (start close : Token) (item : Phrase α) : Phrase (List α) := do
  expect start
  itemsWithin close item (← bound)

/-- Items between an opening and a closing token, at least one. -/
def many {α : Type} (start close : Token) (item : Phrase α) : Phrase (List α) := do
  expect start
  let x ← item
  return x :: (← itemsWithin close item (← bound))

/-- Items between an opening and a closing token, at least one, or nothing at all. -/
def optionalMany {α : Type} (start close : Token) (item : Phrase α) : Phrase (List α) := do
  if ← isNext start then many start close item else return []

/-- Items while a separator stands between them. -/
def separatedWithin {α : Type} (separator : Token) (item : Phrase α) : Nat → Phrase (List α)
  | 0 => unexpected
  | fuel + 1 => do
    let x ← item
    if ← accept separator then return x :: (← separatedWithin separator item fuel) else return [x]

/-- Items with a separator between them, which may also stand before the first. -/
def separated {α : Type} (separator : Token) (item : Phrase α) : Phrase (List α) := do
  let _ ← accept separator
  separatedWithin separator item (← bound)

/-- A name. -/
def name : Phrase String := do
  match ← peek with
  | some (.name s) => do skip; return s
  | _ => unexpected

/-- A name that is no fragment's condition. -/
def fragmentName : Phrase String := do
  if ← isNext (.name "on") then unexpected else name

/-- A variable. -/
def variableName : Phrase String := do
  expect (.mark '$')
  name

/-- How deep the phrases of a definition may be nested. -/
def nestingLimit : Nat := 200

/-- The mark behind a type that must have a value. -/
def markNonNull (t : TypeExpr) : Phrase TypeExpr := do
  if ← accept (.mark '!') then return .nonNull t else return t

/-- A type, with the levels that are left. -/
def typeWithin : Nat → Phrase TypeExpr
  | 0 => do markNonNull (.named (← name))
  | levels + 1 => do
    if ← accept (.mark '[') then
      let t ← typeWithin levels
      expect (.mark ']')
      markNonNull (.list t)
    else markNonNull (.named (← name))

/-- A type. -/
def type : Phrase TypeExpr := typeWithin nestingLimit

/-- The literal that a name is. -/
def nameLiteral (s : String) : Literal :=
  match s with
  | "true" => .bool true
  | "false" => .bool false
  | "null" => .null
  | s => .enumeration s

/-- A literal that holds no others. A constant one is no variable. -/
def plainLiteral (isConst : Bool) : Phrase Literal := do
  match ← peek with
  | some (.int s) => do skip; return .int s
  | some (.float s) => do skip; return .float s
  | some (.str s b) => do skip; return .str s b
  | some (.name s) => do skip; return nameLiteral s
  | _ => if isConst then unexpected else return .var (← variableName)

/-- A literal, with the levels that are left. A constant one holds no variables. -/
def literalWithin (isConst : Bool) : Nat → Phrase Literal
  | 0 => plainLiteral isConst
  | levels + 1 => do
    if ← isNext (.mark '[') then
      return .list (← any (.mark '[') (.mark ']') (literalWithin isConst levels))
    else if ← isNext openBrace then
      return .object (← any openBrace closeBrace do
        let n ← name
        expect (.mark ':')
        return (n, ← literalWithin isConst levels))
    else plainLiteral isConst

/-- An argument, with the levels that are left. -/
def argument (isConst : Bool) (levels : Nat) : Phrase Argument := do
  let n ← name
  expect (.mark ':')
  return (n, ← literalWithin isConst levels)

/-- The arguments of a field or a directive, with the levels that are left. -/
def arguments (isConst : Bool) (levels : Nat) : Phrase (List Argument) :=
  optionalMany (.mark '(') (.mark ')') (argument isConst levels)

/-- Directives, with the levels that are left and a bound on their number. -/
def directivesWithin (isConst : Bool) (levels : Nat) : Nat → Phrase (List Directive)
  | 0 => unexpected
  | fuel + 1 => do
    if ← accept (.mark '@') then
      let n ← name
      let args ← arguments isConst levels
      return ⟨n, args⟩ :: (← directivesWithin isConst levels fuel)
    else return []

/-- The directives at a place, with the levels that are left. -/
def directives (isConst : Bool) (levels : Nat) : Phrase (List Directive) := do
  directivesWithin isConst levels (← bound)

/-- The label and the name of a field. -/
def fieldName : Phrase (Option String × String) := do
  let first ← name
  if ← accept (.mark ':') then return (some first, ← name) else return (none, first)

/-- A selection, with the levels that are left and the selection sets it may hold. -/
def selection (levels : Nat) (set : Phrase (List Selection)) : Phrase Selection := do
  if ← accept .spread then
    if ← accept (.name "on") then
      let onType ← name
      let ds ← directives false levels
      return .inline (some onType) ds (← set)
    else
      match ← peek with
      | some (.name _) => do
        let n ← fragmentName
        return .spread n (← directives false levels)
      | _ => do
        let ds ← directives false levels
        return .inline none ds (← set)
  else
    let (label, n) ← fieldName
    let args ← arguments false levels
    let ds ← directives false levels
    if ← isNext openBrace then return .field label n args ds (← set)
    else return .field label n args ds []

/-- A selection set, with the levels that are left. -/
def selectionSetWithin : Nat → Phrase (List Selection)
  | 0 => unexpected
  | levels + 1 => many openBrace closeBrace (selection levels (selectionSetWithin levels))

/-- A selection set. -/
def selectionSet : Phrase (List Selection) := selectionSetWithin nestingLimit

/-- Whether a description comes next. -/
def isDescription : Phrase Bool := do
  match ← peek with
  | some (.str ..) => return true
  | _ => return false

/-- A description, if there is one; nothing is kept of it. -/
def description : Phrase Unit := do
  if ← isDescription then skip

/-- The definition of a variable. -/
def variableDef : Phrase VariableDef := do
  description
  let n ← variableName
  expect (.mark ':')
  let t ← type
  let default ←
    if ← accept (.mark '=') then pure (some (← literalWithin true nestingLimit)) else pure none
  return ⟨n, t, default, ← directives true nestingLimit⟩

/-- The kind of an operation. -/
def operationKind : Phrase OperationKind := do
  match OperationKind.ofText? (← name) with
  | some k => return k
  | none => unexpected

/-- An operation after its description. -/
def operation : Phrase Operation := do
  if ← isNext openBrace then return ⟨.query, none, [], [], ← selectionSet⟩
  else
    let kind ← operationKind
    let n ← match ← peek with
      | some (.name s) => do skip; pure (some s)
      | _ => pure none
    let vs ← optionalMany (.mark '(') (.mark ')') variableDef
    let ds ← directives false nestingLimit
    return ⟨kind, n, vs, ds, ← selectionSet⟩

/-- A fragment after its description. -/
def fragment : Phrase Fragment := do
  expect (.name "fragment")
  let n ← fragmentName
  expect (.name "on")
  let onType ← name
  let ds ← directives false nestingLimit
  return ⟨n, onType, ds, ← selectionSet⟩

end Phrase

end EntityGraph.Document

import EntityGraph.Document.Parse

/-!
# Definitions of types in documents

The grammar also has definitions of types, their extensions and definitions of directives. A request
may hold none of them, but a document that does is still a document. Each phrase says whether it
read anything.
-/

namespace EntityGraph.Document.Phrase

/-- Reads a phrase and keeps nothing of it. -/
def ignore {α : Type} (p : Phrase α) : Phrase Unit := do
  let _ ← p
  return ()

/-- Constant directives; says whether there are any. -/
def typeDirectives : Phrase Bool := do
  return !(← directives true nestingLimit).isEmpty

/-- The definition of an argument or of an input field. -/
def inputValue : Phrase Unit := do
  description
  ignore name
  expect (.mark ':')
  ignore type
  if ← accept (.mark '=') then ignore (literalWithin true nestingLimit)
  ignore typeDirectives

/-- The definitions of arguments. -/
def argumentDefs : Phrase Unit :=
  ignore (optionalMany (.mark '(') (.mark ')') inputValue)

/-- The definition of a field. -/
def fieldDef : Phrase Unit := do
  description
  ignore name
  argumentDefs
  expect (.mark ':')
  ignore type
  ignore typeDirectives

/-- The value of an enumeration; three names are taken. -/
def enumValue : Phrase Unit := do
  description
  match ← peek with
  | some (.name s) => if ["true", "false", "null"].contains s then unexpected else skip
  | _ => unexpected
  ignore typeDirectives

/-- The definition of the type of an operation. -/
def rootType : Phrase Unit := do
  ignore operationKind
  expect (.mark ':')
  ignore name

/-- The interfaces of a type; says whether there are any. -/
def interfaces : Phrase Bool := do
  if ← accept (.name "implements") then
    ignore (separated (.mark '&') name)
    return true
  else return false

/-- A block between braces; says whether there is one. -/
def block (item : Phrase Unit) : Phrase Bool := do
  return !(← optionalMany openBrace closeBrace item).isEmpty

/-- The types of a union; says whether there are any. -/
def unionTypes : Phrase Bool := do
  if ← accept (.mark '=') then
    ignore (separated (.mark '\x7c') name)
    return true
  else return false

/-- The place of a directive. -/
def location : Phrase Unit := do
  if !Interface.directiveLocations.contains (← name) then unexpected

/-- What follows the keyword of a definition; says whether that is anything but a name. -/
def typeBody (keyword : String) : Phrase Bool := do
  match keyword with
  | "schema" => do
    let ds ← typeDirectives
    return (← block rootType) || ds
  | "scalar" => do
    ignore name
    typeDirectives
  | "type" | "interface" => do
    ignore name
    let is ← interfaces
    let ds ← typeDirectives
    let fs ← block fieldDef
    return is || ds || fs
  | "union" => do
    ignore name
    let ds ← typeDirectives
    return (← unionTypes) || ds
  | "enum" => do
    ignore name
    let ds ← typeDirectives
    return (← block enumValue) || ds
  | "input" => do
    ignore name
    let ds ← typeDirectives
    return (← block inputValue) || ds
  | _ => unexpected

/-- The keywords of the definitions that can be extended. -/
def typeKeywords : List String :=
  ["schema", "scalar", "type", "interface", "union", "enum", "input"]

/-- The definition of a directive after its keyword. -/
def directiveDef : Phrase Unit := do
  expect (.mark '@')
  ignore name
  argumentDefs
  ignore (accept (.name "repeatable"))
  expect (.name "on")
  ignore (separated (.mark '\x7c') location)

/-- The definition of the root types of a schema after its keyword. -/
def schemaDef : Phrase Unit := do
  ignore typeDirectives
  ignore (many openBrace closeBrace rootType)

/-- A definition of types with this keyword, which may have a description. -/
def typeDef (keyword : String) : Phrase Unit := do
  description
  skip
  match keyword with
  | "directive" => directiveDef
  | "schema" => schemaDef
  | k => ignore (typeBody k)

/-- An extension, which has to add something. -/
def extension : Phrase Unit := do
  expect (.name "extend")
  match ← peek with
  | some (.name k) =>
    if typeKeywords.contains k then
      skip
      if !(← typeBody k) then unexpected
    else unexpected
  | _ => unexpected

/-- The token after the description, if there is one. -/
def keyword : Phrase (Option Token) := do
  if ← isDescription then
    match (← get).drop 1 with
    | .bad :: _ => unexpected
    | ts => return ts.head?
  else peek

/-- A definition. Only a selection set that stands alone and an extension have no description. -/
def definition : Phrase Definition := do
  if ← isNext openBrace then return .operation (← operation)
  else
    match ← keyword with
    | some (.name k) =>
      if k == "directive" || typeKeywords.contains k then do
        typeDef k
        return .types
      else if k == "extend" then do
        extension
        return .types
      else
        description
        if k == "fragment" then return .fragment (← fragment)
        else return .operation (← operation)
    | _ => unexpected

/-- Definitions up to the end, with a bound on their number. -/
def definitionsWithin : Nat → Phrase (List Definition)
  | 0 => unexpected
  | fuel + 1 => do
    match ← peek with
    | none => return []
    | some _ =>
      let d ← definition
      return d :: (← definitionsWithin fuel)

/-- A document: at least one definition. -/
def document : Phrase (List Definition) := do
  let d ← definition
  return d :: (← definitionsWithin (← bound))

end EntityGraph.Document.Phrase

namespace EntityGraph.Document

/-- Reads a document. -/
def parse (s : String) : Option Document :=
  (Phrase.document.run (Token.scan s)).map (·.1)

end EntityGraph.Document

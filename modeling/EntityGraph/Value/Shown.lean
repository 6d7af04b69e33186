import EntityGraph.Number.DecimalFloat.Text
import EntityGraph.Number.Shortest
import EntityGraph.World

/-!
# Values as messages show them

Messages show values inside their texts: texts in quotes, collections in brackets, instances with
their fields, functions by name, and expressions as the sort of each node with its parts. A text by
itself, and a date, are shown plainly where a message speaks of one value.

An object that is met again inside itself is shown as three dots.
-/

namespace EntityGraph

/-- Text between braces. -/
def braced (s : String) : String := "\x7b" ++ s ++ "\x7d"

/-- The mark of an address. -/
def addressMark : String := " at 0x"

/-- Something that has no text of its own. -/
def placed (what : String) : String := "<" ++ what ++ addressMark ++ ">"

namespace Primitive

/-- The name of a function. -/
def name : Primitive → String
  | len => "len"
  | abs => "abs"
  | sum => "sum"
  | max => "max"
  | parseDate => "parse_date_value"
  | parseTimestamp => "parse_datetime_value"
  | parseUuid => "parse_uuid_value"
  | narrowInt => "narrow_to_int32"
  | narrowFloat => "narrow_to_float32"
  | reverse => "reverse"
  | reverseStr => "reverse_str"
  | reverseQuoted => "reverse_quoted"
  | length => "length"
  | negate => "negate"
  | double => "double"
  | toDateOrdinal => "to_date_ordinal"
  | toCelsius => "celsius"
  | listify => "listify"
  | fail => "fail"

/-- All functions that come with the library. -/
def all : List Primitive :=
  [len, abs, sum, max, parseDate, parseTimestamp, parseUuid, narrowInt, narrowFloat, reverse,
    reverseStr, reverseQuoted, length, negate, double, toDateOrdinal, toCelsius, listify, fail]

/-- Whether a function is one of the host's own. -/
def isHostOwn : Primitive → Bool
  | len | abs | sum | max => true
  | _ => false

/-- A function as messages show it. -/
def shown (p : Primitive) : String :=
  if p.isHostOwn then "<built-in function " ++ p.name ++ ">" else "<" ++ p.name ++ ">"

end Primitive

/-- The class of a value. -/
def Value.typeIn (w : World) : Value → HostType
  | .none => .builtin .noneType
  | .bool _ => .builtin .bool
  | .int _ => .builtin .int
  | .float .. => .builtin .float
  | .str _ => .builtin .str
  | .list _ => .builtin .list
  | .tuple _ => .builtin .tuple
  | .dict _ => .builtin .dict
  | .orderedDict .. => .builtin .orderedDict
  | .set _ => .builtin .set
  | .bytes _ => .builtin .bytes
  | .decimal .. => .builtin .decimal
  | .complex .. => .builtin .complex
  | .date _ => .builtin .date
  | .timestamp _ => .builtin .timestamp
  | .span _ => .builtin .span
  | .zone _ => .builtin .zone
  | .uuid _ => .builtin .uuid
  | .object r => (w.object r).type
  | .type _ => .builtin .type
  | .generic .. => .builtin .genericAlias
  | .primitive p => .builtin (if p.isHostOwn then .builtinFunction else .function)
  | .method receiver _ =>
    match receiver with
    | .object _ | .proxy .. | .record .. => .builtin .method
    | .type (.builtin _) => .builtin .methodDescriptor
    | .type _ => .builtin .function
    | _ => .builtin .builtinFunction
  | .closure .. | .function .. => .builtin .function
  | .supplied _ => .builtin .suppliedFunction
  | .proxy .. => .builtin .proxy
  | .expr e _ => .expression e.kind.name
  | .record t _ => .record t
  | .typeRef _ => .entityType
  | .fieldRef .. => .field
  | .schema => .schema
  | .undefined => .builtin .undefined
  | .foreign t _ => t

namespace TypeDecl

/-- The description of a type as messages show it. -/
def shown (t : TypeDecl) : String :=
  "EntityTypeDescriptor(name=" ++ t.name ++ ", host_type=" ++ t.host.shown ++ ", is_scalar="
    ++ (if t.isScalar then "True" else "False") ++ ", fields="
    ++ Text.quotedList (t.fields.map (·.name)) ++ ")"

/-- A type that fields are being declared on, as messages show it. -/
def shownBuilder (t : TypeDecl) : String := "TypeBuilder(" ++ t.name ++ ")"

end TypeDecl

/-- A truth value as messages show it. -/
def shownBool (b : Bool) : String := if b then "True" else "False"

namespace FieldDecl

/-- The description of a field as messages show it. -/
def shown (f : FieldDecl) : String :=
  "FieldDescriptor(name=" ++ f.name ++ ", field_host_type=" ++ f.host.shown ++ ", is_list="
    ++ shownBool f.isList ++ ", is_post=" ++ shownBool f.isPost ++ ")"

end FieldDecl

namespace QueryDecl

/-- The description of a query as messages show it. -/
def shown (q : QueryDecl) : String :=
  "QueryDescriptor(name=" ++ q.name ++ ", entity_host_type=" ++ q.host.shown
    ++ ", resolution_mode=ResolutionMode."
    ++ (match q.mode with
      | .modified => "MODIFIED"
      | .unmodified => "UNMODIFIED") ++ ")"

end QueryDecl

/-- A parameter as messages show it. -/
def Param.shown (p : Param) : String := "Parameter((" ++ Text.quoted p.name ++ ",))"

/-- A node as messages show it: its sort, and its parts as one tuple. -/
def shownNode (kind : NodeKind) (parts : List String) : String :=
  kind.name ++ "(" ++ Text.parenthesised parts ++ ")"

namespace Value

/-- The text of a value that is not shown as it is written plainly: texts without quotes, and times
and decimal numbers in their usual form. -/
def plainText? : Value → Option String
  | str s => some s
  | decimal d _ => some d.text
  | date d => some d.text
  | timestamp t => some (t.textWith " ")
  | span s => some s.text
  | zone minutes => some (Calendar.Timestamp.zoneName minutes)
  | uuid u => some u.text
  | _ => Option.none

section

variable (w : World) (object : Ref → String)

mutual

/-- A value as messages show it; `object` shows objects. -/
def shownWith : Value → String
  | none => "None"
  | bool b => shownBool b
  | int n => toString n
  | float x _ => Number.text x
  | str s => Text.quoted s
  | list vs => Text.bracketed (shownList vs)
  | tuple vs => Text.parenthesised (shownList vs)
  | dict es => braced (Text.commaSeparated (shownEntries es))
  | orderedDict [] _ => "OrderedDict()"
  | orderedDict es _ => "OrderedDict(" ++ Text.bracketed (shownPairs es) ++ ")"
  | set [] => "set()"
  | set vs => braced (Text.commaSeparated (shownList vs))
  | bytes bs => Text.quotedBytes bs
  | decimal d _ => "Decimal('" ++ d.text ++ "')"
  | complex z _ => z.text
  | date d => d.shown
  | timestamp t => t.shown
  | span s => s.shown
  | zone minutes => Calendar.Timestamp.zoneShown minutes
  | uuid u => u.shown
  | .object r => object r
  | type t => t.shown
  | generic t vs => t.written ++ Text.bracketed (shownParams vs)
  | primitive p => p.shown
  | method receiver n =>
    match receiver with
    | .type (.builtin b) => "<method '" ++ n ++ "' of '" ++ b.name ++ "' objects>"
    | .type t => placed ("function " ++ t.name ++ "." ++ n)
    | .object _ | .proxy .. =>
      "<bound method " ++ (receiver.typeIn w).name ++ "." ++ n ++ " of " ++ shownWith receiver
        ++ ">"
    | _ => placed ("built-in method " ++ n ++ " of " ++ (receiver.typeIn w).fullName ++ " object")
  | closure .. => placed "function lambda_value"
  | function .. => "<fn>"
  | supplied f => shownWith f
  | proxy v _ => "ExpressionProxy(" ++ (plainText? v).getD (shownWith v) ++ ")"
  | expr e _ => shownExpr e
  | record t [] => t ++ "()"
  | record t fs => t ++ "(" ++ Text.bracketed (shownRecord fs) ++ ")"
  | typeRef t => (w.schema.resolve t).shown
  | fieldRef t i => ((w.schema.types.getD t default).fields.getD i default).shown
  | schema => placed "QueryableSchema object"
  | undefined => "Undefined"
  | foreign t _ => placed (t.name ++ " object")

/-- The parameters of a generic class as messages show them. -/
def shownParams : List Value → List String
  | [] => []
  | type t :: vs => t.written :: shownParams vs
  | v :: vs => shownWith v :: shownParams vs

/-- Several values as messages show them. -/
def shownList : List Value → List String
  | [] => []
  | v :: vs => shownWith v :: shownList vs

/-- The entries of a dictionary as messages show them. -/
def shownEntries : List (Value × Value) → List String
  | [] => []
  | (k, v) :: es => (shownWith k ++ ": " ++ shownWith v) :: shownEntries es

/-- The entries of an ordered dictionary as messages show them. -/
def shownPairs : List (Value × Value) → List String
  | [] => []
  | (k, v) :: es => Text.parenthesised [shownWith k, shownWith v] :: shownPairs es

/-- The entries of a record as messages show them. -/
def shownRecord : List (String × Value) → List String
  | [] => []
  | (n, v) :: fs => Text.parenthesised [Text.quoted n, shownWith v] :: shownRecord fs

/-- An expression as messages show it. -/
def shownExpr : Expr Value → String
  | .param p => p.shown
  | .lit v => shownNode .lit [shownWith v]
  | .null => shownNode .lit ["None"]
  | .member t n => shownNode .member [shownExpr t, Text.quoted n]
  | .item t k => shownNode .item [shownExpr t, shownExpr k]
  | .method t n as =>
    shownNode .method [shownExpr t, Text.quoted n, Text.parenthesised (shownExprs as)]
  | .func f as => shownNode .func [shownExpr f, Text.parenthesised (shownExprs as)]
  | .unary op e => shownNode .unary [Text.quoted op.symbol, shownExpr e]
  | .binary op l r => shownNode .binary [Text.quoted op.symbol, shownExpr l, shownExpr r]
  | .cond p y n => shownNode .cond [shownExpr p, shownExpr y, shownExpr n]
  | .lambda ps b =>
    shownNode .lambda [Text.parenthesised (ps.map Param.shown), shownExpr b]
  | .invoke f as => shownNode .invoke [shownExpr f, Text.parenthesised (shownExprs as)]
  | .seq op s as =>
    shownNode .seq [Text.quoted op.symbol, shownExpr s, Text.parenthesised (shownExprs as)]
  | .record t fs => shownNode .record [shownWith t, Text.parenthesised (shownMembers fs)]

/-- Several expressions as messages show them. -/
def shownExprs : List (Expr Value) → List String
  | [] => []
  | e :: es => shownExpr e :: shownExprs es

/-- The members of a record construction as messages show them. -/
def shownMembers : List (Value × Expr Value) → List String
  | [] => []
  | (n, e) :: fs => Text.parenthesised [shownWith n, shownExpr e] :: shownMembers fs

end

end

/-- The fields of an instance as messages show them. -/
def shownFields (w : World) (object : Ref → String) (fs : List (String × Value)) : List String :=
  fs.map fun (n, v) => n ++ "=" ++ v.shownWith w object

/-- An object as messages show it. Objects around it are shown as three dots. -/
def shownObject (w : World) : Nat → List Ref → Ref → String
  | 0, _, _ => "..."
  | depth + 1, around, r =>
    if around.contains r then "..."
    else
      let t := (w.object r).type
      match w.objectKind r with
      | .record | .namedTuple =>
        t.name ++ "(" ++ Text.commaSeparated
          (shownFields w (shownObject w depth (r :: around)) (w.objectFields r)) ++ ")"
      | _ => placed (t.written ++ " object")

/-- A value as messages show it. -/
def shown (w : World) (v : Value) : String :=
  v.shownWith w (shownObject w (w.objects.length + w.memory.length + 1) [])

/-- A value as a message shows it plainly. -/
def plain (w : World) (v : Value) : String := v.plainText?.getD (v.shown w)

/-- The name of a value's class. -/
def typeName (w : World) (v : Value) : String := (v.typeIn w).name

/-- The name of a value's class as the host's own faults give it. -/
def fullTypeName (w : World) (v : Value) : String := (v.typeIn w).fullName

/-- The name of the class of an argument that is refused; the missing value is called by its own. -/
def argumentType (w : World) (v : Value) : String :=
  if v.isNone then "None" else v.fullTypeName w

end Value

namespace Expr

/-- An expression as messages show it. -/
def shown (w : World) (e : Expr Value) : String := (Value.ofTree e).shown w

end Expr

end EntityGraph

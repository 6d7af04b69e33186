import EntityGraph.Validity.Fragment

/-!
# Rules for fields and directives

A field exists on its object, has selections exactly if it leads to an object, and gets no argument
twice, none that it does not take, and all that it requires. The same holds for the arguments of
directives, of which a selection can have each of the two once.

What leads from an answer about types to further types can be nested twice and not more often.
-/

namespace EntityGraph.Validity

open Document Interface

/-- Whether arguments suit their declarations, as far as names go. -/
def argumentsFit (declared : List ArgumentDef) (args : List Argument) : Bool :=
  args.all (fun a => declared.any (·.name == a.1))
    && declared.all fun a =>
      !a.type.isNonNull || a.hasDefault || args.any (·.1 == a.name)

/-- Whether a directive of a selection is known and has suitable arguments. -/
def directiveFits (d : Directive) : Bool :=
  areUnique (d.args.map (·.1))
    && match directiveArgs? d.name with
      | some declared => argumentsFit declared d.args
      | none => false

/-- Whether a field exists and suits its selections and arguments. Beneath an unknown object only
repeated arguments are wrong. -/
def fieldFits (sys : TypeSystem) (m : Mention) : Bool :=
  match m.selection with
  | .field _ _ args _ ss =>
    areUnique (args.map (·.1))
      && match m.parent, m.field? with
        | none, _ => true
        | some _, none => false
        | some _, some f =>
          ((sys.core? f.type).any (·.isObject)) == !ss.isEmpty && argumentsFit f.args args
  | _ => true

/-- Whether a selection and its directives obey the rules. -/
def selectionFits (sys : TypeSystem) (m : Mention) : Bool :=
  fieldFits sys m && areUnique (m.directives.map (·.name)) && m.directives.all directiveFits

/-- Whether directives stand at selections only. -/
def directivesPlaced (d : Document) : Bool :=
  (operations d).all (fun o => o.directives.isEmpty && o.variableDefs.all (·.directives.isEmpty))
    && (fragments d).all (·.directives.isEmpty)

/-- The fields that lead from types to lists of further things. -/
def listFields : List String := ["fields", "interfaces", "possibleTypes", "inputFields"]

/-- The fields that lead to answers about a schema. -/
def schemaFields : List String := ["__schema", "__type"]

/-- How often such fields cannot be nested. -/
def maxListDepth : Nat := 3

section

variable (fragmentNests : Nat → String → Bool)

mutual

/-- Whether a selection nests such fields too deeply; `fragmentNests` answers for fragments. -/
def nestsTooDeep (depth : Nat) : Selection → Bool
  | .field _ name _ _ ss =>
    let depth := if listFields.contains name then depth + 1 else depth
    maxListDepth ≤ depth || anyTooDeep depth ss
  | .spread name _ => fragmentNests depth name
  | .inline _ _ ss => anyTooDeep depth ss

/-- Whether one of several selections nests such fields too deeply. -/
def anyTooDeep (depth : Nat) : List Selection → Bool
  | [] => false
  | s :: ss => nestsTooDeep depth s || anyTooDeep depth ss

end

end

/-- Whether a fragment nests such fields too deeply, with a bound on the fragments opened. -/
def fragmentTooDeep (d : Document) : Nat → Nat → String → Bool
  | 0, _, _ => false
  | n + 1, depth, name =>
    match fragment? (fragments d) name with
    | some f => anyTooDeep (fragmentTooDeep d n) depth f.selections
    | none => false

/-- Whether a selection asks for something about the schema that is nested too deeply. -/
def asksTooDeep (d : Document) (m : Mention) : Bool :=
  match m.selection with
  | s@(.field _ name ..) =>
    schemaFields.contains name && nestsTooDeep (fragmentTooDeep d (fragments d).length) 0 s
  | _ => false

/-- The rules for fields and directives. -/
def fieldsHold (sys : TypeSystem) (d : Document) : Bool :=
  (inDocument sys d).all (fun m => selectionFits sys m && !asksTooDeep d m) && directivesPlaced d

end EntityGraph.Validity

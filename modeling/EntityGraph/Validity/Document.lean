import EntityGraph.Document.Parse
import EntityGraph.Validity.Field
import EntityGraph.Validity.Supplied
import EntityGraph.Validity.Merging

/-!
# Valid documents

A document is valid for a type system if it obeys all rules. Those that open fragments in place come
last: no fragment contains itself once the others hold.

Opening fragments in place nests selection sets deeper than any of them was written. The result has
to stay within the limit for what is written: no more than two hundred selection sets inside each
other.
-/

namespace EntityGraph

namespace Validity

open Document

mutual

/-- How many selection sets lie inside each other beneath a selection; `known` gives that number for
what a fragment holds. -/
def depthOf (known : String → Nat) : Selection → Nat
  | .field _ _ _ _ [] => 0
  | .field _ _ _ _ (s :: ss) => depthOfAll known (s :: ss) + 1
  | .spread name _ => known name
  | .inline _ _ ss => depthOfAll known ss + 1

/-- How many selection sets lie inside each other beneath several selections. -/
def depthOfAll (known : String → Nat) : List Selection → Nat
  | [] => 0
  | s :: ss => max (depthOf known s) (depthOfAll known ss)

end

/-- The depths of fragments, if fragments are opened so many times. -/
def fragmentDepths (fs : List Fragment) : Nat → List (String × Nat)
  | 0 => []
  | n + 1 =>
    let known := fragmentDepths fs n
    fs.map fun f => (f.name, depthOfAll (fun name => (known.lookup name).getD 0) f.selections + 1)

/-- Whether no operation is nested too deep once its fragments, none of which contains itself, are
opened. -/
def nestingHolds (d : Document) : Bool :=
  let known := fragmentDepths (fragments d) (fragments d).length
  (operations d).all fun o =>
    depthOfAll (fun name => (known.lookup name).getD 0) o.selections < Phrase.nestingLimit

end Validity

/-- Whether a document is valid for a type system. -/
def Document.isValid (sys : Interface.TypeSystem) (d : Document) : Bool :=
  Validity.structureHolds sys d && Validity.nestingHolds d && Validity.fieldsHold sys d
    && Validity.valuesHold sys d && Validity.mergingHolds sys d

end EntityGraph

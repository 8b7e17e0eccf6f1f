import ApnRegistry.Codec.Basic
import ApnRegistry.Predicate

/-!
# Documents of values and predicates

A predicate may be nested at will, but a document is read to a bounded depth only: at most
`maxDepth` arrays and objects may be open at once.
-/

namespace ApnRegistry

/-- How many arrays and objects may be open at once where a document is read. -/
def Json.maxDepth : Nat := 127

/-- The order's name in documents. -/
def Order.tag : Order → String
  | idAscending => "IdAscending"
  | idDescending => "IdDescending"

namespace Codec

/-- Values of columns. -/
def value : Codec Value where
  write
    | .null => .ofText "Null"
    | .integer n => .ofVariant "Integer" (int64.write n)
    | .text s => .ofVariant "Text" (text.write s)
    | .boolean b => .ofVariant "Boolean" (boolean.write b)
  read j :=
    match j.variant? with
    | some ("Null", payload) => if Json.isUnit payload then some .null else none
    | some ("Integer", some payload) => (int64.read payload).map .integer
    | some ("Text", some payload) => (text.read payload).map .text
    | some ("Boolean", some payload) => (boolean.read payload).map .boolean
    | _ => none

/-- Columns. -/
def column : Codec Column := symbol Column.all Column.title

/-- Comparisons. -/
def comparison : Codec Comparison := symbol Comparison.all Comparison.name

/-- Orders. -/
def order : Codec Order := symbol [.idAscending, .idDescending] Order.tag

mutual

/-- A predicate as a document. -/
def writePredicate : Predicate → Json
  | .always => .ofText "All"
  | .compare c op v =>
    .ofVariant "Compare" (.arr [column.write c, comparison.write op, value.write v])
  | .oneOf c vs => .ofVariant "In" (.arr [column.write c, value.list.write vs])
  | .blank c => .ofVariant "IsEmpty" (column.write c)
  | .allOf parts => .ofVariant "And" (.arr (writePredicates parts))
  | .anyOf parts => .ofVariant "Or" (.arr (writePredicates parts))
  | .inverse part => .ofVariant "Not" (writePredicate part)

/-- Predicates as documents. -/
def writePredicates : List Predicate → List Json
  | [] => []
  | part :: parts => writePredicate part :: writePredicates parts

end

/-- The predicate that a document stands for; `fuel` bounds how deep predicates are nested. -/
def readPredicate : Nat → Json → Option Predicate
  | 0, _ => none
  | fuel + 1, j =>
    match j.variant? with
    | some ("All", payload) => if Json.isUnit payload then some .always else none
    | some ("Compare", some (.arr [c, op, v])) => do
      return .compare (← column.read c) (← comparison.read op) (← value.read v)
    | some ("In", some (.arr [c, vs])) => do
      return .oneOf (← column.read c) (← value.list.read vs)
    | some ("IsEmpty", some c) => (column.read c).map .blank
    | some ("And", some (.arr parts)) => (parts.mapM (readPredicate fuel)).map .allOf
    | some ("Or", some (.arr parts)) => (parts.mapM (readPredicate fuel)).map .anyOf
    | some ("Not", some part) => (readPredicate fuel part).map .inverse
    | _ => none

/-- Predicates. -/
def predicate : Codec Predicate where
  write := writePredicate
  read j := if j.depth ≤ Json.maxDepth then readPredicate (Json.maxDepth + 1) j else none

end Codec

end ApnRegistry

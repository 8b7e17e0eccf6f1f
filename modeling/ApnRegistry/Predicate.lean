import ApnRegistry.Column

/-!
# Predicates on rows

A `Predicate` selects rows by the values of their columns. Whether it holds of a profile is always
defined: a comparison of values of different types holds of nothing (so the negation of "equal" and
"not equal" differ), and a predicate that holds of no row is as good as any other.

`and` and `or` build conjunctions and disjunctions without nesting them deeper than needed; their
meaning is given by `holds_and` and `holds_or`.
-/

namespace ApnRegistry

/-- How a column is compared with a value. -/
inductive Comparison where
  | eq
  | notEq
  | lt
  | ltEq
  | gt
  | gtEq
  deriving DecidableEq, Repr, Inhabited

namespace Comparison

/-- Every comparison, in order. -/
def all : List Comparison := [.eq, .notEq, .lt, .ltEq, .gt, .gtEq]

/-- The comparison's name. -/
def name : Comparison → String
  | eq => "Eq"
  | notEq => "NotEq"
  | lt => "Lt"
  | ltEq => "LtEq"
  | gt => "Gt"
  | gtEq => "GtEq"

/-- The comparison accepts values that stand in this order. -/
def accepts : Comparison → Ordering → Bool
  | eq, o => o == .eq
  | notEq, o => o != .eq
  | lt, o => o == .lt
  | ltEq, o => o != .gt
  | gt, o => o == .gt
  | gtEq, o => o != .lt

end Comparison

/-- The order in which selected rows are listed. -/
inductive Order where
  | idAscending
  | idDescending
  deriving DecidableEq, Repr, Inhabited

/-- A condition on a row. -/
inductive Predicate where
  /-- Every row. -/
  | always
  /-- The column compares with the value, both being of one type. -/
  | compare (column : Column) (comparison : Comparison) (value : Value)
  /-- The column holds one of the values. -/
  | oneOf (column : Column) (values : List Value)
  /-- The column holds nothing. -/
  | blank (column : Column)
  /-- All of the parts hold. -/
  | allOf (parts : List Predicate)
  /-- Some part holds. -/
  | anyOf (parts : List Predicate)
  /-- The part does not hold. -/
  | inverse (part : Predicate)
  deriving Inhabited

namespace Predicate

/-- The column holds exactly this value. -/
def equals (column : Column) (value : Value) : Predicate := .compare column .eq value

/-- Both conditions, with `always` left out and a conjunction on the left extended. -/
def and : Predicate → Predicate → Predicate
  | always, q => q
  | p, always => p
  | allOf ps, allOf qs => allOf (ps ++ qs)
  | allOf ps, q => allOf (ps ++ [q])
  | p, q => allOf [p, q]

/-- Either condition, with a disjunction on the left extended. -/
def or : Predicate → Predicate → Predicate
  | anyOf ps, q => anyOf (ps ++ [q])
  | p, q => anyOf [p, q]

/-- The opposite condition. -/
def not (p : Predicate) : Predicate := inverse p

mutual

/-- The profile meets the condition. -/
def holds : Predicate → Profile → Bool
  | always, _ => true
  | compare column comparison value, p =>
    ((p.value column).compare? value).any comparison.accepts
  | oneOf column values, p => values.any (· == p.value column)
  | blank column, p => (p.value column).isEmpty
  | allOf parts, p => holdsAllOf parts p
  | anyOf parts, p => holdsAnyOf parts p
  | inverse part, p => !holds part p

/-- The profile meets all of the conditions. -/
def holdsAllOf : List Predicate → Profile → Bool
  | [], _ => true
  | part :: parts, p => holds part p && holdsAllOf parts p

/-- The profile meets one of the conditions. -/
def holdsAnyOf : List Predicate → Profile → Bool
  | [], _ => false
  | part :: parts, p => holds part p || holdsAnyOf parts p

end

variable (p : Profile)

theorem holdsAllOf_eq_all (parts : List Predicate) :
    holdsAllOf parts p = parts.all (holds · p) := by
  induction parts with
  | nil => rfl
  | cons part parts ih => simp [holdsAllOf, ih]

theorem holdsAnyOf_eq_any (parts : List Predicate) :
    holdsAnyOf parts p = parts.any (holds · p) := by
  induction parts with
  | nil => rfl
  | cons part parts ih => simp [holdsAnyOf, ih]

@[simp] theorem holds_always : always.holds p = true := by simp [holds]

@[simp] theorem holds_allOf (parts : List Predicate) :
    (allOf parts).holds p = parts.all (holds · p) := by simp [holds, holdsAllOf_eq_all]

@[simp] theorem holds_anyOf (parts : List Predicate) :
    (anyOf parts).holds p = parts.any (holds · p) := by simp [holds, holdsAnyOf_eq_any]

@[simp] theorem holds_not (q : Predicate) : q.not.holds p = !q.holds p := by simp [Predicate.not, holds]

/-- A conjunction holds when both of its sides do. -/
@[simp] theorem holds_and (q r : Predicate) : (q.and r).holds p = (q.holds p && r.holds p) := by
  unfold Predicate.and
  split <;> simp [Bool.and_comm]

/-- A disjunction holds when one of its sides does. -/
@[simp] theorem holds_or (q r : Predicate) : (q.or r).holds p = (q.holds p || r.holds p) := by
  unfold Predicate.or
  split <;> simp

end Predicate

end ApnRegistry

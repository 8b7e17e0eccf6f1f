/-!
# Ascending lists

A set of ordered things, written as a list in ascending order without repetition.
-/

namespace ApnRegistry.Ascending

variable {α : Type} [Ord α]

/-- The list with `x` at its place, unless it is there already. -/
def insert (x : α) : List α → List α
  | [] => [x]
  | y :: ys =>
    match compare x y with
    | .lt => x :: y :: ys
    | .eq => y :: ys
    | .gt => y :: insert x ys

/-- The things in the list, each once, in ascending order. -/
def ofList (xs : List α) : List α := xs.foldr insert []

/-- Searches for `x` in an ascending list: what is in the middle tells in which half to go on. -/
def search (x : α) (xs : List α) : Bool :=
  match _h : xs.drop (xs.length / 2) with
  | [] => false
  | middle :: above =>
    match compare x middle with
    | .lt => search x (xs.take (xs.length / 2))
    | .eq => true
    | .gt => search x above
termination_by xs.length
decreasing_by
  all_goals
    have hlength := congrArg List.length _h
    simp only [List.length_drop, List.length_cons, List.length_take] at hlength ⊢
    omega

end ApnRegistry.Ascending

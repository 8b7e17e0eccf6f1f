import ApnRegistry.Text.Blank
import ApnRegistry.Text.Caseless

/-!
# Lists of service types

A profile names the services it is for in one text, separated by commas. `tokens` reads such a text:
blanks around a type and empty types do not count. `union` joins two lists. The type `*` stands for
every service and absorbs the rest; otherwise a type that repeats an earlier one, ASCII case aside,
is left out, so the first spelling stays.
-/

namespace ApnRegistry.ServiceTypes

/-- The parts of a text between its commas. -/
def split : List Char → List (List Char)
  | [] => [[]]
  | c :: cs =>
    if c = ',' then [] :: split cs
    else match split cs with
      | [] => [[c]]
      | part :: parts => (c :: part) :: parts

/-- The types that a text lists. -/
def tokens (types : String) : List (List Char) :=
  ((split types.toList).map Text.trim).filter (!·.isEmpty)

/-- The type that stands for every service. -/
def wildcard : List Char := ['*']

/-- The types with one more at the end, unless it repeats one of them. -/
def add (types : List (List Char)) (type : List Char) : List (List Char) :=
  if types.any (Text.sameCaseless type) then types else types ++ [type]

/-- The text that lists the given types. -/
def join (types : List (List Char)) : String :=
  String.ofList ((types.intersperse [',']).flatten)

/-- The types of both texts, those of `stored` first. -/
def union (stored incoming : String) : String :=
  let types := tokens stored ++ tokens incoming
  if wildcard ∈ types then String.ofList wildcard else join (types.foldl add [])

end ApnRegistry.ServiceTypes

import ApnRegistry.Json.Basic

/-!
# Printing JSON

`Json.compact` prints a document without any blank, `Json.pretty` one item or member a line, two
spaces deeper for each array or object around it. Empty arrays and objects stay on one line.
-/

namespace ApnRegistry.Json

/-- A string with its quotes. -/
def Quoted.print (q : Quoted) : String := "\"" ++ String.ofList q.body ++ "\""

mutual

/-- The document without blanks. -/
def compact : Json → String
  | null => "null"
  | bool true => "true"
  | bool false => "false"
  | num n => String.ofList n.print
  | str s => s.print
  | arr items => "[" ++ compactItems items ++ "]"
  | obj members => "\x7b" ++ compactMembers members ++ "\x7d"

/-- The items, separated by commas. -/
def compactItems : List Json → String
  | [] => ""
  | [item] => compact item
  | item :: items => compact item ++ "," ++ compactItems items

/-- The members, separated by commas. -/
def compactMembers : List (Quoted × Json) → String
  | [] => ""
  | [(name, value)] => name.print ++ ":" ++ compact value
  | (name, value) :: members => name.print ++ ":" ++ compact value ++ "," ++ compactMembers members

end

/-- A new line at a depth. -/
def newLine (depth : Nat) : String := "\n" ++ String.ofList (List.replicate (2 * depth) ' ')

mutual

/-- The document over several lines, inside `depth` arrays and objects. -/
def prettyAt (depth : Nat) : Json → String
  | arr [] => "[]"
  | obj [] => "\x7b\x7d"
  | arr items => "[" ++ prettyItems (depth + 1) items ++ newLine depth ++ "]"
  | obj members => "\x7b" ++ prettyMembers (depth + 1) members ++ newLine depth ++ "\x7d"
  | null => "null"
  | bool true => "true"
  | bool false => "false"
  | num n => String.ofList n.print
  | str s => s.print

/-- The items, each on a line of its own. -/
def prettyItems (depth : Nat) : List Json → String
  | [] => ""
  | [item] => newLine depth ++ prettyAt depth item
  | item :: items => newLine depth ++ prettyAt depth item ++ "," ++ prettyItems depth items

/-- The members, each on a line of its own. -/
def prettyMembers (depth : Nat) : List (Quoted × Json) → String
  | [] => ""
  | [(name, value)] => newLine depth ++ name.print ++ ": " ++ prettyAt depth value
  | (name, value) :: members =>
    newLine depth ++ name.print ++ ": " ++ prettyAt depth value ++ "," ++
      prettyMembers depth members

end

/-- The document over several lines. -/
def pretty (j : Json) : String := prettyAt 0 j

end ApnRegistry.Json

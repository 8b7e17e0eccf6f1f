import ApnRegistry.Json.Basic

/-!
# Reading JSON

`Json.parse?` reads a text as exactly one JSON value, with blanks around it and around its parts;
only space, tab, line feed and carriage return are blanks. There is no tolerance beyond that: no byte
order mark, no comment, no comma behind the last item.
-/

namespace ApnRegistry.Json

/-- The characters that may stand between the parts of a document. -/
def isGap (c : Char) : Bool := c = ' ' || c = '\t' || c = '\n' || c = '\r'

/-- The text from its first character that is no gap. -/
def skipGap (cs : List Char) : List Char := cs.dropWhile isGap

mutual

/-- A value at the front, and what follows. Each step into the text uses up one unit of `fuel`. -/
def scanValue : Nat → List Char → Option (Json × List Char)
  | 0, _ => none
  | fuel + 1, cs =>
    match skipGap cs with
    | 'n' :: 'u' :: 'l' :: 'l' :: rest => some (null, rest)
    | 't' :: 'r' :: 'u' :: 'e' :: rest => some (bool true, rest)
    | 'f' :: 'a' :: 'l' :: 's' :: 'e' :: rest => some (bool false, rest)
    | '"' :: rest => (scanQuoted rest).map fun (body, rest) => (str ⟨body⟩, rest)
    | '[' :: rest =>
      match skipGap rest with
      | ']' :: rest => some (arr [], rest)
      | rest => (scanItems fuel rest).map fun (items, rest) => (arr items, rest)
    | '{' :: rest =>
      match skipGap rest with
      | '}' :: rest => some (obj [], rest)
      | rest => (scanMembers fuel rest).map fun (members, rest) => (obj members, rest)
    | cs => (scanNumber cs).map fun (n, rest) => (num n, rest)

/-- The items up to the end of an array that is not empty, and what follows. -/
def scanItems : Nat → List Char → Option (List Json × List Char)
  | 0, _ => none
  | fuel + 1, cs =>
    match scanValue fuel cs with
    | none => none
    | some (item, rest) =>
      match skipGap rest with
      | ']' :: rest => some ([item], rest)
      | ',' :: rest => (scanItems fuel rest).map fun (items, rest) => (item :: items, rest)
      | _ => none

/-- The members up to the end of an object that is not empty, and what follows. -/
def scanMembers : Nat → List Char → Option (List (Quoted × Json) × List Char)
  | 0, _ => none
  | fuel + 1, cs =>
    match skipGap cs with
    | '"' :: rest =>
      match scanQuoted rest with
      | none => none
      | some (name, rest) =>
        match skipGap rest with
        | ':' :: rest =>
          match scanValue fuel rest with
          | none => none
          | some (value, rest) =>
            match skipGap rest with
            | '}' :: rest => some ([(⟨name⟩, value)], rest)
            | ',' :: rest =>
              (scanMembers fuel rest).map fun (members, rest) => ((⟨name⟩, value) :: members, rest)
            | _ => none
        | _ => none
    | _ => none

end

/-- The document that a text is. -/
def parse? (s : String) : Option Json :=
  let cs := s.toList
  match scanValue (2 * cs.length + 1) cs with
  | some (document, rest) => if (skipGap rest).isEmpty then some document else none
  | none => none

end ApnRegistry.Json

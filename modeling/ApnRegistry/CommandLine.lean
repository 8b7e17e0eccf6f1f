import ApnRegistry.Codec.Setup
import ApnRegistry.Json.Printer
import ApnRegistry.Registry.Request

/-!
# The command line

The command loads a table, a device, a factory list and settings from files, carries one
call out as the system process and prints the outcome.

`parse` reads the words of a command line: options that name the input files come before the
command, the command's own options behind it, and `--output` in either place. An option's value
follows a `=` or is the next word; it may not start with a dash then. `Invocation.run` carries the
command out, given what the files hold.
-/

namespace ApnRegistry.CommandLine

/-! ## Words -/

/-- What a word of the command line is. -/
inductive Word where
  /-- The end of the options. -/
  | endOfOptions
  /-- An option with a long name, and the value behind its `=`. -/
  | long (name : String) (attached : Option String)
  /-- Options of one letter. -/
  | short (letters : List Char)
  /-- A word that is no option. -/
  | plain (text : String)
  deriving DecidableEq, Repr, Inhabited

/-- Reads one word. A lone dash is no option. -/
def Word.of (s : String) : Word :=
  match s.toList with
  | ['-', '-'] => .endOfOptions
  | '-' :: '-' :: rest =>
    let name := String.ofList (rest.takeWhile (· != '='))
    match rest.dropWhile (· != '=') with
    | '=' :: value => .long name (some (String.ofList value))
    | _ => .long name none
  | '-' :: c :: rest => .short (c :: rest)
  | _ => .plain s

/-- Why the command line asks for no call. -/
inductive Halt where
  /-- It cannot be understood. -/
  | misuse
  /-- It asks how to use the command. -/
  | help
  /-- It asks for the version. -/
  | version
  deriving DecidableEq, Repr, Inhabited

/-- An option that takes a value, and the values that it accepts. -/
structure Spec where
  name : String
  accepts : String → Bool

/-- The options found, each at most once. -/
abbrev Found := List (String × String)

/-- Enters the value of an option, if it is acceptable and the first. -/
def Found.enter (found : Found) (specs : List Spec) (name value : String) : Except Halt Found :=
  match specs.find? (·.name == name) with
  | some spec =>
    if spec.accepts value && (found.lookup name).isNone then .ok ((name, value) :: found)
    else .error .misuse
  | none => .error .misuse

/-- Reads options up to the first word that is none, and gives the words from there on. The version
can be asked for only where `top` holds. -/
def options (specs : List Spec) (top : Bool) (found : Found) :
    List String → Except Halt (Found × List String)
  | [] => .ok (found, [])
  | word :: words =>
    match Word.of word with
    | .plain _ | .endOfOptions => .ok (found, word :: words)
    | .short letters =>
      if letters.head? = some 'h' then .error .help
      else if top && letters.head? = some 'V' then .error .version
      else .error .misuse
    | .long name attached =>
      if specs.any (·.name == name) then
        match attached with
        | some value => do options specs top (← found.enter specs name value) words
        | none =>
          match words with
          | [] => .error .misuse
          | value :: words =>
            match Word.of value with
            | .plain _ => do options specs top (← found.enter specs name value) words
            | _ => .error .misuse
      else if attached.isSome then .error .misuse
      else if name = "help" then .error .help
      else if top && name = "version" then .error .version
      else .error .misuse

/-! ## Invocations -/

/-- The call that a command asks for. -/
inductive Command where
  /-- The visible rows of a scope. -/
  | list (scope : Scope) (subscription : Option Subscription)
  /-- The candidates for a SIM. -/
  | simList (subscription : Subscription)
  /-- Restore the factory list, and show the table. -/
  | restore (subscription : Subscription)
  /-- Put rows with integer codes into modern form, and show the table. -/
  | migrate
  deriving DecidableEq, Repr, Inhabited

/-- A command with the files that it reads and writes. -/
structure Invocation where
  defaults : Option String := none
  rows : Option String := none
  identity : Option String := none
  config : Option String := none
  output : Option String := none
  command : Command
  deriving DecidableEq, Repr, Inhabited

/-- The integer of 32 bits that a word spells in decimal, with or without a sign. -/
def int32? (s : String) : Option Int32 :=
  let (negative, ds) := match s.toList with
    | '-' :: rest => (true, rest)
    | '+' :: rest => (false, rest)
    | cs => (false, cs)
  if ds.isEmpty || !ds.all Char.isDigit then none
  else
    let n : Int := if negative then -(Text.valueOf ds : Int) else Text.valueOf ds
    if Int32.minValue.toInt ≤ n ∧ n ≤ Int32.maxValue.toInt then some (.ofInt n) else none

/-- The scopes that can be listed. -/
def listed? (s : String) : Option Scope :=
  [Scope.general, .dpc, .filtered].find? (·.name == s)

/-- An option that names a file. -/
def fileSpec (name : String) : Spec := ⟨name, (!·.isEmpty)⟩

/-- The options in front of the command. -/
def topSpecs : List Spec := ["defaults", "rows", "identity", "config", "output"].map fileSpec

/-- The option that names a subscription. -/
def subscriptionSpec : Spec := ⟨"subscription", (int32? · |>.isSome)⟩

/-- The options behind a command, and the command that they make up. -/
def commandOf : String → Option (List Spec × (Found → Command))
  | "list" => some ([fileSpec "output", subscriptionSpec, ⟨"scope", (listed? · |>.isSome)⟩],
      fun found => .list (((found.lookup "scope").bind listed?).getD .general)
        (((found.lookup "subscription").bind int32?).map (⟨·⟩)))
  | "sim-list" => some ([fileSpec "output", subscriptionSpec], fun found =>
      .simList ⟨((found.lookup "subscription").bind int32?).getD 0⟩)
  | "restore" => some ([fileSpec "output", subscriptionSpec], fun found =>
      .restore ⟨((found.lookup "subscription").bind int32?).getD 0⟩)
  | "migrate" => some ([fileSpec "output"], fun _ => .migrate)
  | _ => none

/-- The file that an option or else the environment names. -/
def fileOr (found : Found) (option : String) (fallback : Option String) :
    Except Halt (Option String) :=
  match found.lookup option, fallback with
  | some path, _ => .ok (some path)
  | none, some "" => .error .misuse
  | none, path => .ok path

/-- What the words behind `help` make of it: they may name one command. -/
def helpFor : List String → Halt
  | [] => .help
  | [name] => if name = "help" || (commandOf name).isSome then .help else .misuse
  | _ => .misuse

/-- Reads a command line, given the environment. -/
def parse (args : List String) (environment : String → Option String) :
    Except Halt Invocation := do
  let (top, rest) ← options topSpecs true [] args
  match rest with
  | [] => throw .misuse
  | "help" :: words => throw (helpFor words)
  | name :: rest =>
    match commandOf name with
    | none => throw .misuse
    | some (specs, command) =>
      let (own, rest) ← options specs false [] rest
      if rest ≠ [] ∧ rest ≠ ["--"] then throw .misuse
      return {
        defaults := ← fileOr top "defaults" (environment "APNSTORE_DEFAULTS")
        rows := top.lookup "rows"
        identity := top.lookup "identity"
        config := ← fileOr top "config" (environment "APNSTORE_CONFIG")
        output := own.lookup "output" <|> top.lookup "output"
        command := command own }

/-! ## Carrying a command out -/

/-- The names of the files that the command reads. -/
def Invocation.inputs (i : Invocation) : List String :=
  [i.defaults, i.rows, i.identity, i.config].filterMap id

/-- What a file holds that may be named, or else a default. -/
def loaded {α : Type} (read : String → Option ByteArray) (load : Option ByteArray → Except Error α)
    (default : α) : Option String → Except Error α
  | some path => load (read path)
  | none => .ok default

/-- The registry that the command works on, and its table. -/
def Invocation.load (i : Invocation) (read : String → Option ByteArray) :
    Except Error (Registry.Setup × Table) := do
  let config ← loaded read configOfFile {} i.config
  let factory ← loaded read profilesOfFile [] i.defaults
  let device ← loaded read deviceOfFile { phoneCount := 1 } i.identity
  let rows ← loaded read profilesOfFile [] i.rows
  return ({ config, device, factory }, Table.ofProfiles rows)

/-- Profiles as a document. -/
def listing (ps : List Profile) : Json := Codec.profile.list.write ps

/-- The call that a command asks for, and the document of its outcome. -/
def Command.action (setup : Registry.Setup) : Command → Registry.Action Table Json
  | .list scope subscription =>
    listing <$> Registry.query setup .system (.table scope subscription) .always .idAscending
  | .simList s => listing <$> Registry.simApnList setup .system s
  | .restore s => do
    let report ← Registry.restoreToDefault setup .system s
    let rows ← Registry.query setup .system (.table .general none) .always .idAscending
    return .ofMembers [("report", report.document), ("rows", listing rows)]
  | .migrate => do
    let _ ← Registry.migrateAll setup .system
    listing <$> Registry.query setup .system (.table .general none) .always .idAscending

/-- The text that the command puts out. -/
def Invocation.run (i : Invocation) (read : String → Option ByteArray) : Except Error String := do
  let (setup, table) ← i.load read
  let document ← ((i.command.action setup).perform (.initial setup table)).1
  return document.pretty ++ "\n"

/-- The text that tells the version. -/
def versionText : String := "apnstore 0.1.0\n"

/-- The text that tells how to use the command. -/
def helpText : String :=
  "APN table merge, precedence and restore tool\n\n" ++
  "Usage: apnstore [OPTIONS] <COMMAND>\n\n" ++
  "Commands: list, sim-list, restore, migrate\n" ++
  "Options: --defaults, --rows, --identity, --config, --output <FILE>\n"

end ApnRegistry.CommandLine

/-!
# Command line arguments

The command takes the root of a project and options. The value of an option follows it, or stands
behind an equals sign. Behind two hyphens all arguments are positional.

An argument is only looked at closely when the next one is read: an unknown argument is reported
before a bad value in front of it.

* `Arguments.parse`: the arguments that a list of words holds.
-/

namespace Interchange.Command

/-- How the summary of a project is written. -/
inductive Format where
  | text
  | json
deriving DecidableEq, Repr

/-- An option with a value. -/
inductive Flag where
  | settings
  | name
  | projectVersion
  | logLevel
  | format
deriving DecidableEq, Repr

namespace Flag

def key : Flag → String
  | settings => "settings"
  | name => "name"
  | projectVersion => "project-version"
  | logLevel => "log-level"
  | format => "format"

/-- The option with a key. -/
def ofKey? (key : String) : Option Flag :=
  [settings, name, projectVersion, logLevel, format].find? fun flag => flag.key == key

end Flag

/-- The format with a name. -/
def Format.ofName? : String → Option Format
  | "text" => some text
  | "json" => some json
  | _ => none

/-- What the command is asked to do. -/
structure Arguments where
  root : String
  settings : Option String
  name : Option String
  projectVersion : Option String
  logLevel : Option String
  format : Format
deriving DecidableEq, Repr

/-- Why the command does not start. -/
inductive Usage where
  | missingArgument
  | unknownArgument
  | invalidValue
  | repeatedOption
  | unexpectedValue
  | help
  | version
deriving DecidableEq, Repr

/-- An argument that is read and not yet looked at. -/
inductive Pending where
  | none
  | root (path : String)
  | option (flag : Flag) (value : Option String)
deriving DecidableEq, Repr

/-- What is read so far. -/
structure Reader where
  root : Option String
  /-- A positional argument was read. -/
  rootSeen : Bool
  values : List (Flag × String)
  pending : Pending
  /-- Two hyphens were read. -/
  positionalOnly : Bool
deriving DecidableEq, Repr

namespace Reader

def start : Reader :=
  ⟨none, false, [], .none, false⟩

/-- The value of an option. -/
def value? (reader : Reader) (flag : Flag) : Option String :=
  (reader.values.find? fun entry => entry.1 == flag).map Prod.snd

/-- A value that an option takes. Paths are not empty. -/
def accepts : Flag → String → Bool
  | .settings, value => !value.isEmpty
  | .format, value => (Format.ofName? value).isSome
  | _, _ => true

/-- Looks at the argument that is read and not yet looked at. -/
def settle (reader : Reader) : Except Usage Reader :=
  let settled := { reader with pending := .none }
  match reader.pending with
  | .none => .ok settled
  | .root path =>
    if path.isEmpty then .error .invalidValue else .ok { settled with root := some path }
  | .option _ none => .error .invalidValue
  | .option flag (some value) =>
    if (reader.value? flag).isSome then .error .repeatedOption
    else if accepts flag value then .ok { settled with values := (flag, value) :: reader.values }
    else .error .invalidValue

/-- Reads a positional argument. There is one. -/
def positional (reader : Reader) (word : String) : Except Usage Reader :=
  if reader.rootSeen then .error .unknownArgument
  else do
    let settled ← reader.settle
    return { settled with pending := .root word, rootSeen := true }

/-- Settles what is pending and ends with a message for the user. -/
def finish {α : Type} (reader : Reader) (usage : Usage) : Except Usage α := do
  let _ ← reader.settle
  throw usage

/-- Reads an argument with two hyphens in front: a key and maybe a value behind an equals sign. -/
def long (reader : Reader) (key : String) (attached : Option String) : Except Usage Reader :=
  match Flag.ofKey? key with
  | some flag => do
    let settled ← reader.settle
    match attached with
    | some value => settle { settled with pending := .option flag (some value) }
    | none => return { settled with pending := .option flag none }
  | none =>
    let usage? := match key with
      | "help" => some Usage.help
      | "version" => some Usage.version
      | _ => none
    match usage?, attached with
    | some _, some _ => .error .unexpectedValue
    | some usage, none => reader.finish usage
    | none, _ => .error .unknownArgument

/-- Reads an argument with one hyphen in front. The first letter decides. -/
def short (reader : Reader) : List Char → Except Usage Reader
  | 'h' :: _ => reader.finish .help
  | 'V' :: _ => reader.finish .version
  | _ => .error .unknownArgument

/-- Reads an argument without hyphens: the value that an option waits for, or a positional one. -/
def plain (reader : Reader) (word : String) : Except Usage Reader :=
  match reader.pending with
  | .option flag none => .ok { reader with pending := .option flag (some word) }
  | _ => reader.positional word

/-- The key before and the value behind the first equals sign. -/
def splitEquals (text : List Char) : String × Option String :=
  match text.dropWhile (· != '=') with
  | [] => (String.ofList text, none)
  | _ :: value => (String.ofList (text.takeWhile (· != '=')), some (String.ofList value))

/-- Reads one argument. -/
def read (reader : Reader) (word : String) : Except Usage Reader :=
  if reader.positionalOnly then reader.positional word
  else
    match word.toList with
    | ['-', '-'] => .ok { reader with positionalOnly := true }
    | '-' :: '-' :: rest =>
      let (key, attached) := splitEquals rest
      reader.long key attached
    | '-' :: c :: rest => reader.short (c :: rest)
    | _ => reader.plain word

/-- What the arguments say, once all are read. -/
def arguments (reader : Reader) : Except Usage Arguments :=
  match reader.root with
  | none => .error .missingArgument
  | some root =>
    .ok {
      root
      settings := reader.value? .settings
      name := reader.value? .name
      projectVersion := reader.value? .projectVersion
      logLevel := reader.value? .logLevel
      format := ((reader.value? .format).bind Format.ofName?).getD .text }

end Reader

/-- The arguments that a list of words holds. -/
def Arguments.parse (words : List String) : Except Usage Arguments := do
  let reader ← words.foldlM Reader.read Reader.start
  (← reader.settle).arguments

end Interchange.Command

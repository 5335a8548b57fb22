import CachedRoutes.Path
import CachedRoutes.Policy.Basic

/-!
# Command lines

The words of a command line are read level by level: the switches of the program, then a subcommand
with its own switches and words, and so on. A switch is written `--name`, `--name=value`,
`--name value`, `-n`, `-nvalue`, `-n=value` or `-n value`, and short flags may be put together.
After `--` every word stands for itself. A switch may be given once on a level, unless it is
counted. The switches of the program may stand on every level; what is given on an inner level
counts more.

Reading stops at the first word that is wrong, and at the first request for help or the version. A
value in a word of its own is held back and checked when the next switch or word of its level comes
or the level ends, which is after all that belongs to a subcommand.
-/

namespace CachedRoutes.Command

/-! ## What can be asked for -/

/-- The form of a report. -/
inductive Format where
  /-- Lines for people. -/
  | table
  | json
  /-- Lines for programs. -/
  | plain
  deriving DecidableEq, Repr

/-- The format with the given name. -/
def Format.ofName? : String → Option Format
  | "table" => some table
  | "json" => some json
  | "plain" => some plain
  | _ => none

/-- Is the form made for programs? -/
def Format.isMachine (format : Format) : Bool :=
  format != .table

/-- What to change, and how to report it. -/
structure ApplyOptions where
  /-- The files to change; all route files if there are none. -/
  paths : List Path := []
  /-- The project root. -/
  root : Option Path := none
  /-- Are no files written? -/
  dryRun : Bool := false
  /-- Are only imports added? -/
  importsOnly : Bool := false
  strategy : Option Strategy := none
  format : Format := .table
  /-- Is the question before writing answered with yes? -/
  yes : Bool := false
  deriving DecidableEq, Repr

/-- Whose policies to show, and how. -/
structure PolicyOptions where
  routes : List String
  strategy : Option Strategy := none
  format : Format := .table
  deriving DecidableEq, Repr

/-- Where to put a new settings file. -/
structure InitOptions where
  /-- May an existing file be overwritten? -/
  force : Bool := false
  directory : Option Path := none
  deriving DecidableEq, Repr

/-- What to do. -/
inductive Action where
  | apply (options : ApplyOptions)
  | policy (options : PolicyOptions)
  | init (options : InitOptions)
  | showSettings
  | showPaths
  deriving DecidableEq, Repr

/-- What holds for all actions. -/
structure Globals where
  /-- How much of the log is shown. -/
  verbosity : Nat := 0
  /-- The file of global settings. -/
  settings : Option Path := none
  /-- Is the project's own settings file left out? -/
  noLocal : Bool := false
  deriving DecidableEq, Repr

/-- A command line that can be carried out. -/
structure Invocation where
  globals : Globals
  action : Action
  deriving DecidableEq, Repr

/-- Why a command line is not carried out. -/
inductive Stop where
  /-- It is not understood. -/
  | misuse (complaint : String)
  /-- It asks for the version of the named command. -/
  | version (command : String)
  /-- It asks for help with the named command. -/
  | help (command : String)
  deriving DecidableEq, Repr

/-! ## Switches -/

/-- The switches of all levels. -/
inductive Switch where
  | verbose
  | settings
  | noLocal
  | help
  | version
  | root
  | dryRun
  | importsOnly
  | strategy
  | format
  | yes
  | force
  | directory
  deriving DecidableEq, Repr

namespace Switch

/-- The long name, without its dashes. -/
def long : Switch → String
  | verbose => "verbose"
  | settings => "config"
  | noLocal => "no-local"
  | help => "help"
  | version => "version"
  | root => "root"
  | dryRun => "dry-run"
  | importsOnly => "imports-only"
  | strategy => "strategy"
  | format => "format"
  | yes => "yes"
  | force => "force"
  | directory => "path"

/-- The short name, without its dash. -/
def short? : Switch → Option Char
  | verbose => some 'v'
  | settings => some 'c'
  | noLocal => none
  | help => some 'h'
  | version => some 'V'
  | root => some 'r'
  | dryRun => some 'n'
  | importsOnly => none
  | strategy => some 's'
  | format => some 'f'
  | yes => some 'y'
  | force => some 'f'
  | directory => some 'p'

/-- Does the switch have a value? -/
def takesValue : Switch → Bool
  | settings | root | strategy | format | directory => true
  | _ => false

/-- May the switch have the value? Paths are not empty. -/
def accepts (switch : Switch) (value : String) : Bool :=
  match switch with
  | settings | root | directory => !value.isEmpty
  | strategy => (Strategy.ofName? value).isSome
  | format => (Format.ofName? value).isSome
  | _ => true

end Switch

/-- A level of the command line: what may stand on it. -/
structure Grammar where
  /-- The name of the command. -/
  command : String
  /-- The switches, besides those of the program. -/
  switches : List Switch := []
  /-- The subcommands. -/
  subcommands : List String := []
  /-- What may follow the subcommand `help`. -/
  topics : List (List String) := []
  /-- Which words may stand for themselves; none if absent. -/
  word? : Option (String → Bool) := none

/-- The switches that may stand on every level. -/
def commonSwitches : List Switch :=
  [.verbose, .settings, .noLocal, .help, .version]

/-- All switches of a level. -/
def Grammar.allSwitches (grammar : Grammar) : List Switch :=
  grammar.switches ++ commonSwitches

/-- What was read on a level. -/
structure Reading where
  /-- The switches given, in order, with their values. -/
  given : List (Switch × String) := []
  /-- A switch with a value in a word of its own, which is still to be checked. -/
  held : Option (Switch × String) := none
  /-- The words that stand for themselves, in order. -/
  words : List String := []
  /-- The subcommand, and the words after it. -/
  subcommand : Option (String × List String) := none
  deriving DecidableEq, Repr

namespace Reading

/-- Was the switch given? -/
def has (reading : Reading) (switch : Switch) : Bool :=
  reading.given.any fun entry => entry.1 == switch

/-- The value of a switch. -/
def value? (reading : Reading) (switch : Switch) : Option String :=
  (reading.given.find? fun entry => entry.1 == switch).map (·.2)

/-- How often a switch was given. -/
def count (reading : Reading) (switch : Switch) : Nat :=
  (reading.given.filter fun entry => entry.1 == switch).length

end Reading

/-- Checks a switch with its value and takes note of it. -/
def note (reading : Reading) (switch : Switch) (value : String) : Except Stop Reading :=
  if switch != .verbose && reading.has switch then
    .error (.misuse s!"the argument '--{switch.long}' cannot be used multiple times")
  else if !switch.accepts value then
    .error (.misuse s!"invalid value '{value}' for '--{switch.long}'")
  else .ok { reading with given := reading.given ++ [(switch, value)] }

/-- Takes note of the switch that is held back. -/
def settle (reading : Reading) : Except Stop Reading :=
  match reading.held with
  | some (switch, value) => note { reading with held := none } switch value
  | none => .ok reading

/-- Takes note of a switch that is complete, after the one that is held back. -/
def give (grammar : Grammar) (reading : Reading) (switch : Switch) (value : String) :
    Except Stop Reading := do
  let reading ← settle reading
  match switch with
  | .help => .error (.help grammar.command)
  | .version => .error (.version grammar.command)
  | _ => note reading switch value

/-- Takes note of a word that stands for itself, after the switch that is held back. -/
def giveWord (grammar : Grammar) (reading : Reading) (word : String) : Except Stop Reading := do
  let reading ← settle reading
  match grammar.word? with
  | some accepts =>
    if accepts word then .ok { reading with words := reading.words ++ [word] }
    else .error (.misuse "a value is required")
  | none => .error (.misuse s!"unexpected argument '{word}' found")

/-- The parts of a long switch: its name and, after an equals sign, its value. -/
def splitLong (text : List Char) : String × Option String :=
  let name := String.ofList (text.takeWhile (· != '='))
  match text.dropWhile (· != '=') with
  | [] => (name, none)
  | _ :: value => (name, some (String.ofList value))

/-- What a word with dashes does to the reading: it is complete, or a switch waits for its value in
the next word. -/
inductive Step where
  | complete (reading : Reading)
  | waiting (reading : Reading) (switch : Switch)

/-- Reads a long switch, given the text after its dashes. -/
def readLong (grammar : Grammar) (reading : Reading) (text : List Char) : Except Stop Step :=
  let (name, value?) := splitLong text
  match grammar.allSwitches.find? fun switch => switch.long == name with
  | none => .error (.misuse s!"unexpected argument '--{name}' found")
  | some switch =>
    match switch.takesValue, value? with
    | true, some value => (give grammar reading switch value).map .complete
    | true, none => (settle reading).map (.waiting · switch)
    | false, some value => .error (.misuse s!"unexpected value '{value}' for '--{name}' found")
    | false, none => (give grammar reading switch "").map .complete

/-- Reads short switches that are put together, given the text after their dash. -/
def readShort (grammar : Grammar) (reading : Reading) : List Char → Except Stop Step
  | [] => .ok (.complete reading)
  | c :: rest =>
    match grammar.allSwitches.find? fun switch => switch.short? == some c with
    | none => .error (.misuse s!"unexpected argument '-{c}' found")
    | some switch =>
      if switch.takesValue then
        match rest with
        | [] => (settle reading).map (.waiting · switch)
        | '=' :: value => (give grammar reading switch (String.ofList value)).map .complete
        | value => (give grammar reading switch (String.ofList value)).map .complete
      else do readShort grammar (← give grammar reading switch "") rest

/-- Is the word written like a switch? A dash alone is not. -/
def isDashed (word : String) : Bool :=
  word != "-" && word.toList.head? == some '-'

/-- Reads the words of a level. A switch that waits for its value takes the next word, unless that
is written like a switch, and is held back with it. -/
def readWords (grammar : Grammar) (waiting : Option Switch) (verbatim : Bool) (reading : Reading) :
    List String → Except Stop Reading
  | [] =>
    match waiting with
    | some switch => .error (.misuse s!"a value is required for '--{switch.long}'")
    | none => settle reading
  | word :: rest =>
    match waiting with
    | some switch =>
      if isDashed word then .error (.misuse s!"a value is required for '--{switch.long}'")
      else readWords grammar none verbatim { reading with held := some (switch, word) } rest
    | none =>
      if verbatim then do
        readWords grammar none true (← giveWord grammar reading word) rest
      else if grammar.subcommands.contains word then
        if word = "help" then
          if grammar.topics.contains rest then .error (.help grammar.command)
          else .error (.misuse "unrecognized subcommand")
        else .ok { reading with subcommand := some (word, rest) }
      else if word = "--" then readWords grammar none true reading rest
      else
        match word.toList with
        | '-' :: '-' :: text => do
          match ← readLong grammar reading text with
          | .complete reading => readWords grammar none false reading rest
          | .waiting reading switch => readWords grammar (some switch) false reading rest
        | '-' :: c :: text => do
          match ← readShort grammar reading (c :: text) with
          | .complete reading => readWords grammar none false reading rest
          | .waiting reading switch => readWords grammar (some switch) false reading rest
        | _ => do
          readWords grammar none false (← giveWord grammar reading word) rest

/-! ## The levels of this program -/

/-- The level of the program itself. -/
def programGrammar : Grammar :=
  { command := "routecache"
    subcommands := ["apply", "policy", "init", "config", "help"]
    topics :=
      [[], ["apply"], ["policy"], ["init"], ["config"], ["config", "show"], ["config", "path"],
        ["config", "help"], ["help"]] }

def applyGrammar : Grammar :=
  { command := "routecache-apply"
    switches := [.root, .dryRun, .importsOnly, .strategy, .format, .yes]
    word? := some fun word => !word.isEmpty }

def policyGrammar : Grammar :=
  { command := "routecache-policy", switches := [.strategy, .format], word? := some fun _ => true }

def initGrammar : Grammar :=
  { command := "routecache-init", switches := [.force, .directory] }

def configGrammar : Grammar :=
  { command := "routecache-config"
    subcommands := ["show", "path", "help"]
    topics := [[], ["show"], ["path"], ["help"]] }

/-- The level of a subcommand of `config`. -/
def configActionGrammar (name : String) : Grammar :=
  { command := "routecache-config-" ++ name }

/-- Refuses an empty path from the environment, on a level that does not say otherwise. -/
def checkEnvironment (settingsVariable : Option String) (reading : Reading) : Except Stop Unit :=
  if settingsVariable == some "" && !reading.has .settings then
    .error (.misuse "a value is required for '--config'")
  else .ok ()

/-- Reads the words of a level and checks them. -/
def readLevel (settingsVariable : Option String) (grammar : Grammar) (words : List String) :
    Except Stop Reading := do
  let reading ← readWords grammar none false {} words
  if reading.subcommand.isNone then checkEnvironment settingsVariable reading
  return reading

/-- What holds for all actions, from the levels of a command line, outermost first. On the innermost
level that says something it counts; the environment counts least. -/
def globalsOf (settingsVariable : Option String) (levels : List Reading) : Globals where
  verbosity := ((levels.reverse.find? (·.has .verbose)).map (·.count .verbose)).getD 0
  settings :=
    (((levels.reverse.findSome? (·.value? .settings)).orElse fun _ => settingsVariable).map Path.mk)
  noLocal := levels.any (·.has .noLocal)

/-- The options of `apply`. -/
def applyOptions (reading : Reading) : ApplyOptions where
  paths := reading.words.map Path.mk
  root := (reading.value? .root).map Path.mk
  dryRun := reading.has .dryRun
  importsOnly := reading.has .importsOnly
  strategy := (reading.value? .strategy).bind Strategy.ofName?
  format := ((reading.value? .format).bind Format.ofName?).getD .table
  yes := reading.has .yes

/-- The options of `policy`, which needs a route. -/
def policyOptions (reading : Reading) : Except Stop PolicyOptions :=
  if reading.words.isEmpty then
    .error (.misuse "the following required arguments were not provided")
  else
    .ok
      { routes := reading.words
        strategy := (reading.value? .strategy).bind Strategy.ofName?
        format := ((reading.value? .format).bind Format.ofName?).getD .table }

/-- The options of `init`. -/
def initOptions (reading : Reading) : InitOptions where
  force := reading.has .force
  directory := (reading.value? .directory).map Path.mk

/-- Reads what follows the name of a subcommand. The result has the levels that were read and what
to do. -/
def readSubcommand (settingsVariable : Option String) (name : String) (words : List String) :
    Except Stop (List Reading × Action) := do
  if name = "apply" then
    let reading ← readLevel settingsVariable applyGrammar words
    return ([reading], .apply (applyOptions reading))
  else if name = "policy" then
    let reading ← readLevel settingsVariable policyGrammar words
    return ([reading], .policy (← policyOptions reading))
  else if name = "init" then
    let reading ← readLevel settingsVariable initGrammar words
    return ([reading], .init (initOptions reading))
  else
    let outer ← readLevel settingsVariable configGrammar words
    match outer.subcommand with
    | none => return ([outer], .showSettings)
    | some (inner, words) =>
      let reading ← readLevel settingsVariable (configActionGrammar inner) words
      let outer ← settle outer
      checkEnvironment settingsVariable outer
      return ([outer, reading], if inner = "path" then .showPaths else .showSettings)

/-- Reads a command line. `settingsVariable` is the path of global settings that the environment
gives. -/
def readArguments (settingsVariable : Option String) (words : List String) :
    Except Stop Invocation := do
  let program ← readWords programGrammar none false {} words
  match program.subcommand with
  | none => .error (.misuse "a subcommand is required")
  | some (name, words) =>
    let (levels, action) ← readSubcommand settingsVariable name words
    let program ← settle program
    checkEnvironment settingsVariable program
    return { globals := globalsOf settingsVariable (program :: levels), action }

end CachedRoutes.Command

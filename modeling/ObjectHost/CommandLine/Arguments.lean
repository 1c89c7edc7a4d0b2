-- SUMMARY: The argument grammar of the inspection tool.
import ObjectHost.CommandLine.Command

/-!
# Arguments

Arguments are read from left to right, first those of the tool, then, from the
subcommand on, those of the subcommand. Options are long and take one value,
which follows or is attached by `=`; `--` makes everything after it positional.

An option or positional is *settled*, that is checked and recorded, when the
next one begins or the arguments of its level end. So an argument that is
unknown is refused before a value that is wrong.
-/

namespace ObjectHost.CommandLine

/-- Why arguments were not understood, or what they ask for instead of a command. -/
inductive UsageError where
  | invalidSubcommand
  | unknownArgument
  | invalidValue
  | tooManyValues
  | argumentConflict
  | missingRequiredArgument
  | missingSubcommand
  | displayHelpOnMissing
  | displayHelp
  | displayVersion
deriving DecidableEq

def UsageError.label : UsageError → String
  | .invalidSubcommand => "InvalidSubcommand"
  | .unknownArgument => "UnknownArgument"
  | .invalidValue => "InvalidValue"
  | .tooManyValues => "TooManyValues"
  | .argumentConflict => "ArgumentConflict"
  | .missingRequiredArgument => "MissingRequiredArgument"
  | .missingSubcommand => "MissingSubcommand"
  | .displayHelpOnMissing => "DisplayHelpOnMissingArgumentOrSubcommand"
  | .displayHelp => "DisplayHelp"
  | .displayVersion => "DisplayVersion"

/-- Asking for help or the version is no failure. -/
def UsageError.exitCode : UsageError → Nat
  | .displayHelp | .displayVersion => 0
  | _ => 2

/-! ## Vocabulary -/

/-- An option; each takes a value. -/
inductive Setting where
  | qualifier
  | cycles
  | root
  | caller
  | module
  | base
deriving DecidableEq

namespace Setting

def name : Setting → String
  | .qualifier => "qualifier"
  | .cycles => "cycles"
  | .root => "root"
  | .caller => "from"
  | .module => "module"
  | .base => "base"

def isRepeatable : Setting → Bool
  | .module => true
  | _ => false

def accepts : Setting → String → Bool
  | .cycles, value => (CyclePolicy.ofLabel? value).isSome
  | .base, value => decide (value ≠ "")
  | _, _ => true

/-- The settings of the tool, which every subcommand takes as well. -/
def shared : List Setting := [.qualifier, .cycles]

end Setting

inductive Subcommand where
  | taxonomy
  | ancestry
  | resolve
  | moduleName
deriving DecidableEq

namespace Subcommand

def name : Subcommand → String
  | .taxonomy => "taxonomy"
  | .ancestry => "ancestry"
  | .resolve => "resolve"
  | .moduleName => "module-name"

def all : List Subcommand := [.taxonomy, .ancestry, .resolve, .moduleName]

def ofName? (name : String) : Option Subcommand := all.find? fun s => decide (s.name = name)

def settings : Subcommand → List Setting
  | .taxonomy => [.root]
  | .ancestry => []
  | .resolve => [.caller, .module]
  | .moduleName => [.base]

def takesPositional : Subcommand → Bool
  | .taxonomy => false
  | _ => true

/-- A path is not empty. -/
def acceptsPositional : Subcommand → String → Bool
  | .moduleName, value => decide (value ≠ "")
  | _, _ => true

end Subcommand

/-- The subcommand that explains the others. -/
def helpName : String := "help"

/-- The level whose arguments are read: a subcommand's, or the tool's own. -/
abbrev Level := Option Subcommand

namespace Level

def settings : Level → List Setting
  | none => Setting.shared
  | some s => s.settings ++ Setting.shared

def acceptsPositional : Level → String → Bool
  | none, _ => false
  | some s, value => s.acceptsPositional value

end Level

/-! ## Tokens -/

inductive Token where
  /-- What ends the options. -/
  | escape
  | long (name : String) (value : Option String)
  /-- A group of short options, by its first. -/
  | short (flag : Char)
  | word (text : String)
deriving DecidableEq

/-- A name and what follows the first `=`. -/
def splitValue (cs : List Char) : String × Option String :=
  match cs.span fun c => decide (c ≠ '=') with
  | (name, []) => (String.ofList name, none)
  | (name, _ :: value) => (String.ofList name, some (String.ofList value))

/-- A lone dash is a word. -/
def Token.ofArgument (arg : String) : Token :=
  match arg.toList with
  | ['-', '-'] => .escape
  | '-' :: '-' :: rest => .long (splitValue rest).1 (splitValue rest).2
  | '-' :: flag :: _ => .short flag
  | _ => .word arg

/-! ## Reading a level -/

inductive Slot where
  | setting (s : Setting)
  | positional
deriving DecidableEq

/-- What was read of a level. -/
structure Progress where
  settled : List (Setting × String)
  positional : Option String
  /-- What was begun and not yet settled, with its value once it was read. -/
  pending : Option (Slot × Option String)
deriving DecidableEq

namespace Progress

def start : Progress := ⟨[], none, none⟩

/-- Checks and records what is pending: it has its value, was not given before, and the value is in order. -/
def settle (level : Level) (p : Progress) : Except UsageError Progress :=
  match p.pending with
  | none => .ok p
  | some (_, none) => .error .invalidValue
  | some (.setting s, some value) =>
    if !s.isRepeatable && p.settled.any (fun given => decide (given.1 = s)) then .error .argumentConflict
    else if s.accepts value then .ok { p with settled := p.settled ++ [(s, value)], pending := none }
    else .error .invalidValue
  | some (.positional, some value) =>
    if level.acceptsPositional value then .ok { p with positional := some value, pending := none }
    else .error .invalidValue

/-- Settles what is pending and begins the next. -/
def begin (level : Level) (p : Progress) (slot : Slot) (value : Option String) :
    Except UsageError Progress := do
  let p ← p.settle level
  return { p with pending := some (slot, value) }

/-- Settles what is pending, then stops for another reason. -/
def stop {α : Type} (level : Level) (p : Progress) (reason : UsageError) : Except UsageError α := do
  let _ ← p.settle level
  throw reason

def awaitsValue (p : Progress) : Bool :=
  match p.pending with
  | some (_, none) => true
  | _ => false

def fill (p : Progress) (value : String) : Progress :=
  { p with pending := p.pending.map fun begun => (begun.1, some value) }

def hasPositional (p : Progress) : Bool :=
  p.positional.isSome || decide (p.pending.map Prod.fst = some .positional)

/-- A long option. Only the tool itself has a version. -/
def long (level : Level) (p : Progress) (name : String) (value : Option String) :
    Except UsageError Progress :=
  if name = "help" then
    if value.isSome then throw .tooManyValues else p.stop level .displayHelp
  else if name = "version" && level.isNone then
    if value.isSome then throw .tooManyValues else p.stop level .displayVersion
  else
    match level.settings.find? fun s => decide (s.name = name) with
    | none => throw .unknownArgument
    | some s => do
      let p ← p.begin level (.setting s) value
      if value.isSome then p.settle level else return p

def short (level : Level) (p : Progress) (flag : Char) : Except UsageError Progress :=
  if flag = 'h' then p.stop level .displayHelp
  else if flag = 'V' && level.isNone then p.stop level .displayVersion
  else throw .unknownArgument

end Progress

/-- Reads the arguments of a subcommand. -/
def readLevel (s : Subcommand) (escaped : Bool) (p : Progress) : List String → Except UsageError Progress
  | [] => p.settle (some s)
  | arg :: args =>
    match if escaped then Token.word arg else Token.ofArgument arg with
    | .escape => readLevel s true p args
    | .long name value => do readLevel s escaped (← p.long (some s) name value) args
    | .short flag => do readLevel s escaped (← p.short (some s) flag) args
    | .word text =>
      if p.awaitsValue && !escaped then readLevel s escaped (p.fill text) args
      else if s.takesPositional && !p.hasPositional then do
        readLevel s escaped (← p.begin (some s) .positional (some text)) args
      else throw .unknownArgument

/-! ## Invocations -/

/-- A command and the configuration it runs under. -/
structure Invocation where
  config : Config
  command : Command
deriving DecidableEq

/-- The values given for a setting, in order. -/
def Progress.values (p : Progress) (s : Setting) : List String :=
  p.settled.filterMap fun given => if given.1 = s then some given.2 else none

def Progress.value? (p : Progress) (s : Setting) : Option String := (p.values s).getLast?

def requiredPositional (p : Progress) : Except UsageError String :=
  match p.positional with
  | some value => .ok value
  | none => .error .missingRequiredArgument

def commandOf (s : Subcommand) (p : Progress) : Except UsageError Command :=
  match s with
  | .taxonomy => return .taxonomy ((p.value? .root).getD Builtin.baseException)
  | .ancestry => return .ancestry (← requiredPositional p)
  | .resolve =>
    return .resolve (← requiredPositional p) ((p.value? .caller).getD "") (p.values .module)
  | .moduleName => return .moduleName (← requiredPositional p) ((p.value? .base).getD ".")

/-- A shared setting given to the subcommand wins over one given to the tool. -/
def configOf (tool sub : Progress) : Config where
  qualifier := ((sub.value? .qualifier).or (tool.value? .qualifier)).getD Builtin.defaultQualifier
  cycles := (((sub.value? .cycles).or (tool.value? .cycles)).bind CyclePolicy.ofLabel?).getD .reenter

/-- The help subcommand may be given one subcommand to explain, itself included. -/
def readHelp : List String → UsageError
  | [] => .displayHelp
  | [name] =>
    if name = helpName ∨ (Subcommand.ofName? name).isSome then .displayHelp else .invalidSubcommand
  | _ => .invalidSubcommand

/-- Nothing can follow what ends the options of the tool: its only positional is the subcommand, which is not
    looked for there. -/
def readEscaped (p : Progress) : List String → UsageError
  | [] =>
    match p.settle none with
    | .error e => e
    | .ok p => if p.settled.isEmpty then .displayHelpOnMissing else .missingSubcommand
  | arg :: _ =>
    if arg = helpName ∨ (Subcommand.ofName? arg).isSome then .unknownArgument else .invalidSubcommand

/-- Reads the arguments of the tool up to the subcommand, and then those of the subcommand. -/
def readTool (p : Progress) : List String → Except UsageError Invocation
  | [] => throw (readEscaped p [])
  | arg :: args =>
    match Token.ofArgument arg with
    | .escape => throw (readEscaped p args)
    | .long name value => do readTool (← p.long none name value) args
    | .short flag => do readTool (← p.short none flag) args
    | .word text =>
      if p.awaitsValue then readTool (p.fill text) args
      else if text = helpName then throw (readHelp args)
      else
        match Subcommand.ofName? text with
        | none => throw .invalidSubcommand
        | some s => do
          let sub ← readLevel s false .start args
          let command ← commandOf s sub
          let tool ← p.settle none
          return ⟨configOf tool sub, command⟩

def Invocation.parse (args : List String) : Except UsageError Invocation := readTool .start args

def Invocation.run (i : Invocation) : Except CommandError String := i.command.run i.config

/-! ## The tool -/

def versionText : String := "pyhost 0.1.0-alpha.1\n"

/-- How the tool ends. -/
inductive Outcome where
  | answered (output : String)
  | failed (e : CommandError)
  | refused (e : UsageError)
deriving DecidableEq

def Outcome.exitCode : Outcome → Nat
  | .answered _ => 0
  | .failed _ => 1
  | .refused e => e.exitCode

def run (args : List String) : Outcome :=
  match Invocation.parse args with
  | .error e => .refused e
  | .ok i =>
    match i.run with
    | .ok output => .answered output
    | .error e => .failed e

end ObjectHost.CommandLine

import Stowage.Layout

set_option autoImplicit false

namespace Stowage

namespace Arguments

inductive Fault
  | missingCommand
  | helpWanted
  | versionWanted
  | unknownArgument
  | unknownCommand
  | valueExpected
  | valueRefused
  | repeated
  | unexpectedValue
  deriving DecidableEq, Repr

inductive Slot
  | root
  | output
  | config
  | mapping
  | exclude
  deriving DecidableEq, Repr

namespace Slot

def long : Slot -> String
  | root => "root"
  | output => "output"
  | config => "config"
  | mapping => "map"
  | exclude => "exclude"

def short : Slot -> Option Char
  | root => some 'r'
  | output => some 'o'
  | config => some 'c'
  | mapping => none
  | exclude => some 'e'

def repeats : Slot -> Bool
  | mapping => true
  | exclude => true
  | _ => false

def fault? (slot : Slot) (value : String) : Option Fault :=
  match slot with
  | exclude => none
  | mapping => if (Layout.readMapping value).isNone then some .valueRefused else none
  | _ => if value = "" then some .valueExpected else none

end Slot

inductive Switch
  | dryRun
  | noDefaultExcludes
  | interactive
  | typecheck
  | commit
  | json
  | verbose
  deriving DecidableEq, Repr

namespace Switch

def long : Switch -> String
  | dryRun => "dry-run"
  | noDefaultExcludes => "no-default-excludes"
  | interactive => "interactive"
  | typecheck => "typecheck"
  | commit => "commit"
  | json => "json"
  | verbose => "verbose"

def short : Switch -> Option Char
  | interactive => some 'i'
  | verbose => some 'v'
  | _ => none

end Switch

structure Grammar where
  name : String
  slots : List Slot
  switches : List Switch

def organizeGrammar : Grammar where
  name := "organize"
  slots := [.root, .output, .config, .mapping, .exclude]
  switches :=
    [.dryRun, .noDefaultExcludes, .interactive, .typecheck, .commit, .json, .verbose]

def validateGrammar : Grammar where
  name := "validate"
  slots := [.root, .config, .exclude]
  switches := [.noDefaultExcludes, .json]

def layoutGrammar : Grammar where
  name := "layout"
  slots := [.config, .mapping]
  switches := []

def scanGrammar : Grammar where
  name := "scan"
  slots := [.root, .config, .exclude]
  switches := [.noDefaultExcludes]

structure State where
  values : List (Slot × String)
  switches : List Switch
  pending : Option (Slot × Option String)

def State.start : State := ⟨[], [], none⟩

def State.settle (state : State) : Except Fault State :=
  match state.pending with
  | none => .ok state
  | some (_, none) => .error .valueExpected
  | some (slot, some value) =>
    -- That an option is given twice is told before what is wrong with its value.
    if !slot.repeats && state.values.any fun given => given.1 = slot then .error .repeated
    else
      match slot.fault? value with
      | some fault => .error fault
      | none => .ok { state with values := state.values ++ [(slot, value)], pending := none }

inductive Meaning
  | slot (slot : Slot)
  | switch (switch : Switch)
  | help

def Grammar.long? (grammar : Grammar) (name : String) : Option Meaning :=
  if name = "help" then some .help
  else
    match grammar.slots.find? fun slot => slot.long = name with
    | some slot => some (.slot slot)
    | none => (grammar.switches.find? fun switch => switch.long = name).map Meaning.switch

def Grammar.short? (grammar : Grammar) (letter : Char) : Option Meaning :=
  if letter = 'h' then some .help
  else
    match grammar.slots.find? fun slot => slot.short = some letter with
    | some slot => some (.slot slot)
    | none =>
      (grammar.switches.find? fun switch => switch.short = some letter).map Meaning.switch

def State.turnOn (state : State) (switch : Switch) : Except Fault State :=
  match state.settle with
  | .error fault => .error fault
  | .ok settled =>
    if settled.switches.contains switch then .error .repeated
    else .ok { settled with switches := settled.switches ++ [switch] }

def State.await (state : State) (slot : Slot) (attached : Option String) : Except Fault State :=
  match state.settle with
  | .error fault => .error fault
  | .ok settled =>
    let opened := { settled with pending := some (slot, attached) }
    match attached with
    | none => .ok opened
    | some _ => opened.settle

def State.askHelp (state : State) : Fault :=
  match state.settle with
  | .error fault => fault
  | .ok _ => .helpWanted

def cutValue (text : List Char) : List Char × Option (List Char) :=
  let name := text.takeWhile (· != '=')
  match text.drop name.length with
  | _ :: value => (name, some value)
  | [] => (name, none)

def Grammar.readLong (grammar : Grammar) (state : State) (text : List Char) :
    Except Fault State :=
  let (name, value) := cutValue text
  match grammar.long? (String.ofList name), value with
  | none, _ => .error .unknownArgument
  | some .help, none => .error state.askHelp
  | some .help, some _ => .error .unexpectedValue
  | some (.switch switch), none => state.turnOn switch
  | some (.switch _), some _ => .error .unexpectedValue
  | some (.slot slot), value => state.await slot (value.map String.ofList)

def Grammar.readShort (grammar : Grammar) (state : State) : List Char -> Except Fault State
  | [] => .ok state
  | letter :: rest =>
    match grammar.short? letter with
    | none => .error .unknownArgument
    | some .help => .error state.askHelp
    | some (.switch switch) =>
      match state.turnOn switch with
      | .error fault => .error fault
      | .ok next => grammar.readShort next rest
    | some (.slot slot) =>
      match rest with
      | [] => state.await slot none
      | '=' :: value => state.await slot (some (String.ofList value))
      | value => state.await slot (some (String.ofList value))

def State.readPlain (state : State) (argument : String) : Except Fault State :=
  match state.pending with
  | some (slot, none) => .ok { state with pending := some (slot, some argument) }
  | _ => .error .unknownArgument

def Grammar.read (grammar : Grammar) : State -> List String -> Except Fault State
  | state, [] => state.settle
  | state, argument :: rest =>
    let next := match argument.toList with
      -- No command takes arguments that are no options, so nothing may follow a double dash.
      | ['-', '-'] => if rest = [] then state.settle else .error .unknownArgument
      | '-' :: '-' :: text => grammar.readLong state text
      | '-' :: letter :: letters => grammar.readShort state (letter :: letters)
      | _ => state.readPlain argument
    match next with
    | .error fault => .error fault
    | .ok state => grammar.read state rest

def State.path? (state : State) (slot : Slot) : Option Path :=
  (state.values.find? fun given => given.1 = slot).map fun given => ⟨given.2⟩

def State.all (state : State) (slot : Slot) : List String :=
  (state.values.filter fun given => given.1 = slot).map Prod.snd

def State.mappings (state : State) : List (String × String) :=
  (state.all .mapping).filterMap Layout.readMapping

def State.has (state : State) (switch : Switch) : Bool := state.switches.contains switch

end Arguments

structure OrganizeOptions where
  root : Path
  dryRun : Bool
  output : Option Path
  config : Option Path
  mappings : List (String × String)
  exclude : List String
  noDefaultExcludes : Bool
  interactive : Bool
  typecheck : Bool
  commit : Bool
  json : Bool
  verbose : Bool

structure ValidateOptions where
  root : Path
  config : Option Path
  exclude : List String
  noDefaultExcludes : Bool
  json : Bool

structure LayoutOptions where
  config : Option Path
  mappings : List (String × String)

structure ScanOptions where
  root : Path
  config : Option Path
  exclude : List String
  noDefaultExcludes : Bool

inductive Command
  | organize (options : OrganizeOptions)
  | validate (options : ValidateOptions)
  | layout (options : LayoutOptions)
  | scan (options : ScanOptions)

namespace Command

open Arguments

def currentRoot : Path := ⟨"."⟩

def organizeOf (state : State) : Command :=
  .organize
    { root := (state.path? .root).getD currentRoot
      dryRun := state.has .dryRun
      output := state.path? .output
      config := state.path? .config
      mappings := state.mappings
      exclude := state.all .exclude
      noDefaultExcludes := state.has .noDefaultExcludes
      interactive := state.has .interactive
      typecheck := state.has .typecheck
      commit := state.has .commit
      json := state.has .json
      verbose := state.has .verbose }

def validateOf (state : State) : Command :=
  .validate
    { root := (state.path? .root).getD currentRoot
      config := state.path? .config
      exclude := state.all .exclude
      noDefaultExcludes := state.has .noDefaultExcludes
      json := state.has .json }

def layoutOf (state : State) : Command :=
  .layout { config := state.path? .config, mappings := state.mappings }

def scanOf (state : State) : Command :=
  .scan
    { root := (state.path? .root).getD currentRoot
      config := state.path? .config
      exclude := state.all .exclude
      noDefaultExcludes := state.has .noDefaultExcludes }

def table : List (Grammar × (State -> Command)) :=
  [(organizeGrammar, organizeOf), (validateGrammar, validateOf), (layoutGrammar, layoutOf),
    (scanGrammar, scanOf)]

def named? (name : String) : Option (Grammar × (State -> Command)) :=
  table.find? fun row => row.1.name = name

def isName (word : String) : Bool := word = "help" || (named? word).isSome

def helpOn : List String -> Fault
  | [] => .helpWanted
  | [name] => if isName name then .helpWanted else .unknownCommand
  | _ => .unknownCommand

def afterDash : List String -> Fault
  | [] => .missingCommand
  | word :: _ => if isName word then .unknownArgument else .unknownCommand

def outerOption (argument : List Char) : Fault :=
  match argument with
  | '-' :: '-' :: text =>
    match cutValue text with
    | (name, value) =>
      let known := String.ofList name = "help" || String.ofList name = "version"
      if !known then .unknownArgument
      else if value.isSome then .unexpectedValue
      else if String.ofList name = "help" then .helpWanted
      else .versionWanted
  | '-' :: 'h' :: _ => .helpWanted
  | '-' :: 'V' :: _ => .versionWanted
  | _ => .unknownArgument

def read (arguments : List String) : Except Fault Command :=
  match arguments with
  | [] => .error .missingCommand
  | first :: rest =>
    match first.toList with
    | ['-', '-'] => .error (afterDash rest)
    | '-' :: letter :: letters => .error (outerOption ('-' :: letter :: letters))
    | _ =>
      if first = "help" then .error (helpOn rest)
      else
        match named? first with
        | none => .error .unknownCommand
        | some (grammar, build) => (grammar.read .start rest).map build

end Command

end Stowage

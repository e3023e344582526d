import Stowage.Disk.Basic
import Stowage.Issue
import Stowage.Layout
import Stowage.Toml.Document

set_option autoImplicit false

namespace Stowage.Layout

open Toml (Value Entries)

def fileName : String := ".tree-tidy.toml"

def asText : Value -> Option String
  | .text value => some value
  | _ => none

def asPath (value : Value) : Option Path := (asText value).map Path.mk

def asList {Item : Type} (item : Value -> Option Item) : Value -> Option (List Item)
  | .array items => items.mapM item
  | _ => none

/-- The one key that a moment has where a table is asked for. -/
def momentKey : String := "$__toml_private_datetime"

def asPaths : Value -> Option (Table String Path)
  | .moment shown => some [(momentKey, ⟨shown⟩)]
  | .table _ entries =>
    (entries.mapM fun entry => (asPath entry.2).map fun path => (entry.1, path)).map
      (Table.ofList nameOrder)
  | _ => none

def asNumber : Value -> Option Binary64
  | .float value => some value
  | .integer value => some (.ofDecimal (value < 0) value.natAbs 0)
  | _ => none

def field {Result : Type} (entries : Entries) (name : String) (read : Value -> Option Result)
    (usual : Result) : Option Result :=
  match entries.get? name with
  | none => some usual
  | some value => read value

def ofEntries (entries : Entries) : Option Layout := do
  let stagingDir <- field entries "staging_dir" asPath usual.stagingDir
  let sourceDir <- field entries "source_dir" asPath usual.sourceDir
  let requiredDirs <- field entries "required_dirs" (asList asPath) usual.requiredDirs
  let destinations <- field entries "destinations" asPaths usual.destinations
  let fallbackDir <- field entries "fallback_dir" asPath usual.fallbackDir
  let aliases <- field entries "aliases" asPaths usual.aliases
  let probeExtensions <-
    field entries "probe_extensions" (asList asText) usual.probeExtensions
  let sourceExtensions <-
    field entries "source_extensions" (asList asText) usual.sourceExtensions
  let executableExtensions <-
    field entries "executable_extensions" (asList asText) usual.executableExtensions
  let threshold <- field entries "acceptance_threshold" asNumber usual.threshold
  return {
    stagingDir := stagingDir
    sourceDir := sourceDir
    requiredDirs := requiredDirs
    destinations := destinations
    fallbackDir := fallbackDir
    aliases := aliases
    probeExtensions := probeExtensions
    sourceExtensions := sourceExtensions
    executableExtensions := executableExtensions
    threshold := threshold }

def ofToml (text : String) : Option Layout := (Toml.read text).bind ofEntries

inductive FileError
  | unreadable (path : Path) (problem : DiskError)
  | malformed (path : Path)

def FileError.chain : FileError -> String × String
  | unreadable path problem => ("Failed to read config " ++ path.text, problem.message)
  | malformed path => ("Failed to parse " ++ path.text, "TOML parse error")

def FileError.message (error : FileError) : String :=
  error.chain.1 ++ ": " ++ error.chain.2

def ofFile (d : Disk) (path : Path) : Except FileError Layout :=
  match d.readText path with
  | .error problem => .error (.unreadable path problem)
  | .ok text =>
    match ofToml text with
    | none => .error (.malformed path)
    | some layout => .ok layout

def ofRoot (d : Disk) (root : Path) : Layout × List Note :=
  let path := root.join ⟨fileName⟩
  if d.isThere path then
    match ofFile d path with
    | .ok layout => (layout, [])
    | .error error => (usual, [.warning (error.message ++ ", using defaults")])
  else (usual, [])

end Stowage.Layout

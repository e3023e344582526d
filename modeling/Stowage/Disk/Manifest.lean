import Stowage.Disk.Setting
import Stowage.Toml.Document

set_option autoImplicit false

namespace Stowage.Disk.Manifest

open Toml (Value Entries)

def asEntries : Option Value -> Entries
  | some (.table _ entries) => entries
  | _ => []

def asItems : Option Value -> List Value
  | some (.array items) => items
  | _ => []

def texts (entries : Entries) : List (String × String) :=
  entries.filterMap fun entry =>
    match entry.2 with
    | .text value => some (entry.1, value)
    | _ => none

def timeOf (times : Entries) (name : String) : Instant :=
  match times.get? name with
  | some (.integer seconds) => ⟨seconds, 0⟩
  | _ => ⟨0, 0⟩

def addFolder (d : Disk) : Value -> Disk
  | .text name => d.settleFolder ⟨name⟩
  | _ => d

def addFile (times : Entries) (d : Disk) (file : String × String) : Disk :=
  d.settle ⟨file.1⟩ (.file file.2.toUTF8 newFileMode (timeOf times file.1))

def addLink (d : Disk) (link : String × String) : Disk := d.settle ⟨link.1⟩ (.link link.2)

def ofEntries (home : Location) (now : Instant) (entries : Entries) : Disk :=
  let folders := (asItems (entries.get? "folders")).foldl addFolder (bare home now)
  let times := asEntries (entries.get? "times")
  let files := (texts (asEntries (entries.get? "files"))).foldl (addFile times) folders
  (texts (asEntries (entries.get? "links"))).foldl addLink files

def read (home : Location) (now : Instant) (text : String) : Option Disk :=
  (Toml.read text).map (ofEntries home now)

def nodeLine (entry : Location × Node) : String :=
  let path := entry.1.path.text
  match entry.2 with
  | .folder _ _ => path ++ "/"
  | .file content mode _ =>
    path ++ " " ++ toString content.size ++ (if mode &&& searchBit != 0 then " *" else "")
  | .link target => path ++ " -> " ++ target

def listing (d : Disk) : List String :=
  (d.nodes.mergeSort fun a b => a.1.path.text ≤ b.1.path.text).map nodeLine

end Stowage.Disk.Manifest

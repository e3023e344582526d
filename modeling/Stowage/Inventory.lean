import Stowage.Classification.Basic
import Stowage.Digest.Sha256
import Stowage.Disk.Walk
import Stowage.Issue
import Stowage.Layout

set_option autoImplicit false

namespace Stowage

inductive Standing
  | staged
  | inPlace
  deriving DecidableEq, Repr

def Standing.label : Standing -> String
  | staged => "staged"
  | inPlace => "in_place"

structure FileRecord where
  path : Path
  extension : String
  digest : String
  modified : Instant
  size : Nat
  standing : Standing
  classification : Classification
  deriving Repr

def FileRecord.fileName (record : FileRecord) : String := record.path.fileName

inductive Unread
  | noStat (path : Path) (problem : DiskError)
  | noContent (path : Path) (problem : DiskError)
  deriving Repr

def Unread.message : Unread -> String
  | noStat path problem => "Failed to stat " ++ path.text ++ ": " ++ problem.message
  | noContent path problem => "Failed to read " ++ path.text ++ ": " ++ problem.message

structure Reading where
  record : FileRecord
  text : Option String

def readRecord (d : Disk) (path : Path) (standing : Standing) : Except Unread Reading :=
  match d.stat path with
  | .error problem => .error (.noStat path problem)
  | .ok stat =>
    match d.read path with
    | .error problem => .error (.noContent path problem)
    | .ok content =>
      let record : FileRecord :=
        { path := path
          extension := path.extension
          digest := Sha256.hex content
          modified := stat.modified
          size := stat.size
          standing := standing
          classification := .ofContent content path.extension }
      .ok ⟨record, Classification.decodeText content⟩

inductive Gap
  | closed (path : Path) (problem : DiskError)
  | unread (path : Path) (reason : Unread)
  | notText (path : Path)

namespace Gap

def closedMessage (path : Path) (problem : DiskError) : String :=
  "IO error for operation on " ++ path.text ++ ": " ++ problem.message

def issue : Gap -> Issue
  | closed path problem => ⟨.readError, path, none, closedMessage path problem⟩
  | unread path reason => ⟨.readError, path, none, reason.message⟩
  | notText path =>
    ⟨.readError, path, none, "not UTF-8 text; classification and imports skipped"⟩

def note : Gap -> Note
  | closed path problem =>
    .warning ("Skipping unreadable entry: " ++ closedMessage path problem)
  | unread _ reason => .warning reason.message
  | notText path => .warning (path.text ++ " is not UTF-8 text; not classified")

end Gap

structure Inventory where
  records : List FileRecord
  sources : List (Path × String)
  gaps : List Gap

namespace Inventory

structure Entry where
  record : Option FileRecord
  source : Option (Path × String)
  gap : Option Gap

def entry (d : Disk) (layout : Layout) (path : Path) (standing : Standing) : Entry :=
  match readRecord d path standing with
  | .error reason => ⟨none, none, some (.unread path reason)⟩
  | .ok reading =>
    if layout.isSource reading.record.extension then
      match reading.text with
      | some text => ⟨some reading.record, some (path, text), none⟩
      | none => ⟨some reading.record, none, some (.notText path)⟩
    else ⟨some reading.record, none, none⟩

def closedGap? : Sighting -> Option Gap
  | .file _ => none
  | .closed path problem => some (.closed path problem)

def stagedFiles (d : Disk) (layout : Layout) (excludes : Excludes) (root : Path) : List Path :=
  d.files excludes (root.join layout.stagingDir)

def placedFiles (d : Disk) (layout : Layout) (excludes : Excludes) (root : Path) : List Path :=
  (d.files excludes (root.join layout.sourceDir)).filter fun path =>
    layout.isSource path.extension

def take (d : Disk) (layout : Layout) (excludes : Excludes) (root : Path) : Inventory :=
  let sightings :=
    d.explore excludes (root.join layout.stagingDir) ++
      d.explore excludes (root.join layout.sourceDir)
  let staged := (stagedFiles d layout excludes root).map fun path =>
    entry d layout path .staged
  let placed := (placedFiles d layout excludes root).map fun path =>
    entry d layout path .inPlace
  let entries := staged ++ placed
  { records := entries.filterMap Entry.record
    sources := entries.filterMap Entry.source
    gaps := sightings.filterMap closedGap? ++ entries.filterMap Entry.gap }

end Inventory

end Stowage

import Stowage.Inventory

set_option autoImplicit false

namespace Stowage

inductive Decision
  | move
  | updateNewer
  | skipOlder
  | identical
  | conflict
  deriving DecidableEq, Repr

namespace Decision

def all : List Decision := [move, updateNewer, skipOlder, identical, conflict]

def label : Decision -> String
  | move => "move"
  | updateNewer => "update_newer"
  | skipOlder => "skip_older"
  | identical => "identical"
  | conflict => "conflict"

def ofTimes (source destination : Instant) : Decision :=
  match source.order destination with
  | .gt => updateNewer
  | .lt => skipOlder
  | .eq => conflict

def sameContent (d : Disk) (source : FileRecord) (destination : Path) (size : Nat) :
    Except DiskError Bool :=
  -- What has another size need not be read.
  if source.size ≠ size then .ok false
  else (d.read destination).map fun content => Sha256.hex content == source.digest

def of (d : Disk) (source : FileRecord) (destination : Path) : Except DiskError Decision :=
  match d.stat destination with
  | .error .notFound => .ok move
  | .error problem => .error problem
  | .ok stat =>
    match sameContent d source destination stat.size with
    | .error problem => .error problem
    | .ok true => .ok identical
    | .ok false => .ok (ofTimes source.modified stat.modified)

end Decision

inductive Reason
  | staged
  | extensionFix
  deriving DecidableEq, Repr

def Reason.label : Reason -> String
  | staged => "staged"
  | extensionFix => "extension_fix"

structure Plan where
  source : Path
  destination : Path
  decision : Decision
  reason : Reason
  deriving Repr

def Plan.toJson (plan : Plan) : Json :=
  .object
    [("source", .text plan.source.text), ("destination", .text plan.destination.text),
      ("decision", .text plan.decision.label), ("origin", .text plan.reason.label)]

/-- The destination with a corrected extension, where it kept the one the file has. No extension
holds a separator. -/
def correctedDestination (destination : Path) (current suggested : String) : Option Path :=
  if destination.extension = current then
    if suggested.toList.contains Path.separator then none
    else some (destination.withExtension suggested)
  else some destination

/-- Where a recorded file belongs, if anywhere: a staged one at its place in the layout, one in place
only somewhere else when its extension is corrected. -/
def destinationOf (root : Path) (layout : Layout) (record : FileRecord) :
    Option (Path × Reason) :=
  let verdict := record.classification
  let accepted := verdict.isAccepted layout.threshold
  match record.standing with
  | .staged =>
    let mapped := root.join (layout.destinationFor record.fileName)
    -- A suggestion that cannot be an extension leaves the name as the layout has it.
    let corrected := if accepted then
      (correctedDestination mapped verdict.current verdict.suggested).getD mapped
      else mapped
    some (corrected, .staged)
  | .inPlace =>
    if accepted then some (record.path.withExtension verdict.suggested, .extensionFix) else none

end Stowage

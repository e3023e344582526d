import Stowage.Disk.Basic
import Stowage.Excludes

set_option autoImplicit false

namespace Stowage

inductive Sighting
  | file (path : Path)
  | closed (path : Path) (problem : DiskError)

namespace Sighting

def file? : Sighting -> Option Path
  | file path => some path
  | closed _ _ => none

end Sighting

namespace Disk

def sightings (d : Disk) (excludes : Excludes) : Nat -> Path -> List Sighting
  | 0, _ => []
  | depth + 1, folder =>
    match d.list folder with
    | .error problem => [.closed folder problem]
    | .ok entries =>
      entries.flatMap fun entry =>
        let path := folder.join ⟨entry.1⟩
        if excludes.leavesOut entry.1 path then []
        else
          match entry.2 with
          | .file _ _ _ => [.file path]
          | .folder _ _ => d.sightings excludes depth path
          | .link _ => []

/-- Walk below a directory or a link to one; elsewhere nothing is seen. -/
def explore (d : Disk) (excludes : Excludes) (folder : Path) : List Sighting :=
  if d.isFolder folder then d.sightings excludes d.tree.count folder else []

def files (d : Disk) (excludes : Excludes) (folder : Path) : List Path :=
  (d.explore excludes folder).filterMap Sighting.file?

end Disk

end Stowage

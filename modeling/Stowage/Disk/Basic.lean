import Stowage.Disk.Tree
import Stowage.Path.Basic
import Stowage.Time.Instant

/-!
A disk: directories, files and symbolic links, each at a location. A path leads to a location
through directories that may be searched, and through links; what is found there can be asked
about, read and listed.

There is one device, which is never full and never fails, and one user, who owns all that is on it:
of a mode only the owner's bits count, and for a privileged user none of them. Every node hangs at
one location, so that no two names share a file. Names are text.
-/

set_option autoImplicit false

namespace Stowage

abbrev Location := List String

def Location.folder (location : Location) : Location := location.dropLast

def Location.path (location : Location) : Path := ⟨"/" ++ "/".intercalate location⟩

inductive Node
  | folder (mode : Nat) (modified : Instant)
  | file (content : ByteArray) (mode : Nat) (modified : Instant)
  | link (target : String)
  deriving Inhabited

namespace Node

def isFolder : Node -> Bool
  | folder _ _ => true
  | _ => false

def isFile : Node -> Bool
  | file _ _ _ => true
  | _ => false

end Node

inductive DiskError
  | notFound
  | permissionDenied
  | alreadyThere
  | notDirectory
  | isDirectory
  | nameTooLong
  | tooManyLinks
  | zeroByte
  | notText
  | notRegular
  deriving DecidableEq, Repr

def DiskError.message : DiskError -> String
  | notFound => "No such file or directory (os error 2)"
  | permissionDenied => "Permission denied (os error 13)"
  | alreadyThere => "File exists (os error 17)"
  | notDirectory => "Not a directory (os error 20)"
  | isDirectory => "Is a directory (os error 21)"
  | nameTooLong => "File name too long (os error 36)"
  | tooManyLinks => "Too many levels of symbolic links (os error 40)"
  | zeroByte => "file name contained an unexpected NUL byte"
  | notText => "stream did not contain valid UTF-8"
  | notRegular => "the source path is neither a regular file nor a symlink to a regular file"

structure Disk where
  tree : Tree Node
  home : Location
  privileged : Bool
  now : Instant

inductive Step
  | folder
  | stay
  | up
  | enter (name : String)
  deriving DecidableEq, Repr

/-- What a path is followed for: what it leads to, the name it ends in, a file to be written, or the
place of what it leads to, found from name to name. -/
inductive Aim
  | object
  | entry
  | target
  | place
  deriving DecidableEq, Repr

namespace Aim

def follows (aim : Aim) : Bool := aim != .entry

def searches (aim : Aim) : Step -> Bool
  | .folder => false
  | .enter _ => true
  | _ => aim != .place

end Aim

inductive Spot
  | taken (location : Location) (node : Node)
  | free (location : Location)

structure Stat where
  isFolder : Bool
  size : Nat
  modified : Instant

def readBit : Nat := 0o400

def writeBit : Nat := 0o200

def searchBit : Nat := 0o100

namespace Path

def endsInSeparator (p : Path) : Bool := p.text.toList.getLast? = some separator

def steps (p : Path) : List Step :=
  let segments := (Text.splitOn separator p.text.toList).filter (· ≠ [])
  let named := segments.map fun segment =>
    if segment = ['.'] then Step.stay
    else if segment = ['.', '.'] then Step.up
    else Step.enter (String.ofList segment)
  if p.endsInSeparator then named ++ [.folder] else named

def withoutEnd (p : Path) : Path :=
  match p.text.toList.reverse.dropWhile (· == separator) with
  | [] => if p.isAbsolute then ⟨"/"⟩ else p
  | kept => ⟨String.ofList kept.reverse⟩

end Path

namespace Disk

def rootName : String := ""

def node? (d : Disk) (location : Location) : Option Node := d.tree.find? rootName location

def put (d : Disk) (location : Location) (node : Node) : Disk :=
  { d with tree := d.tree.alter (fun _ => some node) rootName location }

def erase (d : Disk) (location : Location) : Disk :=
  { d with tree := d.tree.alter (fun _ => none) rootName location }

def nodes (d : Disk) : List (Location × Node) :=
  (d.tree.entries []).map fun entry => (entry.1.drop 1, entry.2)

theorem node?_put_self (d : Disk) (location : Location) (node : Node) :
    (d.put location node).node? location = some node := by
  simp [node?, put, Tree.find?_alter_self]

theorem node?_put_other (d : Disk) (location other : Location) (node : Node)
    (differs : other ≠ location) : (d.put location node).node? other = d.node? other :=
  Tree.find?_alter_other (fun _ => some node) d.tree rootName rootName location other
    fun equal => differs (List.cons.inj equal).2

theorem node?_erase_self (d : Disk) (location : Location) :
    (d.erase location).node? location = none := by
  simp [node?, erase, Tree.find?_alter_self]

theorem node?_erase_other (d : Disk) (location other : Location)
    (differs : other ≠ location) : (d.erase location).node? other = d.node? other :=
  Tree.find?_alter_other (fun _ => none) d.tree rootName rootName location other
    fun equal => differs (List.cons.inj equal).2

theorem mem_nodes_of_node? (d : Disk) (location : Location) (node : Node)
    (found : d.node? location = some node) : (location, node) ∈ d.nodes :=
  List.mem_map.2 ⟨_, Tree.mem_entries_of_find? d.tree [] rootName location node found, rfl⟩

def allows (d : Disk) (bit mode : Nat) : Bool := d.privileged || mode &&& bit != 0

def longestName : Nat := 255

def longestPath : Nat := 4095

def linkLimit : Nat := 40

/-- Follow steps from a location. A link on the way, and one at the end where the aim follows it, is
handed to `pass` with the steps that it stands for. -/
def walkSteps (d : Disk) (aim : Aim)
    (pass : Location -> List Step -> Except DiskError Spot) :
    Location -> List Step -> Except DiskError Spot
  | here, [] =>
    match d.node? here with
    | some node => .ok (.taken here node)
    | none => .error .notFound
  | here, step :: rest =>
    match d.node? here with
    | none => .error .notFound
    | some (.folder mode _) =>
      if aim.searches step && !d.allows searchBit mode then .error .permissionDenied
      else
        match step with
        | .folder => d.walkSteps aim pass here rest
        | .stay => d.walkSteps aim pass here rest
        | .up => d.walkSteps aim pass here.folder rest
        | .enter name =>
          -- A name with a separator after it is that of a directory, whatever is there.
          if aim = .target && rest = [.folder] then .error .isDirectory
          else if longestName < name.utf8ByteSize then .error .nameTooLong
          else
            let there := here ++ [name]
            match d.node? there with
            | none => if rest = [] then .ok (.free there) else .error .notFound
            | some (.link target) =>
              if rest = [] && !aim.follows then .ok (.taken there (.link target))
              else
                -- A relative target is read from the directory that the link hangs in.
                let path : Path := ⟨target⟩
                pass (if path.isAbsolute then [] else here) (path.steps ++ rest)
            | some _ => d.walkSteps aim pass there rest
    | some _ => .error .notDirectory

def walk (d : Disk) (aim : Aim) : Nat -> Location -> List Step -> Except DiskError Spot
  | 0 => d.walkSteps aim fun _ _ => .error .tooManyLinks
  | links + 1 => d.walkSteps aim (d.walk aim links)

def isTooLong (p : Path) : Bool := longestPath < p.text.utf8ByteSize

/-- Why a path is not even looked at. A place is found from name to name, so that the whole path may
be of any length. -/
def refusal? (aim : Aim) (p : Path) : Option DiskError :=
  if p.text = "" then some .notFound
  else if p.text.toList.contains (Char.ofNat 0) then some .zeroByte
  else if aim != .place && isTooLong p then some .nameTooLong
  else none

def reach (d : Disk) (aim : Aim) (p : Path) (steps : List Step) : Except DiskError Spot :=
  match refusal? aim p with
  | some problem => .error problem
  | none => d.walk aim linkLimit (if p.isAbsolute then [] else d.home) steps

def spot (d : Disk) (aim : Aim) (p : Path) : Except DiskError Spot := d.reach aim p p.steps

def entry (d : Disk) (p : Path) : Except DiskError Spot := d.reach .entry p p.withoutEnd.steps

def find (d : Disk) (p : Path) : Except DiskError (Location × Node) :=
  match d.spot .object p with
  | .error problem => .error problem
  | .ok (.free _) => .error .notFound
  | .ok (.taken location node) => .ok (location, node)

def folderSize : Nat := 4096

def stat (d : Disk) (p : Path) : Except DiskError Stat :=
  match d.find p with
  | .error problem => .error problem
  | .ok (_, .folder _ modified) => .ok ⟨true, folderSize, modified⟩
  | .ok (_, .file content _ modified) => .ok ⟨false, content.size, modified⟩
  | .ok (_, .link _) => .error .notFound

def isThere (d : Disk) (p : Path) : Bool :=
  match d.find p with
  | .ok _ => true
  | .error _ => false

def isFolder (d : Disk) (p : Path) : Bool :=
  match d.find p with
  | .ok (_, node) => node.isFolder
  | .error _ => false

def isFile (d : Disk) (p : Path) : Bool :=
  match d.find p with
  | .ok (_, node) => node.isFile
  | .error _ => false

def read (d : Disk) (p : Path) : Except DiskError ByteArray :=
  match d.find p with
  | .error problem => .error problem
  | .ok (_, .folder mode _) =>
    if d.allows readBit mode then .error .isDirectory else .error .permissionDenied
  | .ok (_, .file content mode _) =>
    if d.allows readBit mode then .ok content else .error .permissionDenied
  | .ok (_, .link _) => .error .notFound

def readText (d : Disk) (p : Path) : Except DiskError String :=
  match d.read p with
  | .error problem => .error problem
  | .ok content =>
    match String.fromUTF8? content with
    | some text => .ok text
    | none => .error .notText

def canonical (d : Disk) (p : Path) : Except DiskError Path :=
  match d.spot .place p with
  | .error problem => .error problem
  | .ok (.free _) => .error .notFound
  | .ok (.taken location _) =>
    if isTooLong location.path then .error .nameTooLong else .ok location.path

def children (d : Disk) (location : Location) : List (String × Node) :=
  (d.tree.branch rootName location).below.rows

def list (d : Disk) (p : Path) : Except DiskError (List (String × Node)) :=
  match d.find p with
  | .error problem => .error problem
  | .ok (location, .folder mode _) =>
    if d.allows readBit mode then
      .ok ((d.children location).mergeSort fun a b => a.1 ≤ b.1)
    else .error .permissionDenied
  | .ok _ => .error .notDirectory

end Disk

end Stowage

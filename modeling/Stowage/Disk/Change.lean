import Stowage.Disk.Basic

/-!
Changes of a disk: writing, copying, removing and renaming, and new directories. A change that is
refused leaves the disk as it was, except that making a chain of directories may stop half way.
-/

set_option autoImplicit false

namespace Stowage.Disk

def touch (d : Disk) (location : Location) : Disk :=
  match d.node? location with
  | some (.folder mode _) => d.put location (.folder mode d.now)
  | _ => d

def mayChange (d : Disk) (folder : Location) : Bool :=
  match d.node? folder with
  | some (.folder mode _) => d.allows writeBit mode && d.allows searchBit mode
  | _ => false

def newFileMode : Nat := 0o644

def newFolderMode : Nat := 0o755

def executableMode : Nat := 0o755

/-- Put content where a path leads, into the file that is there or into a new one. A new file has
the mode `fresh`; one that was there keeps its own unless another is given. -/
def store (d : Disk) (p : Path) (content : ByteArray) (fresh : Nat) (mode : Option Nat) :
    Except DiskError Disk :=
  match d.spot .target p with
  | .error problem => .error problem
  | .ok (.taken _ (.folder _ _)) => .error .isDirectory
  -- The aim follows a link at the end, so none is ever left there.
  | .ok (.taken _ (.link _)) => .error .notFound
  | .ok (.taken location (.file _ old _)) =>
    if d.allows writeBit old then
      .ok (d.put location (.file content (mode.getD old) d.now))
    else .error .permissionDenied
  | .ok (.free location) =>
    if d.mayChange location.folder then
      .ok ((d.put location (.file content fresh d.now)).touch location.folder)
    else .error .permissionDenied

def write (d : Disk) (p : Path) (content : ByteArray) : Except DiskError Disk :=
  d.store p content newFileMode none

def source (d : Disk) (p : Path) : Except DiskError (Location × ByteArray × Nat) :=
  match d.find p with
  | .error problem => .error problem
  | .ok (location, .file content mode _) =>
    if d.allows readBit mode then .ok (location, content, mode) else .error .permissionDenied
  | .ok (_, .folder mode _) =>
    if d.allows readBit mode then .error .notRegular else .error .permissionDenied
  | .ok (_, .link _) => .error .notFound

def leadsTo (d : Disk) (p : Path) (location : Location) : Bool :=
  match d.find p with
  | .ok (there, _) => there == location
  | .error _ => false

def copy (d : Disk) (origin target : Path) : Except DiskError Disk :=
  match d.source origin with
  | .error problem => .error problem
  | .ok (location, content, mode) =>
    -- A file copied onto itself is emptied before it is read.
    let copied := if d.leadsTo target location then ByteArray.empty else content
    d.store target copied mode (some mode)

def endsInName (p : Path) : Bool :=
  match p.withoutEnd.steps.getLast? with
  | some (.enter _) => true
  | _ => false

/-- Remove a file or a link, which no path names that ends in a separator or in a detour. -/
def removeFile (d : Disk) (p : Path) : Except DiskError Disk :=
  match d.entry p with
  | .error problem => .error problem
  | .ok (.free _) => .error .notFound
  | .ok (.taken location node) =>
    if p.endsInSeparator || !endsInName p then
      .error (if node.isFolder then .isDirectory else .notDirectory)
    else if !d.mayChange location.folder then .error .permissionDenied
    else if node.isFolder then .error .isDirectory
    else .ok ((d.erase location).touch location.folder)

def makeFolder (d : Disk) (p : Path) : Except DiskError Disk :=
  match d.entry p with
  | .error problem => .error problem
  | .ok (.taken _ _) => .error .alreadyThere
  | .ok (.free location) =>
    if d.mayChange location.folder then
      .ok ((d.put location (.folder newFolderMode d.now)).touch location.folder)
    else .error .permissionDenied

def makeFoldersUpTo (d : Disk) : Nat -> Path -> Except DiskError Unit × Disk
  | 0, _ => (.error .notFound, d)
  | depth + 1, p =>
    if p.text = "" then (.ok (), d)
    else
      match d.makeFolder p with
      | .ok made => (.ok (), made)
      | .error .notFound =>
        match p.parent? with
        | none => (.error .notFound, d)
        | some parent =>
          match d.makeFoldersUpTo depth parent with
          | (.error problem, made) => (.error problem, made)
          | (.ok (), made) =>
            match made.makeFolder p with
            | .ok done => (.ok (), done)
            | .error problem =>
              -- A path that ends in a detour may lead to a directory that was made just now.
              if made.isFolder p then (.ok (), made) else (.error problem, made)
      | .error problem => if d.isFolder p then (.ok (), d) else (.error problem, d)

def makeFolders (d : Disk) (p : Path) : Except DiskError Unit × Disk :=
  d.makeFoldersUpTo (p.pieces.length + 1) p

def setMode (d : Disk) (p : Path) (mode : Nat) : Except DiskError Disk :=
  match d.find p with
  | .error problem => .error problem
  | .ok (location, .file content _ modified) => .ok (d.put location (.file content mode modified))
  | .ok (location, .folder _ modified) => .ok (d.put location (.folder mode modified))
  | .ok (_, .link _) => .error .notFound

def carry (d : Disk) (old new : Location) : Disk :=
  let branch := d.tree.branch rootName old
  let left := d.tree.graft (fun _ => .none) rootName old
  { d with tree := left.graft (fun _ => branch) rootName new }

theorem node?_carry_new (d : Disk) (old new : Location) :
    (d.carry old new).node? new = d.node? old := by
  simp [node?, carry, Tree.find?, Tree.branch_graft_self]

structure Renaming where
  old : Location
  new : Location
  node : Node
  inTheWay : Option Node

def renaming? (d : Disk) (origin target : Path) : Option Renaming :=
  if !endsInName origin || !endsInName target then none
  else
    match d.entry origin, d.entry target with
    | .ok (.taken old node), .ok (.taken new other) => some ⟨old, new, node, some other⟩
    | .ok (.taken old node), .ok (.free new) => some ⟨old, new, node, none⟩
    | _, _ => none

def mayReplace (d : Disk) (r : Renaming) : Bool :=
  match r.inTheWay with
  | none => true
  | some other =>
    if r.node.isFolder then other.isFolder && (d.children r.new).isEmpty
    else !other.isFolder

def mayLeave (d : Disk) (r : Renaming) : Bool :=
  match r.node with
  | .folder mode _ => r.old.folder = r.new.folder || d.allows writeBit mode
  | _ => true

def mayRename (d : Disk) (r : Renaming) : Bool :=
  d.mayChange r.old.folder && d.mayChange r.new.folder && !(r.old.isPrefixOf r.new) &&
    !(r.new.isPrefixOf r.old) && d.mayReplace r && d.mayLeave r

/-- Rename, unless that is refused. What is renamed onto itself stays, whoever asks; only a
directory is named by a path that ends in a separator. -/
def rename? (d : Disk) (origin target : Path) : Option Disk :=
  match d.renaming? origin target with
  | none => none
  | some r =>
    if !r.node.isFolder && (origin.endsInSeparator || target.endsInSeparator) then none
    else if r.old = r.new then some d
    else if d.mayRename r then
      some (((d.carry r.old r.new).touch r.old.folder).touch r.new.folder)
    else none

end Stowage.Disk

import Stowage.Disk.Change

set_option autoImplicit false

namespace Stowage.Disk

def bare (home : Location) (now : Instant) : Disk :=
  (List.range (home.length + 1)).foldl
    (fun d depth => d.put (home.take depth) (.folder newFolderMode now))
    { tree := .bare, home := home, privileged := true, now := now }

def unhindered (d : Disk) (change : Disk -> Disk) : Disk :=
  { change { d with privileged := true } with privileged := d.privileged }

def settle (d : Disk) (p : Path) (node : Node) : Disk :=
  d.unhindered fun bare =>
    let reached := match p.parent? with
      | some parent => (bare.makeFolders parent).2
      | none => bare
    let aim : Aim := match node with
      | .link _ => .entry
      | _ => .object
    match reached.spot aim p with
    | .ok (.taken location _) => reached.put location node
    | .ok (.free location) => reached.put location node
    | .error _ => reached

def settleFolder (d : Disk) (p : Path) : Disk :=
  d.unhindered fun bare => (bare.makeFolders p).2

def clear (d : Disk) (p : Path) : Disk :=
  match d.spot .entry p with
  | .ok (.taken location _) =>
    { d with tree := d.tree.graft (fun _ => .none) rootName location }
  | _ => d

def settleTimes (d : Disk) (file folder : Instant) : Disk :=
  { d with
    tree := d.tree.map fun node =>
      match node with
      | .folder mode _ => .folder mode folder
      | .file content mode modified =>
        .file content mode (if modified = d.now then file else modified)
      | .link target => .link target }

end Stowage.Disk

import Stowage.Disk.Basic
import Stowage.Issue

set_option autoImplicit false

namespace Stowage

inductive RelocationError
  | createDir (path : Path) (problem : DiskError)
  | backup (path copy : Path) (problem : DiskError)
  | move (origin target : Path) (problem : DiskError)
  | remove (path : Path) (problem : DiskError)
  | permissions (path : Path) (problem : DiskError)
  | rewrite (path : Path) (problem : DiskError)
  | samePath (path : Path)
  deriving Repr

namespace RelocationError

def label : RelocationError -> String
  | createDir _ _ => "CreateDir"
  | backup _ _ _ => "Backup"
  | move _ _ _ => "Move"
  | remove _ _ => "Remove"
  | permissions _ _ => "Permissions"
  | rewrite _ _ => "Rewrite"
  | samePath _ => "SamePath"

def message : RelocationError -> String
  | createDir path problem =>
    "failed to create directory " ++ path.text ++ ": " ++ problem.message
  | backup path copy problem =>
    "failed to back up " ++ path.text ++ " to " ++ copy.text ++ ": " ++ problem.message
  | move origin target problem =>
    "failed to move " ++ origin.text ++ " to " ++ target.text ++ ": " ++ problem.message
  | remove path problem => "failed to remove " ++ path.text ++ ": " ++ problem.message
  | permissions path problem =>
    "failed to set permissions on " ++ path.text ++ ": " ++ problem.message
  | rewrite path problem =>
    "failed to rewrite imports in " ++ path.text ++ ": " ++ problem.message
  | samePath path => "refusing to relocate " ++ path.text ++ " onto itself"

def path : RelocationError -> Path
  | createDir path _ => path
  | backup path _ _ => path
  | move origin _ _ => origin
  | remove path _ => path
  | permissions path _ => path
  | rewrite path _ => path
  | samePath path => path

def issue (error : RelocationError) : Issue :=
  ⟨.executionError, error.path, none, error.message⟩

end RelocationError

end Stowage

import Stowage.Disk.Change
import Stowage.Imports.Rewrite
import Stowage.Relocation.Error
import Stowage.Relocation.Ledger

/-!
Carrying out decisions. What stood at a destination is never lost: an update first keeps a copy of
it beside it, and a conflict puts the incoming file beside it instead. Every action that changed the
tree adds one entry to the ledger, also where a later step of it failed.
-/

set_option autoImplicit false

namespace Stowage

structure Carrier where
  stamp : String
  executableExtensions : List String

structure Site where
  disk : Disk
  ledger : Ledger

structure Executed where
  entry : LedgerEntry
  incomplete : Option RelocationError

namespace Site

def record (site : Site) (action : Action) (source : Path) (destination backup : Option Path) :
    LedgerEntry × Site :=
  let entry : LedgerEntry := ⟨action, source, destination, backup, site.disk.now⟩
  (entry, { site with ledger := site.ledger ++ [entry] })

def createDir (site : Site) (dir : Path) :
    Except RelocationError (Option LedgerEntry) × Site :=
  if site.disk.isFolder dir then (.ok none, site)
  else
    match site.disk.makeFolders dir with
    | (.error problem, disk) => (.error (.createDir dir problem), { site with disk := disk })
    | (.ok (), disk) =>
      let (entry, done) := { site with disk := disk }.record .createDir dir none none
      (.ok (some entry), done)

def recordRewrite (site : Site) (file : Path) : LedgerEntry × Site :=
  site.record .rewriteImports file none none

end Site

def applyEdits (disk : Disk) (file : Path) (edits : List Edit) :
    Except RelocationError (Bool × Disk) :=
  match disk.readText file with
  | .error problem => .error (.rewrite file problem)
  | .ok text =>
    let updated := rewriteImports edits text
    if updated = text then .ok (false, disk)
    else
      match disk.write file updated.toUTF8 with
      | .error problem => .error (.rewrite file problem)
      | .ok written => .ok (true, written)

namespace Carrier

def ensureParent (disk : Disk) (path : Path) : Except RelocationError Unit × Disk :=
  match path.parent? with
  | none => (.ok (), disk)
  | some parent =>
    match disk.makeFolders parent with
    | (.ok (), made) => (.ok (), made)
    | (.error problem, made) => (.error (.createDir parent problem), made)

def moveFile (disk : Disk) (origin target : Path) :
    Except RelocationError (Option RelocationError × Disk) :=
  match disk.rename? origin target with
  | some renamed => .ok (none, renamed)
  | none =>
    match disk.copy origin target with
    | .error problem => .error (.move origin target problem)
    | .ok copied =>
      match copied.removeFile origin with
      -- The content has landed all the same: the move is done but incomplete.
      | .error problem => .ok (some (.remove origin problem), copied)
      | .ok moved => .ok (none, moved)

def siblingName (carrier : Carrier) (path : Path) (label : String) (number : Nat) : String :=
  let counter := if number = 0 then "" else "_" ++ toString number
  let ending := match path.extension? with
    | some extension => "." ++ extension
    | none => ""
  path.stem?.getD "" ++ "." ++ label ++ "." ++ carrier.stamp ++ counter ++ ending

def siblingAt (carrier : Carrier) (path : Path) (label : String) (number : Nat) : Path :=
  (path.parent?.getD ⟨"."⟩).join ⟨carrier.siblingName path label number⟩

def freeNumber (carrier : Carrier) (disk : Disk) (path : Path) (label : String) :
    Nat -> Nat -> Nat
  | 0, number => number
  | more + 1, number =>
    if disk.isThere (carrier.siblingAt path label number) then
      carrier.freeNumber disk path label more (number + 1)
    else number

/-- A path beside `path` where nothing is. One number more than there are nodes is enough to find
it. -/
def sibling (carrier : Carrier) (disk : Disk) (path : Path) (label : String) : Path :=
  carrier.siblingAt path label
    (carrier.freeNumber disk path label (disk.nodes.length + 1) 0)

def markExecutable (carrier : Carrier) (disk : Disk) (path : Path) :
    Except RelocationError Disk :=
  let asked := match path.extension? with
    | some extension => carrier.executableExtensions.contains extension
    | none => false
  if asked then
    match disk.setMode path Disk.executableMode with
    | .ok marked => .ok marked
    | .error problem => .error (.permissions path problem)
  else .ok disk

def finish (carrier : Carrier) (site : Site) (decision : Decision) (source landed : Path)
    (backup : Option Path) (incomplete : Option RelocationError) : Executed × Site :=
  let mark := decision = .move || decision = .updateNewer
  let (failed, disk) :=
    if mark then
      match carrier.markExecutable site.disk landed with
      | .ok marked => (none, marked)
      | .error error => (some error, site.disk)
    else (none, site.disk)
  let (entry, done) :=
    { site with disk := disk }.record (.relocate decision) source (some landed) backup
  -- Of two failures the earlier one is told.
  (⟨entry, incomplete.or failed⟩, done)

def executeMove (carrier : Carrier) (site : Site) (source destination : Path) :
    Except RelocationError Executed × Site :=
  match ensureParent site.disk destination with
  | (.error error, disk) => (.error error, { site with disk := disk })
  | (.ok (), disk) =>
    match moveFile disk source destination with
    | .error error => (.error error, { site with disk := disk })
    | .ok (incomplete, moved) =>
      let (executed, done) := carrier.finish { site with disk := moved } .move source destination
        none incomplete
      (.ok executed, done)

def executeUpdate (carrier : Carrier) (site : Site) (source destination : Path) :
    Except RelocationError Executed × Site :=
  let kept := carrier.sibling site.disk destination "backup"
  match site.disk.copy destination kept with
  | .error problem => (.error (.backup destination kept problem), site)
  | .ok copied =>
    match moveFile copied source destination with
    | .error error =>
      -- The copy stays where it is, so it gets an entry of its own.
      (.error error, ({ site with disk := copied }.record .backup destination (some kept) none).2)
    | .ok (incomplete, moved) =>
      let (executed, done) := carrier.finish { site with disk := moved } .updateNewer source
        destination (some kept) incomplete
      (.ok executed, done)

def executeDrop (carrier : Carrier) (site : Site) (decision : Decision)
    (source destination : Path) : Except RelocationError Executed × Site :=
  match site.disk.removeFile source with
  | .error problem => (.error (.remove source problem), site)
  | .ok removed =>
    let (executed, done) := carrier.finish { site with disk := removed } decision source
      destination none none
    (.ok executed, done)

def executeConflict (carrier : Carrier) (site : Site) (source destination : Path) :
    Except RelocationError Executed × Site :=
  match ensureParent site.disk destination with
  | (.error error, disk) => (.error error, { site with disk := disk })
  | (.ok (), disk) =>
    let aside := carrier.sibling disk destination "conflict"
    match moveFile disk source aside with
    | .error error => (.error error, { site with disk := disk })
    | .ok (incomplete, moved) =>
      let (executed, done) := carrier.finish { site with disk := moved } .conflict source aside
        none incomplete
      (.ok executed, done)

/-- Carry out a decision. An error means that the content did not land. -/
def execute (carrier : Carrier) (site : Site) (decision : Decision) (source destination : Path) :
    Except RelocationError Executed × Site :=
  if source.same destination then (.error (.samePath source), site)
  else
    match decision with
    | .move => carrier.executeMove site source destination
    | .updateNewer => carrier.executeUpdate site source destination
    | .skipOlder => carrier.executeDrop site .skipOlder source destination
    | .identical => carrier.executeDrop site .identical source destination
    | .conflict => carrier.executeConflict site source destination

end Carrier

end Stowage

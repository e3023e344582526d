import Stowage.Relocation.Decision

set_option autoImplicit false

namespace Stowage

inductive Action
  | createDir
  | relocate (decision : Decision)
  | rewriteImports
  | backup
  deriving DecidableEq, Repr

def Action.label : Action -> String
  | createDir => "create_dir"
  | relocate decision => decision.label
  | rewriteImports => "rewrite_imports"
  | backup => "backup"

structure LedgerEntry where
  action : Action
  source : Path
  destination : Option Path
  backup : Option Path
  time : Instant
  deriving Repr

def LedgerEntry.toJson (entry : LedgerEntry) : Json :=
  .object
    ([("action", .text entry.action.label), ("source", .text entry.source.text)] ++
      Json.optionalField "destination" (fun path => .text path.text) entry.destination ++
      Json.optionalField "backup" (fun path => .text path.text) entry.backup ++
      [("timestamp", .text entry.time.text)])

abbrev Ledger := List LedgerEntry

namespace Ledger

def count (ledger : Ledger) (action : Action) : Nat :=
  ledger.countP fun entry => entry.action = action

end Ledger

end Stowage

import Stowage.Json.Basic
import Stowage.Path.Basic

set_option autoImplicit false

namespace Stowage

inductive IssueKind
  | readError
  | missingTarget
  | relocationConflict
  | executionError
  | toolFailure
  deriving DecidableEq, Repr

def IssueKind.label : IssueKind -> String
  | readError => "read_error"
  | missingTarget => "missing_target"
  | relocationConflict => "relocation_conflict"
  | executionError => "execution_error"
  | toolFailure => "external_tool_failure"

structure Issue where
  kind : IssueKind
  file : Path
  line : Option Nat
  message : String
  deriving Repr

def Issue.toJson (issue : Issue) : Json :=
  .object
    ([("kind", .text issue.kind.label), ("file", .text issue.file.text)] ++
      Json.optionalField "line" .count issue.line ++ [("message", .text issue.message)])

inductive Note
  | info (text : String)
  | warning (text : String)
  deriving DecidableEq, Repr

def Note.line? (verbose : Bool) : Note -> Option String
  | info text => if verbose then some ("info: " ++ text) else none
  | warning text => some ("warn: " ++ text)

end Stowage

import Stowage.Relocation.Ledger
import Stowage.Text.Utf8

set_option autoImplicit false

namespace Stowage

abbrev Call := List String

structure ToolReply where
  stdout : ByteArray
  stderr : ByteArray
  code : Nat

abbrev Toolbox := Call -> Option ToolReply

inductive ToolStatus
  | passed
  | failed
  | skipped
  deriving DecidableEq, Repr

def ToolStatus.label : ToolStatus -> String
  | passed => "passed"
  | failed => "failed"
  | skipped => "skipped"

structure ToolOutcome where
  tool : String
  status : ToolStatus
  detail : Option String
  deriving Repr

namespace ToolOutcome

def toJson (outcome : ToolOutcome) : Json :=
  .object
    ([("tool", .text outcome.tool), ("status", .text outcome.status.label)] ++
      Json.optionalField "detail" .text outcome.detail)

def issue? (outcome : ToolOutcome) (root : Path) : Option Issue :=
  if outcome.status = .failed then
    let message := match outcome.detail with
      | some detail => outcome.tool ++ " failed: " ++ detail
      | none => outcome.tool ++ " failed"
    some ⟨.toolFailure, root, none, message⟩
  else none

end ToolOutcome

structure ToolOutcomes where
  typecheck : Option ToolOutcome
  commit : Option ToolOutcome

namespace ToolOutcomes

def none : ToolOutcomes := ⟨.none, .none⟩

def toJson (outcomes : ToolOutcomes) : Json :=
  .object
    (Json.optionalField "typecheck" ToolOutcome.toJson outcomes.typecheck ++
      Json.optionalField "commit" ToolOutcome.toJson outcomes.commit)

def issues (outcomes : ToolOutcomes) (root : Path) : List Issue :=
  (outcomes.typecheck.toList ++ outcomes.commit.toList).filterMap fun outcome =>
    outcome.issue? root

end ToolOutcomes

namespace Tools

def detailLines : Nat := 20

def complaint (reply : ToolReply) : String :=
  let stderr := Text.trim (Text.decodeLossy reply.stderr)
  let stdout := Text.trim (Text.decodeLossy reply.stdout)
  let text := if stderr = [] then stdout else stderr
  "\n".intercalate (((Text.lines text).take detailLines).map String.ofList)

def missingProgram (call : Call) : String :=
  "Failed to run " ++ " ".intercalate call ++ ": " ++ DiskError.notFound.message

def typecheckCall : Call := ["npx", "tsc", "--noEmit"]

def typecheck (toolbox : Toolbox) : ToolOutcome :=
  match toolbox typecheckCall with
  | none => ⟨"tsc", .failed, some (missingProgram typecheckCall)⟩
  | some reply =>
    if reply.code = 0 then ⟨"tsc", .passed, none⟩ else ⟨"tsc", .failed, some (complaint reply)⟩

def listedChanges : Nat := 10

def actionWord : Action -> String
  | .createDir => "mkdir"
  | .relocate .move => "move"
  | .relocate .updateNewer => "update"
  | .relocate .skipOlder => "skip"
  | .relocate .identical => "identical"
  | .relocate .conflict => "conflict"
  | .rewriteImports => "imports"
  | .backup => "backup"

def changeLine (entry : LedgerEntry) : String :=
  let change := match entry.destination with
    | some destination => entry.source.fileName ++ " -> " ++ destination.fileName
    | none => entry.source.fileName
  "- " ++ actionWord entry.action ++ ": " ++ change ++ "\n"

def plainMoves (ledger : Ledger) (extensionFixes : Nat) : Nat :=
  ledger.count (.relocate .move) - extensionFixes

def commitMessage (ledger : Ledger) (extensionFixes : Nat) : String :=
  if ledger.isEmpty then "tree-tidy: no changes"
  else
    let skips := ledger.count (.relocate .skipOlder)
    "tree-tidy: " ++ toString (plainMoves ledger extensionFixes) ++ " moves, " ++
      toString (ledger.count (.relocate .updateNewer)) ++ " updates, " ++
      toString extensionFixes ++ " extensions\n\n" ++
      (if 0 < skips then toString skips ++ " files skipped (destination newer)\n\n" else "") ++
      "Changes:\n" ++
      String.join ((ledger.take listedChanges).map changeLine) ++
      (if listedChanges < ledger.length then
        "- ... and " ++ toString (ledger.length - listedChanges) ++ " more\n"
      else "")

def addCall : Call := ["git", "add", "-A"]

def commitCall (message : String) : Call := ["git", "commit", "-m", message]

def runAll (toolbox : Toolbox) : List Call -> Option String × List Call
  | [] => (none, [])
  | call :: rest =>
    match toolbox call with
    | none => (some (missingProgram call), [])
    | some reply =>
      if reply.code = 0 then
        let (failure, calls) := runAll toolbox rest
        (failure, call :: calls)
      else
        (some ("git " ++ (call.drop 1).headD "" ++ " failed: " ++ complaint reply), [call])

def commitBlock (ledger : Ledger) : Option String :=
  let conflicts := ledger.count (.relocate .conflict)
  if 0 < conflicts then some (toString conflicts ++ " conflicts need manual resolution")
  else if ledger.isEmpty then some "no changes"
  else none

/-- Stage everything and commit it, unless nothing changed or a conflict is left. -/
def commit (toolbox : Toolbox) (ledger : Ledger) (extensionFixes : Nat) :
    ToolOutcome × List Call :=
  match commitBlock ledger with
  | some reason => (⟨"git", .skipped, some reason⟩, [])
  | none =>
    match runAll toolbox [addCall, commitCall (commitMessage ledger extensionFixes)] with
    | (none, calls) => (⟨"git", .passed, none⟩, calls)
    | (some failure, calls) => (⟨"git", .failed, some failure⟩, calls)

end Tools

end Stowage

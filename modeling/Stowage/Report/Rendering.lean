import Stowage.Report.Basic
import Stowage.Number.Decimal

set_option autoImplicit false

namespace Stowage.Report

def part (title : String) (lines : List String) : List String :=
  if lines = [] then [] else "" :: title :: lines

def correctionLine (report : Report) (issue : ExtensionIssue) : String :=
  "  " ++ report.display issue.file ++ ": ." ++ issue.current ++ " -> ." ++ issue.suggested ++
    " (" ++ issue.confidence.onePlace ++ ", " ++ issue.reason ++ ")"

def missingLine (report : Report) (missing : MissingImport) : String :=
  "  " ++ report.display missing.file ++ ":" ++ toString missing.line ++ " '" ++
    missing.specifier ++ "'"

def conflictLine (report : Report) (conflict : ConflictEntry) : String :=
  let pair :=
    "  " ++ report.display conflict.source ++ " vs " ++ report.display conflict.destination
  match conflict.quarantine with
  | some aside => pair ++ " (kept as " ++ report.display aside ++ ")"
  | none => pair

def namingLine (report : Report) (issue : NamingIssue) : String :=
  "  " ++ report.display issue.file ++ ": " ++ issue.message

def issueLine (report : Report) (issue : Issue) : String :=
  "  " ++ report.display issue.file ++ ": " ++ issue.message

def isFailure (issue : Issue) : Bool :=
  issue.kind = .readError || issue.kind = .executionError || issue.kind = .toolFailure

def countLines (report : Report) : List String :=
  let s := report.summary
  let decisions := Decision.all.map fun decision =>
    toString (s.decisions.get decision) ++ " " ++ decision.label
  ["Organize report" ++ (if report.dryRun then " (dry run)" else ""),
    "  files: " ++ toString s.totalFiles ++ " scanned (" ++ toString s.stagedFiles ++
      " staged, " ++ toString s.sourceFiles ++ " in source)",
    "  extension issues: " ++ toString s.filesWithExtensionIssues ++ " (" ++
      toString s.acceptedCorrections ++ " accepted)",
    "  relocations: " ++ ", ".intercalate decisions,
    "  broken imports: " ++ toString s.brokenImports,
    "  conflicts: " ++ toString s.conflicts]

def summaryLines (report : Report) : List String :=
  countLines report ++
    part "Accepted corrections:" (report.acceptedCorrections.map (correctionLine report)) ++
    part "Broken imports:" (report.missingImports.map (missingLine report)) ++
    part "Conflicts needing manual review:" (report.conflicts.map (conflictLine report)) ++
    part "Naming issues:" (report.namingIssues.map (namingLine report)) ++
    part "Errors:" ((report.issues.filter isFailure).map (issueLine report))

def summaryText (report : Report) : String :=
  String.join ((summaryLines report).map (· ++ "\n"))

end Stowage.Report

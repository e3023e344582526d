import Stowage.Report.Basic

set_option autoImplicit false

namespace Stowage

def pathJson (path : Path) : Json := .text path.text

def ExtensionIssue.toJson (issue : ExtensionIssue) : Json :=
  .object
    [("file", pathJson issue.file), ("current", .text issue.current),
      ("suggested", .text issue.suggested), ("reason", .text issue.reason),
      ("confidence", .decimal issue.confidence), ("accepted", .bool issue.accepted)]

def MissingImport.toJson (missing : MissingImport) : Json :=
  .object
    ([("file", pathJson missing.file), ("line", .count missing.line),
        ("specifier", .text missing.specifier), ("strategy", .text missing.strategy.label)] ++
      Json.optionalField "candidate" pathJson missing.candidate)

def ConflictEntry.toJson (conflict : ConflictEntry) : Json :=
  .object
    ([("source", pathJson conflict.source), ("destination", pathJson conflict.destination)] ++
      Json.optionalField "quarantine" pathJson conflict.quarantine)

def NamingIssue.toJson (issue : NamingIssue) : Json :=
  .object [("file", pathJson issue.file), ("message", .text issue.message)]

def DecisionCounts.toJson (counts : DecisionCounts) : Json :=
  .object
    [("move", .count counts.moved), ("updateNewer", .count counts.updateNewer),
      ("skipOlder", .count counts.skipOlder), ("identical", .count counts.identical),
      ("conflict", .count counts.conflict)]

def Summary.toJson (summary : Summary) : Json :=
  .object
    [("totalFiles", .count summary.totalFiles),
      ("filesWithExtensionIssues", .count summary.filesWithExtensionIssues),
      ("stagedFiles", .count summary.stagedFiles),
      ("sourceFiles", .count summary.sourceFiles),
      ("brokenImports", .count summary.brokenImports),
      ("acceptedCorrections", .count summary.acceptedCorrections),
      ("conflicts", .count summary.conflicts),
      ("decisions", summary.decisions.toJson)]

def Report.toJson (report : Report) : Json :=
  .object
    [("timestamp", .text report.time.text),
      ("rootDir", pathJson report.root),
      ("dryRun", .bool report.dryRun),
      ("summary", report.summary.toJson),
      ("extensionIssues", .array (report.extensionIssues.map ExtensionIssue.toJson)),
      ("destinationSuggestions",
        .object (report.suggestions.map fun row => (row.1, pathJson row.2))),
      ("relocations", .array (report.relocations.map Plan.toJson)),
      ("missingImports", .array (report.missingImports.map MissingImport.toJson)),
      ("conflicts", .array (report.conflicts.map ConflictEntry.toJson)),
      ("acceptedCorrections", .array (report.acceptedCorrections.map ExtensionIssue.toJson)),
      ("namingIssues", .array (report.namingIssues.map NamingIssue.toJson)),
      ("issues", .array (report.issues.map Issue.toJson)),
      ("external", report.outcomes.toJson),
      ("changeLog", .array (report.ledger.map LedgerEntry.toJson))]

end Stowage

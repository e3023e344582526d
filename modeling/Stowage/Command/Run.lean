import Stowage.Command.Arguments
import Stowage.LayoutFile
import Stowage.Report.Encoding
import Stowage.Report.Rendering
import Stowage.Run

set_option autoImplicit false

namespace Stowage

structure Surroundings where
  disk : Disk
  toolbox : Toolbox
  stamp : String

structure Failure where
  outer : String
  causes : List String

namespace Failure

def numberedCauses : Nat -> List String -> List String
  | _, [] => []
  | number, cause :: rest =>
    ("    " ++ toString number ++ ": " ++ cause) :: numberedCauses (number + 1) rest

def lines (failure : Failure) : List String :=
  let head := "Error: " ++ failure.outer
  match failure.causes with
  | [] => [head]
  | [cause] => [head, "", "Caused by:", "    " ++ cause]
  | causes => [head, "", "Caused by:"] ++ numberedCauses 0 causes

def ofBadPattern (bad : BadPattern) : Failure := ⟨bad.context, [bad.problem.message]⟩

def ofLayoutFile (error : Layout.FileError) : Failure := ⟨error.chain.1, [error.chain.2]⟩

def ofProject (error : ProjectError) : Failure := ⟨error.chain.1, error.chain.2.toList⟩

def noConfirmation : Failure :=
  ⟨"Failed to read confirmation", ["IO error: not a terminal", "not a terminal"]⟩

def noReport (path : Path) (problem : DiskError) : Failure :=
  ⟨"Failed to write report to " ++ path.text, [problem.message]⟩

end Failure

structure Transcript where
  disk : Disk
  out : List String
  err : List String
  calls : List Call

namespace Transcript

def start (disk : Disk) : Transcript := ⟨disk, [], [], []⟩

def print (transcript : Transcript) (lines : List String) : Transcript :=
  { transcript with out := transcript.out ++ lines }

def warn (transcript : Transcript) (lines : List String) : Transcript :=
  { transcript with err := transcript.err ++ lines }

def tell (transcript : Transcript) (verbose : Bool) (notes : List Note) : Transcript :=
  transcript.warn (notes.filterMap (Note.line? verbose))

end Transcript

abbrev Ending := Transcript × Option Failure

structure Exit where
  code : Nat
  out : String
  err : String
  calls : List Call
  disk : Disk

namespace Surroundings

def loadLayout (d : Disk) (root : Path) (config : Option Path)
    (mappings : List (String × String)) : Except Failure (Layout × List Note) :=
  match config with
  | some path =>
    match Layout.ofFile d path with
    | .error error => .error (.ofLayoutFile error)
    | .ok layout => .ok (layout.withDestinations mappings, [])
  | none =>
    let (layout, notes) := Layout.ofRoot d root
    .ok (layout.withDestinations mappings, notes)

def enterProject (transcript : Transcript) (root : Path) (config : Option Path)
    (mappings : List (String × String)) (excludes : Excludes) :
    Transcript × Except Failure Project :=
  match loadLayout transcript.disk root config mappings with
  | .error failure => (transcript, .error failure)
  | .ok (layout, notes) =>
    let told := transcript.tell false notes
    match Project.enter told.disk root layout excludes with
    | .error error => (told, .error (.ofProject error))
    | .ok project => (told, .ok project)

def alignRight (width : Nat) (text : String) : String :=
  String.ofList (List.replicate (width - text.length) ' ') ++ text

def alignLeft (width : Nat) (text : String) : String :=
  text ++ String.ofList (List.replicate (width - text.length) ' ')

def planLine (root : Path) (plan : Plan) : String :=
  "  " ++ alignRight 12 plan.decision.label ++ " " ++ (root.seenFrom plan.source).text ++
    " -> " ++ (root.seenFrom plan.destination).text

def planLines (root : Path) (survey : Survey) : List String :=
  if survey.plans.isEmpty then ["info: No relocations planned"]
  else survey.plans.map (planLine root)

def toolLines (name : String) (outcome : ToolOutcome) : List String :=
  match outcome.status with
  | .passed => ["ok: " ++ name ++ " passed"]
  | .failed => ["error: " ++ name ++ " failed"]
  | .skipped => []

def skippedLines (outcome : ToolOutcome) : List String :=
  match outcome.status, outcome.detail with
  | .skipped, some detail => ["warn: Commit skipped: " ++ detail]
  | _, _ => []

def runTypecheck (surroundings : Surroundings) (transcript : Transcript) (asked : Bool) :
    Option ToolOutcome × Transcript :=
  if !asked then (none, transcript)
  else
    let outcome := Tools.typecheck surroundings.toolbox
    let called := match surroundings.toolbox Tools.typecheckCall with
      | some _ => [Tools.typecheckCall]
      | none => []
    let told := transcript.warn (toolLines "Type check" outcome)
    (some outcome, { told with calls := told.calls ++ called })

def runCommit (surroundings : Surroundings) (transcript : Transcript) (asked : Bool)
    (ledger : Ledger) (extensionFixes : Nat) : Option ToolOutcome × Transcript :=
  if !asked then (none, transcript)
  else
    let (outcome, calls) := Tools.commit surroundings.toolbox ledger extensionFixes
    let told := transcript.warn (toolLines "Commit" outcome ++ skippedLines outcome)
    (some outcome, { told with calls := told.calls ++ calls })

def proceed (surroundings : Surroundings) (options : OrganizeOptions) (project : Project)
    (survey : Survey) (transcript : Transcript) : Report × Transcript :=
  let carrier := project.carrier surroundings.stamp
  let (execution, site) := project.execute carrier survey ⟨transcript.disk, []⟩
  let moved := { transcript with disk := site.disk }.tell options.verbose execution.notes
  let (typecheck, checked) := runTypecheck surroundings moved options.typecheck
  let (commit, committed) :=
    runCommit surroundings checked options.commit site.ledger execution.extensionFixes
  let report := Report.build committed.disk.now project.root project.layout survey
    (some execution) site.ledger ⟨typecheck, commit⟩
  (report, committed)

def saveReport (transcript : Transcript) (report : Report) (output : Option Path) :
    Transcript × Option Failure :=
  match output with
  | none => (transcript, none)
  | some path =>
    match transcript.disk.write path report.toJson.print.toUTF8 with
    | .error problem => (transcript, some (.noReport path problem))
    | .ok written =>
      ({ transcript with disk := written }.warn ["ok: Report written to " ++ path.text], none)

def summaryLines (report : Report) : List String :=
  let s := report.summary
  report.summaryLines ++
    (if 0 < s.conflicts then
      ["", "warn: " ++ toString s.conflicts ++ " conflict(s) need manual review"]
    else if s.brokenImports = 0 then ["", "ok: No conflicts or broken imports"]
    else [])

def reportLines (options : OrganizeOptions) (report : Report) : List String :=
  if options.json then [report.toJson.print]
  else
    summaryLines report ++
      (if options.dryRun then ["", "hint: Run without --dry-run to apply changes"] else [])

def finishOrganize (options : OrganizeOptions) (report : Report) (transcript : Transcript) :
    Ending :=
  match saveReport transcript report options.output with
  | (saved, some failure) => (saved, some failure)
  | (saved, none) => (saved.print (reportLines options report), none)

def organize (surroundings : Surroundings) (options : OrganizeOptions) : Ending :=
  let start := Transcript.start surroundings.disk
  match Excludes.read options.exclude (!options.noDefaultExcludes) with
  | .error bad => (start, some (.ofBadPattern bad))
  | .ok excludes =>
    match enterProject start options.root options.config options.mappings excludes with
    | (told, .error failure) => (told, some failure)
    | (told, .ok project) =>
      let survey := project.survey told.disk
      let surveyed := told.tell options.verbose survey.notes
      if options.dryRun then
        finishOrganize options (project.dryReport surveyed.disk survey) surveyed
      else if options.interactive then
        (surveyed.print (planLines project.root survey), some .noConfirmation)
      else
        let (report, done) := proceed surroundings options project survey surveyed
        finishOrganize options report done

def brokenLines (report : Report) : List String :=
  ["", "Found " ++ toString report.missingImports.length ++ " broken import(s):", ""] ++
    report.missingImports.map (fun missing =>
      "  " ++ report.display missing.file ++ ":" ++ toString missing.line ++ " " ++
        missing.specifier) ++
    report.namingIssues.map fun naming =>
      "  " ++ report.display naming.file ++ " " ++ naming.message

def validationLines (json : Bool) (report : Report) : List String :=
  if json then
    [(Json.array (report.missingImports.map MissingImport.toJson)).print]
  else if report.missingImports.isEmpty then
    ["ok: All imports resolve (" ++ toString report.summary.sourceFiles ++ " source files)"]
  else brokenLines report

def validate (surroundings : Surroundings) (options : ValidateOptions) : Ending :=
  let start := Transcript.start surroundings.disk
  match Excludes.read options.exclude (!options.noDefaultExcludes) with
  | .error bad => (start, some (.ofBadPattern bad))
  | .ok excludes =>
    match enterProject start options.root options.config [] excludes with
    | (told, .error failure) => (told, some failure)
    | (told, .ok project) =>
      let survey := project.survey told.disk
      let report := project.dryReport told.disk survey
      ((told.tell false survey.notes).print (validationLines options.json report), none)

def destinationLine (width : Nat) (name : String) (path : Path) : String :=
  "  " ++ alignLeft width name ++ " -> " ++ path.text

def layoutLines (layout : Layout) : List String :=
  let width := (layout.destinations.map fun row => row.1.utf8ByteSize).foldl max 0
  ["Staging: " ++ layout.stagingDir.text, "Source: " ++ layout.sourceDir.text, "",
    "Required directories:"] ++
    layout.requiredDirs.map (fun dir => "  " ++ dir.text) ++
    ["", "Destinations:"] ++
    layout.destinations.map (fun row => destinationLine width row.1 row.2) ++
    [destinationLine width "(other)" (layout.fallbackDir.join ⟨"<name>"⟩)]

def showLayout (surroundings : Surroundings) (options : LayoutOptions) : Ending :=
  let start := Transcript.start surroundings.disk
  match loadLayout start.disk Command.currentRoot options.config options.mappings with
  | .error failure => (start, some failure)
  | .ok (layout, notes) => ((start.tell false notes).print (layoutLines layout), none)

def scannedFiles (d : Disk) (layout : Layout) (excludes : Excludes) (root : Path) : List Path :=
  Inventory.stagedFiles d layout excludes root ++ Inventory.placedFiles d layout excludes root

def scanNotes (d : Disk) (layout : Layout) (excludes : Excludes) (root : Path) : List Note :=
  let sightings :=
    d.explore excludes (root.join layout.stagingDir) ++
      d.explore excludes (root.join layout.sourceDir)
  (sightings.filterMap Inventory.closedGap?).map Gap.note

def scanLines (root : Path) (files : List Path) : List String :=
  ("Would scan " ++ toString files.length ++ " files:") ::
    files.map fun file => "  " ++ (root.seenFrom file).text

def scan (surroundings : Surroundings) (options : ScanOptions) : Ending :=
  let start := Transcript.start surroundings.disk
  match Excludes.read options.exclude (!options.noDefaultExcludes) with
  | .error bad => (start, some (.ofBadPattern bad))
  | .ok excludes =>
    match loadLayout start.disk options.root options.config [] with
    | .error failure => (start, some failure)
    | .ok (layout, notes) =>
      let told := (start.tell false notes).tell false
        (scanNotes start.disk layout excludes options.root)
      let files := scannedFiles start.disk layout excludes options.root
      (told.print (scanLines options.root files), none)

def run (surroundings : Surroundings) : Command -> Ending
  | .organize options => organize surroundings options
  | .validate options => validate surroundings options
  | .layout options => showLayout surroundings options
  | .scan options => scan surroundings options

def versionText : String := "tree-tidy 0.1.0"

def joinLines (lines : List String) : String := String.join (lines.map (· ++ "\n"))

def refuse (disk : Disk) (fault : Arguments.Fault) : Exit :=
  match fault with
  | .versionWanted => ⟨0, versionText ++ "\n", "", [], disk⟩
  | .helpWanted => ⟨0, "", "", [], disk⟩
  | _ => ⟨2, "", "", [], disk⟩

def runLine (surroundings : Surroundings) (arguments : List String) : Exit :=
  match Command.read arguments with
  | .error fault => refuse surroundings.disk fault
  | .ok command =>
    match run surroundings command with
    | (transcript, none) =>
      ⟨0, joinLines transcript.out, joinLines transcript.err, transcript.calls,
        transcript.disk⟩
    | (transcript, some failure) =>
      ⟨1, joinLines transcript.out, joinLines (transcript.err ++ failure.lines),
        transcript.calls, transcript.disk⟩

end Surroundings

end Stowage

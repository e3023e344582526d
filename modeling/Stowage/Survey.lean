import Stowage.Relocation.Decision
import Stowage.Specifier.Basic

set_option autoImplicit false

namespace Stowage

structure Project where
  root : Path
  layout : Layout
  excludes : Excludes

inductive ProjectError
  | noAccess (root : Path) (problem : DiskError)
  | notDirectory (root : Path)

def ProjectError.chain : ProjectError -> String × Option String
  | noAccess root problem =>
    ("Cannot access project root " ++ root.text, some problem.message)
  | notDirectory root => ("Project root " ++ root.text ++ " is not a directory", none)

def ProjectError.message (error : ProjectError) : String :=
  match error.chain with
  | (outer, none) => outer
  | (outer, some inner) => outer ++ ": " ++ inner

structure Survey where
  records : List FileRecord
  edges : List Edge
  missing : List Edge
  plans : List Plan
  suggestions : Table String Path
  issues : List Issue
  notes : List Note

namespace Survey

def record? (survey : Survey) (path : Path) : Option FileRecord :=
  survey.records.find? fun record => record.path.same path

def count (survey : Survey) (decision : Decision) : Nat :=
  survey.plans.countP fun plan => plan.decision = decision

end Survey

namespace Project

def enter (d : Disk) (root : Path) (layout : Layout) (excludes : Excludes) :
    Except ProjectError Project :=
  match d.canonical root with
  | .error problem => .error (.noAccess root problem)
  | .ok place =>
    if d.isFolder place then .ok ⟨place, layout, excludes⟩ else .error (.notDirectory place)

def anchors (project : Project) : Anchors := .ofLayout project.root project.layout

def brokenIssue (edge : Edge) : Issue :=
  ⟨.missingTarget, edge.file, some edge.line, "cannot resolve '" ++ edge.raw ++ "'"⟩

def isPlaced (records : List FileRecord) (path : Path) : Bool :=
  records.any fun record => record.path.same path && record.standing = .inPlace

def sourceEdges (project : Project) (d : Disk) (source : Path × String) : List Edge :=
  project.anchors.edges d.isFile source.1 (Import.list source.2)

def missingEdges (project : Project) (d : Disk) (inventory : Inventory) : List Edge :=
  (inventory.sources.filter fun source => isPlaced inventory.records source.1).flatMap fun source =>
    (project.sourceEdges d source).filter Edge.isBroken

structure Finding where
  suggestion : Option (String × Path)
  plan : Option Plan
  issue : Option Issue

def cannotCompare (record : FileRecord) (destination : Path) (problem : DiskError) : Issue :=
  ⟨.readError, destination, none,
    "cannot compare with " ++ record.path.text ++ ": " ++ problem.message⟩

def finding (project : Project) (d : Disk) (record : FileRecord) : Finding :=
  match destinationOf project.root project.layout record with
  | none => ⟨none, none, none⟩
  | some (destination, reason) =>
    let suggestion :=
      if record.standing = .staged then
        (project.root.below? destination).map fun below => (record.fileName, below)
      else none
    -- A file that is where it belongs, however that is spelled, needs no plan.
    if destination.same record.path then ⟨suggestion, none, none⟩
    else
      match Decision.of d record destination with
      | .ok decision => ⟨suggestion, some ⟨record.path, destination, decision, reason⟩, none⟩
      | .error problem => ⟨suggestion, none, some (cannotCompare record destination problem)⟩

def survey (project : Project) (d : Disk) : Survey :=
  let inventory := Inventory.take d project.layout project.excludes project.root
  let missing := project.missingEdges d inventory
  let findings := inventory.records.map (project.finding d)
  let plans := findings.filterMap Finding.plan
  { records := inventory.records
    edges := inventory.sources.flatMap (project.sourceEdges d)
    missing := missing
    plans := plans
    suggestions := Table.ofList nameOrder (findings.filterMap Finding.suggestion)
    issues :=
      inventory.gaps.map Gap.issue ++ missing.map brokenIssue ++
        findings.filterMap Finding.issue
    notes :=
      inventory.gaps.map Gap.note ++
        [.info ("Scanned " ++ toString inventory.records.length ++ " files (" ++
            toString inventory.sources.length ++ " readable sources)"),
          .info ("Planned " ++ toString plans.length ++ " relocations, " ++
            toString missing.length ++ " broken imports")] }

end Project

end Stowage

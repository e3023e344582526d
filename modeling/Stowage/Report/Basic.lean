import Stowage.Execution
import Stowage.Text.Lowercase
import Stowage.Tools

set_option autoImplicit false

namespace Stowage

structure ExtensionIssue where
  file : Path
  current : String
  suggested : String
  reason : String
  confidence : Binary64
  accepted : Bool
  deriving Repr

structure MissingImport where
  file : Path
  line : Nat
  specifier : String
  strategy : Strategy
  candidate : Option Path
  deriving Repr

structure ConflictEntry where
  source : Path
  destination : Path
  quarantine : Option Path
  deriving Repr

structure NamingIssue where
  file : Path
  message : String
  deriving Repr

structure DecisionCounts where
  moved : Nat := 0
  updateNewer : Nat := 0
  skipOlder : Nat := 0
  identical : Nat := 0
  conflict : Nat := 0
  deriving DecidableEq, Repr

namespace DecisionCounts

def slot (counts : DecisionCounts) (decision : Decision) (change : Nat -> Nat) : DecisionCounts :=
  match decision with
  | .move => { counts with moved := change counts.moved }
  | .updateNewer => { counts with updateNewer := change counts.updateNewer }
  | .skipOlder => { counts with skipOlder := change counts.skipOlder }
  | .identical => { counts with identical := change counts.identical }
  | .conflict => { counts with conflict := change counts.conflict }

def get (counts : DecisionCounts) (decision : Decision) : Nat :=
  match decision with
  | .move => counts.moved
  | .updateNewer => counts.updateNewer
  | .skipOlder => counts.skipOlder
  | .identical => counts.identical
  | .conflict => counts.conflict

def tally (decisions : List Decision) : DecisionCounts :=
  decisions.foldl (fun counts decision => counts.slot decision (· + 1)) {}

theorem get_slot_self (counts : DecisionCounts) (decision : Decision) (change : Nat -> Nat) :
    (counts.slot decision change).get decision = change (counts.get decision) := by
  cases decision <;> rfl

theorem get_slot_other (counts : DecisionCounts) {decision other : Decision} (differs : other ≠ decision)
    (change : Nat -> Nat) : (counts.slot decision change).get other = counts.get other := by
  cases decision <;> cases other <;> first | rfl | exact absurd rfl differs

theorem get_foldl_slot (counts : DecisionCounts) (decisions : List Decision) (decision : Decision) :
    (decisions.foldl (fun counts decision => counts.slot decision (· + 1)) counts).get decision =
      counts.get decision + decisions.count decision := by
  induction decisions generalizing counts with
  | nil => rfl
  | cons first rest ih =>
    rw [List.foldl_cons, ih]
    by_cases same : first = decision
    · rw [same, get_slot_self, List.count_cons_self]
      omega
    · rw [get_slot_other counts (Ne.symm same), List.count_cons_of_ne same]

theorem get_tally (decisions : List Decision) (decision : Decision) :
    (tally decisions).get decision = decisions.count decision := by
  have none : DecisionCounts.get {} decision = 0 := by cases decision <;> rfl
  rw [tally, get_foldl_slot, none, Nat.zero_add]

end DecisionCounts

structure Summary where
  totalFiles : Nat
  filesWithExtensionIssues : Nat
  stagedFiles : Nat
  sourceFiles : Nat
  brokenImports : Nat
  acceptedCorrections : Nat
  conflicts : Nat
  decisions : DecisionCounts
  deriving DecidableEq, Repr

structure Report where
  time : Instant
  root : Path
  dryRun : Bool
  summary : Summary
  extensionIssues : List ExtensionIssue
  suggestions : Table String Path
  relocations : List Plan
  missingImports : List MissingImport
  conflicts : List ConflictEntry
  acceptedCorrections : List ExtensionIssue
  namingIssues : List NamingIssue
  issues : List Issue
  outcomes : ToolOutcomes
  ledger : Ledger

namespace Report

def extensionIssue (threshold : Binary64) (record : FileRecord) : ExtensionIssue where
  file := record.path
  current := record.classification.current
  suggested := record.classification.suggested
  reason := record.classification.reason
  confidence := record.classification.confidence
  accepted := record.classification.isAccepted threshold

def missingImport (edge : Edge) : MissingImport :=
  ⟨edge.file, edge.line, edge.raw, edge.strategy, edge.candidate⟩

def componentExtensions : List String := ["tsx", "jsx"]

def isMisnamed (record : FileRecord) : Bool :=
  record.standing = .inPlace && componentExtensions.contains record.extension &&
    ((record.path.stem?.bind fun stem => stem.toList.head?).map Text.isLowercase).getD false

def namingIssue (record : FileRecord) : NamingIssue :=
  ⟨record.path, "component file name should be PascalCase"⟩

def relocationsOf (survey : Survey) (execution : Option Execution) : List Plan :=
  match execution with
  | some execution => execution.executed.map Prod.fst
  | none => survey.plans

def conflictsOf (survey : Survey) (execution : Option Execution) : List ConflictEntry :=
  match execution with
  | some execution =>
    (execution.executed.filter fun step => step.1.decision = .conflict).map fun step =>
      ⟨step.1.source, step.1.destination, step.2.destination⟩
  | none =>
    (survey.plans.filter fun plan => plan.decision = .conflict).map fun plan =>
      ⟨plan.source, plan.destination, none⟩

def conflictIssue (conflict : ConflictEntry) : Issue :=
  ⟨.relocationConflict, conflict.source, none,
    "conflicts with " ++ conflict.destination.text ++ "; needs manual review"⟩

def build (time : Instant) (root : Path) (layout : Layout) (survey : Survey)
    (execution : Option Execution) (ledger : Ledger) (outcomes : ToolOutcomes) : Report :=
  let extensionIssues :=
    (survey.records.filter fun record => record.classification.changesExtension).map
      (extensionIssue layout.threshold)
  let accepted := extensionIssues.filter ExtensionIssue.accepted
  let relocations := relocationsOf survey execution
  let conflicts := conflictsOf survey execution
  let missingImports := survey.missing.map missingImport
  let executionIssues := match execution with
    | some execution => execution.issues
    | none => []
  { time := time
    root := root
    dryRun := execution.isNone
    summary :=
      { totalFiles := survey.records.length
        filesWithExtensionIssues := extensionIssues.length
        stagedFiles := survey.records.countP fun record => record.standing = .staged
        sourceFiles := survey.records.countP fun record => record.standing = .inPlace
        brokenImports := missingImports.length
        acceptedCorrections := accepted.length
        conflicts := conflicts.length
        decisions := .tally (relocations.map Plan.decision) }
    extensionIssues := extensionIssues
    suggestions := survey.suggestions
    relocations := relocations
    missingImports := missingImports
    conflicts := conflicts
    acceptedCorrections := accepted
    namingIssues := (survey.records.filter isMisnamed).map namingIssue
    issues :=
      survey.issues ++ conflicts.map conflictIssue ++ executionIssues ++ outcomes.issues root
    outcomes := outcomes
    ledger := ledger }

def display (report : Report) (path : Path) : String := (report.root.seenFrom path).text

end Report

end Stowage

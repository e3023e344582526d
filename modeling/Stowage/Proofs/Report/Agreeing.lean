import Stowage.Proofs.Execution.Tallying

set_option autoImplicit false

namespace Stowage

namespace Tools

def countLine (moves updates extensions : Nat) : String :=
  "tree-tidy: " ++ toString moves ++ " moves, " ++ toString updates ++ " updates, " ++ toString extensions ++
    " extensions\n\n"

theorem commitMessage_counts (ledger : Ledger) (extensionFixes : Nat) (filled : ledger ≠ []) :
    ∃ rest, commitMessage ledger extensionFixes =
      countLine (plainMoves ledger extensionFixes) (ledger.count (.relocate .updateNewer)) extensionFixes ++
        rest := by
  unfold commitMessage
  rw [if_neg (by simpa using filled)]
  simp only [countLine, String.append_assoc, String.append_right_inj]
  exact ⟨_, rfl⟩

theorem commitBlock_eq_none_iff (ledger : Ledger) :
    commitBlock ledger = none ↔ ledger.count (.relocate .conflict) = 0 ∧ ledger ≠ [] := by
  unfold commitBlock
  simp only [List.isEmpty_iff]
  split
  next conflicts => simp [Nat.ne_of_gt conflicts]
  next agreed =>
    have none : ledger.count (.relocate .conflict) = 0 := Nat.eq_zero_of_not_pos agreed
    split <;> simp_all

theorem commit_reaches_iff (toolbox : Toolbox) (ledger : Ledger) (extensionFixes : Nat) :
    (commit toolbox ledger extensionFixes).1.status ≠ .skipped ∨
        (commit toolbox ledger extensionFixes).2 ≠ [] ↔
      ledger.count (.relocate .conflict) = 0 ∧ ledger ≠ [] := by
  rw [← commitBlock_eq_none_iff]
  unfold commit
  cases commitBlock ledger with
  | some reason => simp
  | none =>
    simp only
    split <;> simp

end Tools

namespace Report

/-- A report and a ledger tell the same of an execution, and so do the messages made from the ledger. -/
structure Agrees (report : Report) (ledger : Ledger) (execution : Execution) (toolbox : Toolbox) : Prop where
  summary : ∀ decision, report.summary.decisions.get decision = ledger.count (.relocate decision)
  relocations : ∀ decision,
    (report.relocations.countP fun plan => plan.decision = decision) = ledger.count (.relocate decision)
  inOrder : ledger.relocations = execution.executed.map Prod.snd
  conflicts : report.summary.conflicts = ledger.count (.relocate .conflict)
  listed : report.conflicts.length = ledger.count (.relocate .conflict)
  reached : (Tools.commit toolbox ledger execution.extensionFixes).1.status ≠ .skipped ∨
      (Tools.commit toolbox ledger execution.extensionFixes).2 ≠ [] ↔
    report.summary.conflicts = 0 ∧ ledger ≠ []
  message : ledger = [] ∨ ∃ moves rest, Tools.commitMessage ledger execution.extensionFixes =
      Tools.countLine moves (ledger.count (.relocate .updateNewer)) execution.extensionFixes ++ rest ∧
    moves + execution.extensionFixes = ledger.count (.relocate .move)

theorem get_tally_plans (plans : List Plan) (decision : Decision) :
    (DecisionCounts.tally (plans.map Plan.decision)).get decision =
      plans.countP fun plan => plan.decision = decision := by
  rw [DecisionCounts.get_tally, List.count, List.countP_map]
  exact List.countP_congr fun plan _ => by simp

theorem length_conflictsOf (survey : Survey) (execution : Execution) :
    (conflictsOf survey (some execution)).length =
      (relocationsOf survey (some execution)).countP fun plan => plan.decision = .conflict := by
  simp only [conflictsOf, relocationsOf, List.length_map, List.countP_map, ← List.countP_eq_length_filter]
  rfl

theorem extensionFixes_le (execution : Execution) (survey : Survey) :
    execution.extensionFixes ≤
      (relocationsOf survey (some execution)).countP fun plan => plan.decision = .move := by
  simp only [Execution.extensionFixes, relocationsOf, List.countP_map]
  refine List.countP_mono_left fun step _ fixes => ?_
  simpa using (Bool.and_eq_true_iff.1 fixes).2

end Report

namespace Project

theorem countP_relocationsOf (project : Project) (carrier : Carrier) (survey : Survey) (d : Disk)
    (decision : Decision) :
    ((Report.relocationsOf survey (some (project.execute carrier survey ⟨d, []⟩).1)).countP
        fun plan => plan.decision = decision) =
      (project.execute carrier survey ⟨d, []⟩).2.ledger.count (.relocate decision) := by
  obtain ⟨listed, decided⟩ := project.execute_tallied carrier survey d
  rw [← Ledger.count_relocations, listed]
  simp only [Report.relocationsOf, Ledger.count, List.countP_map]
  refine List.countP_congr fun step inside => ?_
  simp [decided step inside]

/-- The report of any execution, its ledger and what is to be committed agree. -/
theorem execution_report_agrees (project : Project) (carrier : Carrier) (survey : Survey) (d : Disk)
    (time : Instant) (root : Path) (layout : Layout) (outcomes : ToolOutcomes) (toolbox : Toolbox) :
    (Report.build time root layout survey (some (project.execute carrier survey ⟨d, []⟩).1)
        (project.execute carrier survey ⟨d, []⟩).2.ledger outcomes).Agrees
      (project.execute carrier survey ⟨d, []⟩).2.ledger (project.execute carrier survey ⟨d, []⟩).1 toolbox := by
  have counts := project.countP_relocationsOf carrier survey d
  obtain ⟨listed, -⟩ := project.execute_tallied carrier survey d
  generalize project.execute carrier survey ⟨d, []⟩ = run at counts listed ⊢
  obtain ⟨execution, ⟨disk, ledger⟩⟩ := run
  have conflicts := (Report.length_conflictsOf survey execution).trans (counts .conflict)
  have summed := fun decision => (Report.get_tally_plans _ decision).trans (counts decision)
  refine ⟨summed, counts, listed, conflicts, conflicts, ?_, ?_⟩
  · refine (Tools.commit_reaches_iff toolbox ledger execution.extensionFixes).trans ?_
    rw [← conflicts]
    rfl
  · by_cases empty : ledger = []
    · exact .inl empty
    · obtain ⟨rest, message⟩ := Tools.commitMessage_counts ledger execution.extensionFixes empty
      refine .inr ⟨_, rest, message, ?_⟩
      -- The corrections of extensions are among the moves, so that the difference is a true one.
      have among := Report.extensionFixes_le execution survey
      rw [counts] at among
      exact Nat.sub_add_cancel among

end Project

end Stowage

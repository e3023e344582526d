import Stowage.Proofs.Execution.Relocating

set_option autoImplicit false

namespace Stowage.Project

/-- A record that tells what a plan's source holds, seen as the survey saw it, and says that the plan is
due. -/
structure Informed (project : Project) (survey : Survey) (d : Disk) (plan : Plan)
    (record : FileRecord) : Prop where
  surveyed : ∃ old ∈ survey.records, old.path = plan.source ∧ old.standing = record.standing
  fresh : ∃ text, readRecord d plan.source record.standing = .ok ⟨record, text⟩
  due : ∃ destination, destinationOf project.root project.layout record = some (destination, plan.reason) ∧
    destination.same plan.destination = true

theorem reason_of_destinationOf {root : Path} {layout : Layout} {record other : FileRecord}
    {destination destination' : Path} {reason reason' : Reason} (alike : record.standing = other.standing)
    (known : destinationOf root layout record = some (destination, reason))
    (known' : destinationOf root layout other = some (destination', reason')) : reason = reason' := by
  unfold destinationOf at known known'
  rw [alike] at known
  cases standing : other.standing with
  | staged =>
    simp only [standing, Option.some.injEq, Prod.mk.injEq] at known known'
    rw [← known.2, ← known'.2]
  | inPlace =>
    simp only [standing, Option.ite_none_right_eq_some, Option.some.injEq, Prod.mk.injEq] at known known'
    rw [← known.2.2, ← known'.2.2]

section

variable {project : Project} (orderly : project.Orderly) {d : Disk} (regular : d.Regular)

include orderly regular

theorem informed_of_known (progress : Progress) (pending : List Plan) (plan : Plan)
    (underway : Underway d (plan :: pending) progress) (member : plan ∈ (project.survey d).plans)
    (record : FileRecord)
    (known : project.knowledge (project.survey d) progress plan = .record record) :
    project.Informed (project.survey d) progress.site.disk plan record := by
  obtain ⟨surveyed, inside, source, first, planned, -⟩ := mem_plans orderly regular plan member
  obtain ⟨⟨text, read⟩, own⟩ := known_record orderly regular progress pending plan underway member record
    known
  rw [own] at read
  have learned := project.learned_knowledge (project.survey d) progress plan
  rw [known] at learned
  cases learned with
  | renewed listed _ refreshed =>
    -- The source took new content and was read again.
    rw [first] at listed
    cases listed
    obtain ⟨⟨_, again⟩, destination, reason, known', same⟩ := refresh_some refreshed
    obtain ⟨-, -, standing⟩ := readRecord_tells _ _ _ _ again
    rw [reason_of_destinationOf standing known' planned] at known'
    exact ⟨⟨surveyed, inside, source.symm, standing.symm⟩, ⟨text, read⟩, destination, known', same⟩
  | surveyed listed _ =>
    -- The source is as it was surveyed, so the destination is the planned one.
    rw [first] at listed
    cases listed
    exact ⟨⟨record, inside, source.symm, rfl⟩, ⟨text, read⟩, plan.destination, planned,
      beq_self_eq_true plan.destination.components⟩

/-- When its turn comes, a plan is carried out by what is known of its source, which is what is there at
that moment and asks for this very plan; where nothing is known, nothing is done. -/
theorem carried_out_informed (carrier : Carrier) (before pending : List Plan) (plan : Plan)
    (split : (project.survey d).plans = before ++ plan :: pending) :
    (∀ record, project.knowledge (project.survey d) (project.reached carrier d before) plan =
        .record record ->
      project.reached carrier d (before ++ [plan]) =
          carryOut carrier (project.reached carrier d before) plan record ∧
        project.Informed (project.survey d) (project.reached carrier d before).site.disk plan record) ∧
      ((∀ record, project.knowledge (project.survey d) (project.reached carrier d before) plan ≠
          .record record) ->
        (project.reached carrier d (before ++ [plan])).site = (project.reached carrier d before).site ∧
          (project.reached carrier d (before ++ [plan])).execution.executed =
            (project.reached carrier d before).execution.executed) := by
  have member : plan ∈ (project.survey d).plans := by
    rw [split]
    exact List.mem_append_right _ List.mem_cons_self
  obtain ⟨underway, -⟩ := reached_induction orderly regular carrier (fun _ _ => True) trivial
    (fun _ _ _ _ _ _ _ _ _ _ _ => trivial) before (plan :: pending) split
  rw [reached_concat]
  constructor
  · intro record known
    refine ⟨?_, informed_of_known orderly regular _ pending plan underway member record known⟩
    rw [executePlan, known]
  · intro unknown
    unfold executePlan
    split
    · exact ⟨rfl, rfl⟩
    next record known => exact absurd known (unknown record)
    · exact ⟨rfl, rfl⟩
    · exact ⟨rfl, rfl⟩

end

def renewing : Project :=
  ⟨⟨"/project"⟩,
    { Layout.usual with requiredDirs := [], destinations := Layout.paths [("card.jsx", "src/card.ts")] },
    .usual⟩

def restaged : Disk where
  tree := .row "" (some (.folder Disk.newFolderMode ⟨1, 0⟩)) (.row "project"
    (some (.folder Disk.newFolderMode ⟨1, 0⟩)) (.row "downloads" (some (.folder Disk.newFolderMode ⟨1, 0⟩))
      (.row "card.jsx" (some (.file "<Card new>".toUTF8 Disk.newFileMode ⟨2, 0⟩)) .bare .bare)
      (.row "src" (some (.folder Disk.newFolderMode ⟨1, 0⟩))
        (.row "card.ts" (some (.file "<Card>".toUTF8 Disk.newFileMode ⟨1, 0⟩)) .bare .bare) .bare)) .bare) .bare
  home := ["project"]
  privileged := true
  now := ⟨3, 0⟩

theorem restaged_informed :
    renewing.Orderly ∧ restaged.Regular ∧
      ∃ first second record, (renewing.survey restaged).plans = [first] ++ second :: [] ∧
        renewing.knowledge (renewing.survey restaged) (renewing.reached ⟨"stamp", []⟩ restaged [first]) second =
          .record record ∧
        renewing.Informed (renewing.survey restaged)
          (renewing.reached ⟨"stamp", []⟩ restaged [first]).site.disk second record := by
  have orderly : renewing.Orderly := by decide +kernel
  have regular : restaged.Regular := by decide +kernel
  obtain ⟨first, second, plans⟩ := List.length_eq_two.1
    (show (renewing.survey restaged).plans.length = 2 by decide +kernel)
  -- The first plan replaces the source of the second one, which is read again.
  have renewed : ∃ record, renewing.knowledge (renewing.survey restaged)
      (renewing.reached ⟨"stamp", []⟩ restaged [first]) second = .record record := by
    have again : ∀ plan ∈ (renewing.survey restaged).plans.drop 1,
        (match renewing.knowledge (renewing.survey restaged)
          (renewing.reached ⟨"stamp", []⟩ restaged ((renewing.survey restaged).plans.take 1)) plan with
        | .record _ => true
        | _ => false) = true := by decide +kernel
    have known := again second (by simp [plans])
    rw [plans] at known
    simp only [List.take_succ_cons, List.take_zero] at known
    split at known
    next record told => exact ⟨record, told⟩
    · cases known
  obtain ⟨record, known⟩ := renewed
  obtain ⟨-, informed⟩ :=
    (carried_out_informed orderly regular ⟨"stamp", []⟩ [first] [] second plans).1 record known
  exact ⟨orderly, regular, first, second, record, plans, known, informed⟩
end Stowage.Project

import Stowage.Proofs.Disk.Seeing
import Stowage.Proofs.Survey.Sources

set_option autoImplicit false

namespace Stowage

def Survey.Clear (survey : Survey) : Prop := ∀ issue ∈ survey.issues, issue.kind ≠ .readError

instance (survey : Survey) : Decidable survey.Clear :=
  inferInstanceAs (Decidable (∀ issue ∈ survey.issues, _))

theorem Gap.kind_issue (gap : Gap) : gap.issue.kind = .readError := by
  cases gap <;> rfl

namespace Project

def folderOf (project : Project) : Standing -> Path
  | .staged => project.root.join project.layout.stagingDir
  | .inPlace => project.root.join project.layout.sourceDir

theorem mem_candidates_iff (project : Project) (d : Disk) (path : Path) (standing : Standing) :
    (path, standing) ∈ Inventory.candidates d project.layout project.excludes project.root ↔
      path ∈ d.files project.excludes (project.folderOf standing) ∧
        (standing = .inPlace -> project.layout.isSource path.extension = true) := by
  unfold Inventory.candidates Inventory.stagedFiles Inventory.placedFiles
  cases standing <;> simp [folderOf]

theorem plan_of_candidate (project : Project) (d : Disk) (path : Path) (standing : Standing) (reading : Reading)
    (plan : Plan) (member : (path, standing) ∈
      Inventory.candidates d project.layout project.excludes project.root)
    (read : readRecord d path standing = .ok reading)
    (found : (project.finding d reading.record).plan = some plan) : plan ∈ (project.survey d).plans := by
  rw [survey_plans]
  exact List.mem_filterMap.2 ⟨reading.record, project.mem_records_of_read d member read, found⟩

theorem folderOf_plain {project : Project} (orderly : project.Orderly) (standing : Standing) :
    (project.folderOf standing).Plain := by
  cases standing with
  | staged => exact orderly.root.join_plain orderly.staging
  | inPlace => exact orderly.root.join_plain orderly.source

theorem below_of_record {project : Project} (orderly : project.Orderly) {d : Disk} (regular : d.Regular)
    (record : FileRecord) (member : record ∈ (project.survey d).records) :
    (project.folderOf record.standing).Below record.path := by
  obtain ⟨listed, -⟩ := (project.mem_candidates_iff d _ _).1 (project.told_of_record d record member).2
  exact (mem_files d regular _ _ _ (folderOf_plain orderly record.standing) listed).1

section

variable {project : Project} {d : Disk} (clear : (project.survey d).Clear)

include clear

theorem gaps_of_clear : (Inventory.take d project.layout project.excludes project.root).gaps = [] := by
  refine List.eq_nil_iff_forall_not_mem.2 fun gap member => ?_
  refine clear gap.issue ?_ gap.kind_issue
  exact List.mem_append_left _ (List.mem_append_left _ (List.mem_map_of_mem member))

theorem open_of_clear (standing : Standing) (path : Path) (problem : DiskError) :
    Sighting.closed path problem ∉ d.explore project.excludes (project.folderOf standing) := by
  intro sighted
  refine List.not_mem_nil (a := Gap.closed path problem) ?_
  rw [← gaps_of_clear clear]
  refine List.mem_append_left _ (List.mem_filterMap.2 ⟨.closed path problem, ?_, rfl⟩)
  cases standing with
  | staged => exact List.mem_append_left _ sighted
  | inPlace => exact List.mem_append_right _ sighted

theorem record_of_candidate (path : Path) (standing : Standing)
    (member : (path, standing) ∈
      Inventory.candidates d project.layout project.excludes project.root) :
    ∃ record ∈ (project.survey d).records, record.path = path ∧ record.standing = standing ∧
      record.Tells d := by
  cases read : readRecord d path standing with
  | ok reading =>
    obtain ⟨tells, own, stands⟩ := readRecord_tells d path standing reading read
    exact ⟨reading.record, project.mem_records_of_read d member read, own, stands, tells⟩
  | error reason =>
    -- What cannot be read leaves a gap.
    exfalso
    refine List.not_mem_nil (a := Gap.unread path reason) ?_
    rw [← gaps_of_clear clear]
    refine List.mem_append_right _ (List.mem_filterMap.2
      ⟨Inventory.entry d project.layout path standing, ?_, by rw [Inventory.entry, read]⟩)
    unfold Inventory.candidates at member
    rcases List.mem_append.1 member with staged | placed
    · obtain ⟨_, inside, same⟩ := List.mem_map.1 staged
      cases same
      exact List.mem_append_left _ (List.mem_map_of_mem inside)
    · obtain ⟨_, inside, same⟩ := List.mem_map.1 placed
      cases same
      exact List.mem_append_right _ (List.mem_map_of_mem inside)

theorem plan_of_record (record : FileRecord) (member : record ∈ (project.survey d).records)
    (destination : Path) (reason : Reason)
    (known : destinationOf project.root project.layout record = some (destination, reason))
    (differs : destination.same record.path = false) :
    ∃ plan ∈ (project.survey d).plans, plan.source = record.path := by
  cases decided : Decision.of d record destination with
  | ok decision =>
    rw [survey_plans]
    refine ⟨⟨record.path, destination, decision, reason⟩, List.mem_filterMap.2 ⟨record, member, ?_⟩, rfl⟩
    simp [finding, known, differs, decided]
  | error problem =>
    -- A destination that cannot be compared leaves an issue.
    have told : (project.finding d record).issue = some (cannotCompare record destination problem) := by
      simp [finding, known, differs, decided]
    exact absurd rfl (clear (cannotCompare record destination problem)
      (List.mem_append_right _ (List.mem_filterMap.2 ⟨_, List.mem_map_of_mem member, told⟩)))

end

section

variable {project : Project} (orderly : project.Orderly) {d after : Disk} (regular : d.Regular)
  (later : d.Later after)

include orderly regular later

theorem record_earlier (clear : (project.survey d).Clear) (record : FileRecord)
    (member : record ∈ (project.survey after).records) (content : ByteArray)
    (held : d.contents (record.path.place d.home) = some content) :
    ∃ first ∈ (project.survey d).records, first.path = record.path ∧ first.standing = record.standing ∧
      first.classification = .ofContent content record.path.extension := by
  obtain ⟨mode, modified, file⟩ := Disk.file?_of_content? d _ content held
  obtain ⟨listed, isSource⟩ := (project.mem_candidates_iff after _ _).1
    (project.told_of_record after record member).2
  -- The walk saw the file, because no directory was closed to it.
  have listed' := Disk.files_earlier regular later _ _ _ (folderOf_plain orderly record.standing)
    (open_of_clear clear record.standing) listed (by rw [file]; rfl)
  obtain ⟨first, inside, own, standing, tells⟩ := record_of_candidate clear record.path record.standing
    ((project.mem_candidates_iff d _ _).2 ⟨listed', isSource⟩)
  obtain ⟨-, content', held', -, verdict⟩ := tells.file regular
  rw [own, held] at held'
  cases held'
  exact ⟨first, inside, own, standing, by rw [verdict, own]⟩

end

end Project

end Stowage

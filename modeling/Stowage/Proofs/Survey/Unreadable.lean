import Stowage.Proofs.Disk.Exploring
import Stowage.Proofs.Survey.Covering

set_option autoImplicit false

namespace Stowage

theorem Classification.ofContent_eq_unreadable_iff (content : ByteArray) (current : String) :
    ofContent content current = unreadable current ↔ 0 ∈ content.data ∨ decodeText content = none := by
  have zero : content.data.contains 0 = true ↔ 0 ∈ content.data := Array.contains_iff_mem
  unfold ofContent
  split
  next found => simp [zero.1 found]
  next zeroFree =>
    rw [zero] at zeroFree
    cases decoded : decodeText content with
    | none => simp
    | some text =>
      -- Every verdict on a text has another reason than that it cannot be read.
      have judged : ofText text.toList current ≠ unreadable current := by
        intro same
        have reasons := congrArg Classification.reason same
        simp only [ofText, unreadable, verdict] at reasons
        split_ifs at reasons <;> simp at reasons
      simp [judged, zeroFree]

theorem Classification.decodeText_toUTF8 (text : String) : decodeText text.toUTF8 = some text :=
  dif_pos text.isValidUTF8

theorem Disk.closed_folder {d : Disk} (sound : d.Sound) (excludes : Excludes) (depth : Nat) (folder path : Path)
    (problem : DiskError) (known : ∀ there, d.find folder = .ok there -> there.2.isFolder = true)
    (closed : .closed path problem ∈ d.sightings excludes depth folder) {there : Location × Node}
    (found : d.find path = .ok there) : there.2.isFolder = true := by
  induction depth generalizing folder with
  | zero => cases closed
  | succ depth ih =>
    rw [sightings] at closed
    -- What is closed is the folder listed, or lies below an entry of it that is a folder itself.
    cases listed : d.list folder with
    | error problem =>
      rw [listed] at closed
      cases List.mem_singleton.1 closed
      exact known there found
    | ok entries =>
      obtain ⟨place, mode, modified, opened, rfl⟩ := list_eq_ok listed
      rw [listed] at closed
      obtain ⟨⟨name, node⟩, inside, closed⟩ := List.mem_flatMap.1 closed
      obtain ⟨held, named⟩ := mem_row sound inside
      simp only at closed held named
      split at closed
      · cases closed
      · cases node with
        | file => cases List.mem_singleton.1 closed
        | link => cases closed
        | folder mode modified =>
          refine ih (folder.join ⟨name⟩) (fun below reached => ?_) closed
          rw [find_entry opened named held (by simp) reached]
          rfl

theorem Disk.explored_closed {d : Disk} (sound : d.Sound) {excludes : Excludes} {folder path : Path}
    {problem : DiskError} (closed : .closed path problem ∈ d.explore excludes folder) {there : Location × Node}
    (found : d.find path = .ok there) : there.2.isFolder = true := by
  unfold explore at closed
  split at closed
  next opened =>
    obtain ⟨place, mode, modified, root⟩ := find_of_isFolder opened
    refine closed_folder sound excludes _ folder path problem (fun other reached => ?_) closed found
    cases root.symm.trans reached
    rfl
  · cases closed

def Inventory.Reports (inventory : Inventory) (path : Path) : Prop :=
  ∃ gap ∈ inventory.gaps, gap.issue.kind = .readError ∧ gap.issue.file = path

namespace Project

section

variable {project : Project} {d : Disk}

theorem not_closed_of_read (sound : d.Sound) {path : Path} {content : ByteArray} (held : d.read path = .ok content)
    {gap : Gap} (inside : gap ∈ (d.explore project.excludes (project.root.join project.layout.stagingDir) ++
      d.explore project.excludes (project.root.join project.layout.sourceDir)).filterMap Inventory.closedGap?) :
    gap.issue.file ≠ path := by
  rintro rfl
  obtain ⟨place, mode, modified, found⟩ := Disk.find_of_read d _ content held
  obtain ⟨sighting, seen, made⟩ := List.mem_filterMap.1 inside
  cases sighting with
  | file => cases made
  | closed path problem =>
    cases made
    rcases List.mem_append.1 seen with seen | seen <;>
      exact absurd (Disk.explored_closed sound seen found) (by simp [Node.isFolder])

theorem reports_iff (sound : d.Sound) {path : Path} {standing : Standing}
    (candidate : (path, standing) ∈ Inventory.candidates d project.layout project.excludes project.root)
    {content : ByteArray} (held : d.read path = .ok content) (isSource : project.layout.isSource path.extension = true) :
    (project.inventory d).Reports path ↔ Classification.decodeText content = none := by
  obtain ⟨stat, -, read⟩ := readRecord_eq held
  unfold Inventory.Reports inventory
  rw [Inventory.gaps_eq]
  constructor
  · rintro ⟨gap, inside, -, rfl⟩
    rcases List.mem_append.1 inside with closed | entered
    · exact absurd rfl (not_closed_of_read sound held closed)
    · obtain ⟨⟨path, standing⟩, -, made⟩ := List.mem_filterMap.1 entered
      unfold Inventory.entry at made
      split at made
      next reason unread =>
        cases made
        cases (read standing).symm.trans unread
      next reading found =>
        split at made
        · split at made
          · cases made
          next missing =>
            cases made
            cases (read standing).symm.trans found
            exact missing
        · cases made
  · intro missing
    refine ⟨.notText path, List.mem_append_right _ (List.mem_filterMap.2 ⟨_, candidate, ?_⟩), rfl, rfl⟩
    simp [Inventory.entry, read, isSource, missing]

theorem not_same_of_notText {path : Path} {content : ByteArray} (held : d.read path = .ok content)
    (notText : Classification.decodeText content = none) (source : Path × String)
    (inside : source ∈ (project.inventory d).sources) : source.1.same path = false := by
  obtain ⟨-, content', -, held', -, decoded⟩ := (project.mem_sources_iff d source.1 source.2).1 inside
  rw [← Bool.not_eq_true]
  intro same
  obtain ⟨place, mode, modified, found⟩ := Disk.find_of_read d _ content held
  obtain ⟨place', mode', modified', found'⟩ := Disk.find_of_read d _ content' held'
  -- Both spellings lead to one file, which cannot be text and not be text.
  cases Disk.find_same same found' found
  rw [notText] at decoded
  cases decoded

end

end Project

end Stowage

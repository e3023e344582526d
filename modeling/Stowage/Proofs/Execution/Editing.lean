import Stowage.Proofs.Execution.Relocating
import Stowage.Proofs.Execution.Rewriting
import Stowage.Proofs.Specifier.Planning

set_option autoImplicit false

namespace Stowage

theorem Specifier.rewrites_rows (edges : List Edge) (fates : Fates) (sourceRoot : Path) :
    ∀ row ∈ Specifier.rewrites edges fates sourceRoot,
      ∃ step ∈ edges.filterMap (Specifier.editFor fates sourceRoot), step.1 = row.1 := by
  have all : ∀ (steps : List (Path × Edit)) (table : Table Path (List Edit)),
      ∀ row ∈ steps.foldl
          (fun plans step => plans.alter Path.order step.1 [] (Specifier.addEdit step.2)) table,
        (∃ old ∈ table, old.1 = row.1) ∨ ∃ step ∈ steps, step.1 = row.1 := by
    intro steps
    induction steps with
    | nil => exact fun table row inside => .inl ⟨row, inside, rfl⟩
    | cons step rest ih =>
      intro table row inside
      rcases ih _ row inside with ⟨old, member, same⟩ | ⟨later, member, same⟩
      · rcases Table.mem_alter _ _ _ _ table old member with rfl | ⟨older, member', same', -⟩
        · exact .inr ⟨step, List.mem_cons_self, same⟩
        · exact .inl ⟨older, member', same'.trans same⟩
      · exact .inr ⟨later, List.mem_cons_of_mem _ member, same⟩
  intro row inside
  rcases all (edges.filterMap (Specifier.editFor fates sourceRoot)) [] row inside with ⟨old, impossible, -⟩ | known
  · cases impossible
  · exact known

theorem Specifier.editFor_origin (fates : Fates) (sourceRoot : Path) (edge : Edge) (step : Path × Edit)
    (edits : Specifier.editFor fates sourceRoot edge = some step) :
    Specifier.originNow fates edge.file = some step.1 := by
  obtain ⟨target, moved, stale, -⟩ := (Specifier.editFor_eq_some_iff _ _ _ _ _).1 edits
  exact (Specifier.originNow_eq_some_iff _ _ _).2 stale.importing

theorem Specifier.originNow_cases (fates : Fates) (file origin : Path)
    (known : Specifier.originNow fates file = some origin) :
    origin = file ∨ ∃ row ∈ fates, row.2 = .carried origin := by
  rcases (Specifier.originNow_eq_some_iff _ _ _).1 known with ⟨-, same⟩ | carried
  · exact .inl same
  · obtain ⟨row, inside, -, same⟩ := Table.mem_of_lookup Path.order file fates _ carried
    exact .inr ⟨row, inside, same⟩

theorem Anchors.edge?_file (anchors : Anchors) (isFile : Path -> Bool) (file : Path) (found : Import)
    (edge : Edge) (made : anchors.edge? isFile file found = some edge) : edge.file = file := by
  unfold Anchors.edge? at made
  split at made <;> cases made <;> rfl

namespace Project

def FatesPlain (fates : Fates) : Prop := ∀ row ∈ fates, ∀ path, row.2 = .carried path -> path.Plain

section

variable {project : Project} (orderly : project.Orderly) {d : Disk} (regular : d.Regular)

include orderly regular

theorem mem_sources (source : Path × String)
    (member : source ∈ (Inventory.take d project.layout project.excludes project.root).sources) :
    source.1.Plain ∧ d.contents (source.1.place d.home) = some source.2.toUTF8 := by
  obtain ⟨standing, content, candidate, held, -, decoded⟩ := (project.mem_sources_iff d source.1 source.2).1 member
  obtain ⟨folder, plain, below, -⟩ := mem_candidates orderly regular source.1 standing candidate
  refine ⟨plain.below below, ?_⟩
  rw [← bytes_of_decoded content source.2 decoded]
  exact (Disk.contents_of_read d regular source.1 content held).1

theorem edges_plain (edge : Edge) (member : edge ∈ (project.survey d).edges) : edge.file.Plain := by
  obtain ⟨source, inside, found, made⟩ := project.edge_made d edge member
  rw [Anchors.edge?_file _ _ _ _ _ made]
  exact (mem_sources orderly regular source inside).1

theorem turn_fates (progress after : Progress) (pending : List Plan) (plan : Plan)
    (underway : Underway d (plan :: pending) progress) (member : plan ∈ (project.survey d).plans)
    (turn : Turn progress plan after) (plain : FatesPlain progress.fates) : FatesPlain after.fates := by
  cases turn with
  | idle _ _ fates =>
    rw [fates]
    exact plain
  | @acted _ decision outcome _ _ _ _ did _ _ fates _ =>
    rw [fates]
    cases outcome with
    | error error => exact plain
    | ok executed =>
      have fresh : ∀ path, fateOf decision plan.destination = .carried path -> path.Plain := by
        intro path carried
        obtain ⟨lands', rfl⟩ : lands decision = true ∧ plan.destination = path := by
          cases decision <;> cases carried <;> exact ⟨rfl, rfl⟩
        exact landed_plain orderly regular _ underway.later.regular plan member did lands'
      intro row inside path carried
      rcases Table.mem_alter _ _ _ _ _ row inside with rfl | ⟨old, member', -, rfl | value⟩
      · exact fresh path carried
      · exact plain row member' path carried
      · rw [value] at carried
        exact fresh path carried

theorem relocated_fates (carrier : Carrier) :
    FatesPlain (project.relocateAll carrier (project.survey d) ⟨d, []⟩).fates := by
  have start : FatesPlain (project.ready ⟨d, []⟩).fates := by
    rw [(prepared_ready project d regular).fates]
    exact fun row impossible => (nomatch impossible)
  have run := reached_induction orderly regular carrier (fun _ progress => FatesPlain progress.fates) start
    (fun before plan pending progress after split _ _ underway turn plain =>
      turn_fates orderly regular progress after pending plan underway (by simp [split]) turn plain)
    (project.survey d).plans [] (List.append_nil _).symm
  rw [relocateAll_eq]
  exact run.2

theorem edits_plain (carrier : Carrier) (row : Path × List Edit)
    (inside : row ∈ project.editsAfter (project.survey d)
      (project.relocateAll carrier (project.survey d) ⟨d, []⟩)) : row.1.Plain := by
  have fates := relocated_fates orderly regular carrier
  generalize project.relocateAll carrier (project.survey d) ⟨d, []⟩ = relocated at fates inside
  have rows := Specifier.rewrites_rows (project.survey d).edges relocated.fates
    (project.root.join project.layout.sourceDir)
  obtain ⟨step, made, same⟩ := rows row inside
  obtain ⟨edge, member, edits⟩ := List.mem_filterMap.1 made
  -- The importing file is where the survey found it, or where it was carried.
  rw [← same]
  rcases Specifier.originNow_cases _ _ _ (Specifier.editFor_origin _ _ edge step edits) with
    own | ⟨fate, known, carried⟩
  · rw [own]
    exact edges_plain orderly regular edge member
  · exact fates fate known step.1 carried

theorem edits_distinct (carrier : Carrier) (home : Location) :
    ((project.editsAfter (project.survey d)
      (project.relocateAll carrier (project.survey d) ⟨d, []⟩)).map fun step =>
        step.1.place home).Nodup := by
  have plain := edits_plain orderly regular carrier
  generalize project.relocateAll carrier (project.survey d) ⟨d, []⟩ = relocated at plain ⊢
  have sorted := Specifier.rewrites_sorted (project.survey d).edges relocated.fates
    (project.root.join project.layout.sourceDir)
  rw [List.Nodup, List.pairwise_map]
  refine List.Pairwise.imp_of_mem ?_ sorted
  intro first second inside inside' less equal
  -- Rows stand in the order of their paths, and plain paths of one place are equal in it.
  have same := (plain first inside).same_of_place (plain second inside') home equal
  rw [(Path.order_eq_iff_same first.1 second.1).2 same] at less
  cases less

end

end Project

end Stowage

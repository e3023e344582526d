import Stowage.Proofs.Execution.Editing
import Stowage.Proofs.Execution.Trailing
import Stowage.Proofs.Imports.Respelling
import Stowage.Proofs.Specifier.Anchoring

set_option autoImplicit false

namespace Stowage

def Execution.Quiet (execution : Execution) : Prop :=
  ∀ issue ∈ execution.issues, issue.kind ≠ .executionError

instance (execution : Execution) : Decidable execution.Quiet :=
  inferInstanceAs (Decidable (∀ issue ∈ execution.issues, _))

def specifierAt (text : String) (index : Nat) : Option String :=
  (Import.list text)[index]?.map Import.specifier

theorem rewriteImports_nil (text : String) : rewriteImports [] text = text := by
  rw [rewriteImports, Imports.rewriteChars_nil, String.ofList_toList]

def Anchors.target? (anchors : Anchors) (isFile : Path -> Bool) (specifier : String) (origin : Path) :
    Option (Strategy × Path) :=
  match anchors.resolve isFile specifier origin with
  | .resolved strategy path => some (strategy, path)
  | _ => none

theorem Anchors.target?_eq_some_iff {anchors : Anchors} {isFile : Path -> Bool} {specifier : String}
    {origin path : Path} {strategy : Strategy} : anchors.target? isFile specifier origin = some (strategy, path) ↔
      anchors.resolve isFile specifier origin = .resolved strategy path := by
  unfold target?
  cases anchors.resolve isFile specifier origin <;> simp

def Disk.text? (d : Disk) (path : Path) : Option String :=
  (d.contents (path.place d.home)).bind String.fromUTF8?

theorem Disk.text?_of_contents (d : Disk) (path : Path) (text : String)
    (held : d.contents (path.place d.home) = some text.toUTF8) : d.text? path = some text := by
  rw [text?, held, Option.bind_some]
  exact dif_pos text.isValidUTF8

namespace Project

theorem rewriteFile_issues (progress : Progress) (step : Path × List Edit) (issue : Issue)
    (known : issue ∈ progress.execution.issues) : issue ∈ (rewriteFile progress step).execution.issues := by
  unfold rewriteFile
  split
  · exact List.mem_append_left _ known
  · exact known
  · exact known

theorem rewriteAll_issues (steps : List (Path × List Edit)) (progress : Progress) (issue : Issue)
    (known : issue ∈ progress.execution.issues) :
    issue ∈ (steps.foldl rewriteFile progress).execution.issues := by
  induction steps generalizing progress with
  | nil => exact known
  | cons step rest ih => exact ih _ (rewriteFile_issues progress step issue known)

theorem execute_issues (project : Project) (carrier : Carrier) (d : Disk) (before pending : List Plan)
    (split : (project.survey d).plans = before ++ pending) (issue : Issue)
    (known : issue ∈ (project.reached carrier d before).execution.issues) :
    issue ∈ (project.execute carrier (project.survey d) ⟨d, []⟩).1.issues := by
  have onward : ∀ (plans : List Plan) (progress : Progress), issue ∈ progress.execution.issues ->
      issue ∈ (plans.foldl (project.executePlan carrier (project.survey d)) progress).execution.issues := by
    intro plans
    induction plans with
    | nil => exact fun _ known => known
    | cons plan rest ih =>
      intro progress known
      obtain ⟨new, issues⟩ := (project.executePlan_handled carrier (project.survey d) progress plan).issues
      refine ih _ ?_
      rw [issues]
      exact List.mem_append_left _ known
  rw [execute_execution, rewritten]
  refine rewriteAll_issues _ _ issue ?_
  rw [relocateAll_eq, split, reached, List.foldl_append]
  exact onward pending _ known

theorem quiet_before (steps : List (Path × List Edit)) (progress : Progress)
    (quiet : (steps.foldl rewriteFile progress).execution.Quiet) : progress.execution.Quiet :=
  fun issue known => quiet issue (rewriteAll_issues steps progress issue known)

theorem rewriteFile_text (progress : Progress) (regular : progress.site.disk.Regular)
    (step : Path × List Edit) (text : String)
    (held : progress.site.disk.contents (step.1.place progress.site.disk.home) = some text.toUTF8)
    (quiet : (rewriteFile progress step).execution.Quiet) :
    (rewriteFile progress step).site.disk.contents (step.1.place progress.site.disk.home) =
      some (rewriteImports step.2 text).toUTF8 := by
  have same : ∀ text' : String, progress.site.disk.contents (step.1.place progress.site.disk.home) =
      some text'.toUTF8 -> text' = text := fun text' held' =>
    String.toByteArray_inj.1 (Option.some.inj (held'.symm.trans held))
  rcases rewriteFile_cases progress regular step with
    ⟨site, -, ⟨issue, known, failure⟩ | ⟨text', kept, held'⟩⟩ | ⟨text', rewrote⟩
  · exact absurd failure (quiet issue known)
  · obtain rfl := same text' held'
    rw [site, kept, held]
  · obtain rfl := same text' rewrote.before
    rw [rewrote.written.held, Function.update_self]

theorem rewriteAll_text (steps : List (Path × List Edit)) (progress : Progress)
    (regular : progress.site.disk.Regular)
    (distinct : (steps.map fun step => step.1.place progress.site.disk.home).Nodup)
    (quiet : (steps.foldl rewriteFile progress).execution.Quiet) (step : Path × List Edit)
    (member : step ∈ steps) (text : String)
    (held : progress.site.disk.contents (step.1.place progress.site.disk.home) = some text.toUTF8) :
    (steps.foldl rewriteFile progress).site.disk.contents (step.1.place progress.site.disk.home) =
      some (rewriteImports step.2 text).toUTF8 := by
  induction steps generalizing progress with
  | nil => cases member
  | cons first rest ih =>
    rw [List.foldl_cons] at quiet ⊢
    rw [List.map_cons, List.nodup_cons] at distinct
    have later := rewriteFile_later progress regular first
    rcases List.mem_cons.1 member with rfl | member'
    · -- No other step touches the file once its own turn has come.
      obtain ⟨kept, -⟩ := rewriteAll_kept rest (rewriteFile progress step) later.regular
        (step.1.place progress.site.disk.home) (by rw [later.home]; exact distinct.1)
      rw [kept]
      exact rewriteFile_text progress regular step text held (quiet_before rest _ quiet)
    · have missed : step.1.place progress.site.disk.home ∉
          [first].map fun step => step.1.place progress.site.disk.home := by
        rw [List.map_singleton, List.mem_singleton]
        intro same
        exact distinct.1 (List.mem_map.2 ⟨step, member', same⟩)
      have still : (rewriteFile progress first).site.disk.contents (step.1.place progress.site.disk.home) =
          progress.site.disk.contents (step.1.place progress.site.disk.home) :=
        (rewriteAll_kept [first] progress regular _ missed).1
      have onward := ih (rewriteFile progress first) later.regular (by rw [later.home]; exact distinct.2)
        quiet member' (by rw [later.home, still, held])
      rwa [later.home] at onward

def editsAt (project : Project) (carrier : Carrier) (d : Disk) (path : Path) : List Edit :=
  (Table.lookup Path.order path (project.editsAfter (project.survey d)
    (project.relocateAll carrier (project.survey d) ⟨d, []⟩))).getD []

/-- An import of a source, by its number. The execution took the source to `origin`, and what the import
names to `goal`. -/
structure Imported (project : Project) (carrier : Carrier) (d : Disk) (source : Path × String)
    (index : Nat) (specifier : String) (origin goal : Path) : Prop where
  surveyed : source ∈ (Inventory.take d project.layout project.excludes project.root).sources
  listed : specifierAt source.2 index = some specifier
  carried : Execution.trail (project.execute carrier (project.survey d) ⟨d, []⟩).1.executed false source.1 =
    some origin
  named : ∃ strategy target, strategy ≠ .aliasPrefixed ∧
    project.anchors.target? d.isFile specifier source.1 = some (strategy, target) ∧
    Execution.trail (project.execute carrier (project.survey d) ⟨d, []⟩).1.executed true target = some goal

/-- The import of this number in the file at `origin` names the file at `goal`. -/
def Names (project : Project) (d : Disk) (origin : Path) (index : Nat) (goal : Path) : Prop :=
  ∃ specifier ∈ (d.text? origin).bind (specifierAt · index),
    ∃ found ∈ project.anchors.target? d.isFile specifier origin, found.2.same goal = true

instance (project : Project) (d : Disk) (origin : Path) (index : Nat) (goal : Path) :
    Decidable (project.Names d origin index goal) :=
  inferInstanceAs (Decidable (∃ specifier ∈ _, _))

/-- Of the paths that a specifier in the file at `origin` may stand for, none before `goal` is a file. -/
def FirstNamed (project : Project) (d : Disk) (specifier : String) (origin goal : Path) : Prop :=
  ∃ strategy base rest candidate tried path others,
    project.anchors.anchor specifier origin = some (strategy, base, rest) ∧
    project.root.normalizeWithin (base.join ⟨rest⟩) = some candidate ∧
    Anchors.probed project.layout.probeExtensions candidate = tried ++ path :: others ∧
    (∀ other ∈ tried, d.isFile other = false) ∧ d.isFile path = true ∧ path.same goal = true

theorem firstNamed_iff (project : Project) (d : Disk) (specifier : String) (origin goal : Path) :
    project.FirstNamed d specifier origin goal ↔
      ∃ found ∈ project.anchors.target? d.isFile specifier origin, found.2.same goal = true := by
  have split : ∀ candidate path, Anchors.Found d.isFile project.anchors.extensions candidate path ↔
      d.isFile path = true ∧ ∃ tried others, Anchors.probed project.layout.probeExtensions candidate =
        tried ++ path :: others ∧ ∀ other ∈ tried, d.isFile other = false := by
    intro candidate path
    rw [← Anchors.find?_probed_iff, List.find?_eq_some_iff_append]
    simp only [Bool.not_eq_eq_eq_not, Bool.not_true]
    rfl
  simp only [Prod.exists, Option.mem_def, Anchors.target?_eq_some_iff, Anchors.resolve_eq_resolved_iff, split]
  constructor
  · rintro ⟨strategy, base, rest, candidate, tried, path, others, anchored, within, probed, missed, found, same⟩
    exact ⟨strategy, path, ⟨base, rest, candidate, anchored, within, found, tried, others, probed, missed⟩, same⟩
  · rintro ⟨strategy, path, ⟨base, rest, candidate, anchored, within, found, tried, others, probed, missed⟩, same⟩
    exact ⟨strategy, base, rest, candidate, tried, path, others, anchored, within, probed, missed, found, same⟩

section

variable {project : Project} (orderly : project.Orderly) {d : Disk} (regular : d.Regular)

include orderly regular

theorem executed_home (carrier : Carrier) :
    (project.execute carrier (project.survey d) ⟨d, []⟩).2.disk.home = d.home := by
  have later := relocated_later orderly regular carrier
  have rewritten' := rewriteAll_later (project.editsAfter (project.survey d)
    (project.relocateAll carrier (project.survey d) ⟨d, []⟩)) _ later.regular
  rw [execute_site, rewritten, rewritten'.home, later.home]

theorem final_text (carrier : Carrier)
    (quiet : (project.execute carrier (project.survey d) ⟨d, []⟩).1.Quiet) (source : Path × String)
    (surveyed : source ∈ (Inventory.take d project.layout project.excludes project.root).sources)
    (origin : Path)
    (carried : Execution.trail (project.execute carrier (project.survey d) ⟨d, []⟩).1.executed false
      source.1 = some origin) :
    (project.execute carrier (project.survey d) ⟨d, []⟩).2.disk.contents (origin.place d.home) =
      some (rewriteImports (project.editsAt carrier d origin) source.2).toUTF8 := by
  rw [execute_execution] at quiet carried
  rw [rewritten_executed] at carried
  obtain ⟨plain, held⟩ := mem_sources orderly regular source surveyed
  obtain ⟨plain', held'⟩ := reached_trail orderly regular carrier source.1 plain _ held origin carried
  have later := (relocated_later orderly regular carrier)
  have distinct := edits_distinct orderly regular carrier d.home
  have rows := edits_plain orderly regular carrier
  rw [execute_site]
  unfold rewritten at quiet ⊢
  unfold editsAt
  generalize project.relocateAll carrier (project.survey d) ⟨d, []⟩ = relocated at *
  -- Either edits were planned for the file, or it is none of those that are rewritten.
  rw [← later.home] at distinct held' ⊢
  cases known : Table.lookup Path.order origin (project.editsAfter (project.survey d) relocated) with
  | none =>
    have missed := Table.not_mem_of_lookup _ _ _ known
    have apart : origin.place relocated.site.disk.home ∉
        (project.editsAfter (project.survey d) relocated).map fun step =>
          step.1.place relocated.site.disk.home := by
      intro member
      obtain ⟨row, inside, same⟩ := List.mem_map.1 member
      have equal := plain'.same_of_place (rows row inside) _ same.symm
      exact missed row inside ((Path.order_eq_iff_same _ _).2 equal)
    rw [(rewriteAll_kept _ relocated later.regular _ apart).1, held', Option.getD_none, rewriteImports_nil]
  | some edits =>
    obtain ⟨row, inside, equal, rfl⟩ := Table.mem_of_lookup _ _ _ _ known
    have same := Path.place_of_same relocated.site.disk.home origin row.1
      ((Path.order_eq_iff_same _ _).1 equal)
    rw [same] at held' ⊢
    exact rewriteAll_text _ relocated later.regular distinct quiet row inside source.2 held'

theorem import_names_iff (carrier : Carrier)
    (quiet : (project.execute carrier (project.survey d) ⟨d, []⟩).1.Quiet) {source : Path × String}
    {index : Nat} {specifier : String} {origin goal : Path}
    (imported : project.Imported carrier d source index specifier origin goal) :
    (project.Names (project.execute carrier (project.survey d) ⟨d, []⟩).2.disk origin index goal ↔
      ∃ left, specifierAt (rewriteImports (project.editsAt carrier d origin) source.2) index = some left ∧
        project.FirstNamed (project.execute carrier (project.survey d) ⟨d, []⟩).2.disk left origin goal) ∧
    (Imports.Clean (project.editsAt carrier d origin) ->
      specifierAt (rewriteImports (project.editsAt carrier d origin) source.2) index =
        some (written (project.editsAt carrier d origin) specifier)) := by
  have held := final_text orderly regular carrier quiet source imported.surveyed origin imported.carried
  rw [← executed_home orderly regular carrier] at held
  have text := Disk.text?_of_contents _ origin _ held
  constructor
  · unfold Names
    simp only [firstNamed_iff, text, Option.bind_some, Option.mem_def]
  · intro clean
    have listed := imported.listed
    unfold specifierAt at listed ⊢
    rw [← List.getElem?_map] at listed ⊢
    rw [imports_rewritten clean, List.getElem?_map, listed]
    rfl

end

def upward : Project :=
  ⟨⟨"/project"⟩, { Layout.usual with requiredDirs := [], destinations := [], fallbackDir := ⟨"src"⟩ }, .usual⟩

def namesake : Disk where
  tree := .row "" (some (.folder Disk.newFolderMode ⟨1, 0⟩)) (.row "project"
    (some (.folder Disk.newFolderMode ⟨1, 0⟩)) (.row "downloads" (some (.folder Disk.newFolderMode ⟨1, 0⟩))
      (.row "utils.ts" (some (.file "one".toUTF8 Disk.newFileMode ⟨1, 0⟩)) .bare .bare)
      (.row "src" (some (.folder Disk.newFolderMode ⟨1, 0⟩)) (.row "utils"
        (some (.folder Disk.newFolderMode ⟨1, 0⟩)) (.row "app.ts"
          (some (.file "import '../../downloads/utils'".toUTF8 Disk.newFileMode ⟨1, 0⟩)) .bare .bare) .bare)
        .bare)) .bare) .bare
  home := ["project"]
  privileged := true
  now := ⟨2, 0⟩

def importer : Path × String := (⟨"/project/src/utils/app.ts"⟩, "import '../../downloads/utils'")

theorem namesake_imported :
    (upward.execute ⟨"stamp", []⟩ (upward.survey namesake) ⟨namesake, []⟩).1.Quiet ∧
      upward.Imported ⟨"stamp", []⟩ namesake importer 0 "../../downloads/utils" importer.1
        ⟨"/project/src/utils.ts"⟩ := by
  have found : importer ∈ (Inventory.take namesake upward.layout upward.excludes upward.root).sources ∧
      specifierAt importer.2 0 = some "../../downloads/utils" ∧
      upward.anchors.target? namesake.isFile "../../downloads/utils" importer.1 =
        some (.relative, ⟨"/project/downloads/utils.ts"⟩) := by decide +kernel
  have done : (upward.execute ⟨"stamp", []⟩ (upward.survey namesake) ⟨namesake, []⟩).1.Quiet ∧
      Execution.trail (upward.execute ⟨"stamp", []⟩ (upward.survey namesake) ⟨namesake, []⟩).1.executed
          false importer.1 = some importer.1 ∧
      Execution.trail (upward.execute ⟨"stamp", []⟩ (upward.survey namesake) ⟨namesake, []⟩).1.executed
          true ⟨"/project/downloads/utils.ts"⟩ = some ⟨"/project/src/utils.ts"⟩ := by decide +kernel
  obtain ⟨surveyed, listed, resolved⟩ := found
  obtain ⟨quiet, carried, followed⟩ := done
  exact ⟨quiet, surveyed, listed, carried, .relative, _, by decide, resolved, followed⟩

theorem not_import_always_names :
    ¬ ∀ (project : Project) (d : Disk) (carrier : Carrier) (source : Path × String) (index : Nat)
      (specifier : String) (origin goal : Path), project.Orderly -> d.Regular ->
      (project.execute carrier (project.survey d) ⟨d, []⟩).1.Quiet ->
      project.Imported carrier d source index specifier origin goal ->
      project.Names (project.execute carrier (project.survey d) ⟨d, []⟩).2.disk origin index goal := by
  intro always
  obtain ⟨quiet, imported⟩ := namesake_imported
  have named := always upward namesake ⟨"stamp", []⟩ _ 0 _ _ _ (by decide +kernel) (by decide +kernel) quiet
    imported
  revert named
  decide +kernel

end Project

end Stowage

import Stowage.Proofs.Execution.Following
import Stowage.Proofs.Specifier.Planning

set_option autoImplicit false

namespace Stowage

namespace Anchors

def aliasNames (anchors : Anchors) (specifier : String) : List Path :=
  match aliasAnchor specifier anchors.aliases with
  | none => []
  | some (directory, rest) =>
    match anchors.root.normalizeWithin (directory.join ⟨rest⟩) with
    | none => []
    | some candidate => probed anchors.extensions candidate

theorem anchor_alias {anchors : Anchors} {specifier : String} {origin base : Path} {rest : String}
    (anchored : anchors.anchor specifier origin = some (.aliasPrefixed, base, rest)) (other : Path) :
    anchors.anchor specifier other = some (.aliasPrefixed, base, rest) ∧
      aliasAnchor specifier anchors.aliases = some (base, rest) := by
  obtain ⟨dotless, everywhere⟩ := anchor_elsewhere anchored (by decide)
  refine ⟨everywhere other, ?_⟩
  rw [anchor, dotless, if_neg Bool.false_ne_true] at anchored
  split at anchored
  next directory rest' known =>
    cases anchored
    exact known
  · obtain ⟨_, -, impossible⟩ := Option.map_eq_some_iff.1 anchored
    cases impossible

theorem anchor_of_strategy {anchors : Anchors} (isFile : Path -> Bool) {specifier : String} {origin : Path}
    {strategy : Strategy} (read : (anchors.resolve isFile specifier origin).strategy? = some strategy) :
    ∃ base rest, anchors.anchor specifier origin = some (strategy, base, rest) := by
  rw [strategy_resolve] at read
  obtain ⟨⟨_, base, rest⟩, anchored, rfl⟩ := Option.map_eq_some_iff.1 read
  exact ⟨base, rest, anchored⟩

theorem anchor_of_target {anchors : Anchors} {isFile : Path -> Bool} {specifier : String} {origin : Path}
    {strategy : Strategy} {target : Path}
    (named : anchors.target? isFile specifier origin = some (strategy, target)) :
    ∃ base rest, anchors.anchor specifier origin = some (strategy, base, rest) := by
  refine anchor_of_strategy isFile ?_
  rw [target?_eq_some_iff.1 named]
  rfl

theorem anchor_of_edge {anchors : Anchors} {isFile : Path -> Bool} {file : Path} {found : Import} {edge : Edge}
    (made : anchors.edge? isFile file found = some edge) :
    ∃ base rest, anchors.anchor edge.raw file = some (edge.strategy, base, rest) := by
  refine anchor_of_strategy isFile ?_
  unfold edge? at made
  split at made
  · cases made
  next strategy path resolved =>
    cases made
    rw [resolved]
    rfl
  next strategy candidate resolved =>
    cases made
    rw [resolved]
    rfl

theorem target?_alias {anchors : Anchors} {isFile : Path -> Bool} {specifier : String} {origin target : Path}
    (named : anchors.target? isFile specifier origin = some (.aliasPrefixed, target))
    (isFile' : Path -> Bool) (other : Path) :
    anchors.target? isFile' specifier other =
      ((anchors.aliasNames specifier).find? isFile').map fun path => (.aliasPrefixed, path) := by
  obtain ⟨base, rest, anchored⟩ := anchor_of_target named
  obtain ⟨anchored', known⟩ := anchor_alias anchored other
  unfold target? resolve aliasNames
  simp only [anchored', known]
  cases anchors.root.normalizeWithin (base.join ⟨rest⟩) with
  | none => rfl
  | some candidate =>
    simp only
    cases (probed anchors.extensions candidate).find? isFile' <;> rfl

end Anchors

namespace Specifier

theorem rewrites_edits (edges : List Edge) (fates : Fates) (sourceRoot : Path) (row : Path × List Edit)
    (inside : row ∈ rewrites edges fates sourceRoot) (edit : Edit) (planned : edit ∈ row.2) :
    ∃ edge ∈ edges, edge.strategy ≠ .aliasPrefixed ∧ edit.raw = edge.raw := by
  rw [rewrites_row _ _ _ inside, mem_collected_iff] at planned
  obtain ⟨edge, member, _, _, _, stale, -, raw, -⟩ :=
    (mem_calls_iff _ _ _ _ _).1 (List.mem_of_find?_eq_some planned)
  exact ⟨edge, member, stale.written, raw⟩

end Specifier

namespace Project

/-- An import of a source by an alias, by its number. The execution took the source to `origin`, and what
the import names to `goal`. -/
structure AliasImported (project : Project) (carrier : Carrier) (d : Disk) (source : Path × String)
    (index : Nat) (specifier : String) (origin goal : Path) : Prop where
  surveyed : source ∈ (Inventory.take d project.layout project.excludes project.root).sources
  listed : specifierAt source.2 index = some specifier
  carried : Execution.trail (project.execute carrier (project.survey d) ⟨d, []⟩).1.executed false source.1 =
    some origin
  named : ∃ target, project.anchors.target? d.isFile specifier source.1 = some (.aliasPrefixed, target) ∧
    Execution.trail (project.execute carrier (project.survey d) ⟨d, []⟩).1.executed true target = some goal

/-- The import of this number in the file at `origin` still is `specifier`, and names the file at `goal`. -/
def StillNames (project : Project) (d : Disk) (origin : Path) (index : Nat) (specifier : String)
    (goal : Path) : Prop :=
  (d.text? origin).bind (specifierAt · index) = some specifier ∧
    ∃ found ∈ project.anchors.target? d.isFile specifier origin, found.2.same goal = true

instance (project : Project) (d : Disk) (origin : Path) (index : Nat) (specifier : String) (goal : Path) :
    Decidable (project.StillNames d origin index specifier goal) :=
  inferInstanceAs (Decidable (_ ∧ ∃ found ∈ _, _))

theorem edges_anchored {project : Project} {d : Disk} {edge : Edge} (member : edge ∈ (project.survey d).edges) :
    ∃ file base rest, project.anchors.anchor edge.raw file = some (edge.strategy, base, rest) := by
  obtain ⟨source, -, found, made⟩ := project.edge_made d edge member
  exact ⟨source.1, Anchors.anchor_of_edge made⟩

theorem written_alias (project : Project) (carrier : Carrier) (d : Disk) (path : Path) {isFile : Path -> Bool}
    {specifier : String} {origin target : Path}
    (named : project.anchors.target? isFile specifier origin = some (.aliasPrefixed, target)) :
    written (project.editsAt carrier d path) specifier = specifier := by
  have missed : (project.editsAt carrier d path).find? (fun edit => edit.raw == specifier) = none := by
    rw [List.find?_eq_none]
    intro edit planned same
    obtain ⟨row, inside, planned⟩ : ∃ row ∈ project.editsAfter (project.survey d)
        (project.relocateAll carrier (project.survey d) ⟨d, []⟩), edit ∈ row.2 := by
      unfold editsAt at planned
      cases known : Table.lookup Path.order path (project.editsAfter (project.survey d)
          (project.relocateAll carrier (project.survey d) ⟨d, []⟩)) with
      | none => simp [known] at planned
      | some edits =>
        obtain ⟨row, inside, -, rfl⟩ := Table.mem_of_lookup _ _ _ _ known
        exact ⟨row, inside, by simpa [known] using planned⟩
    obtain ⟨edge, member, other, raw⟩ := Specifier.rewrites_edits _ _ _ row inside edit planned
    -- The edge would be that of an alias, too.
    obtain ⟨file, base, rest, anchored⟩ := edges_anchored member
    obtain ⟨base', rest', anchored'⟩ := Anchors.anchor_of_target named
    rw [← raw, eq_of_beq same, (Anchors.anchor_alias anchored' file).1] at anchored
    exact other (congrArg Prod.fst (Option.some.inj anchored)).symm
  rw [written, missed]
  rfl

section

variable {project : Project} (orderly : project.Orderly) {d : Disk} (regular : d.Regular)

include orderly regular

/-- After an execution without failures an import by an alias still names what the file it named became,
exactly if it is still there and that is the first file among the names the alias stands for. Clean edits
leave it there. -/
theorem alias_still_names_iff (carrier : Carrier)
    (quiet : (project.execute carrier (project.survey d) ⟨d, []⟩).1.Quiet) {source : Path × String}
    {index : Nat} {specifier : String} {origin goal : Path}
    (imported : project.AliasImported carrier d source index specifier origin goal) :
    (project.StillNames (project.execute carrier (project.survey d) ⟨d, []⟩).2.disk origin index specifier
        goal ↔
      specifierAt (rewriteImports (project.editsAt carrier d origin) source.2) index = some specifier ∧
        ∃ path ∈ (project.anchors.aliasNames specifier).find?
          (project.execute carrier (project.survey d) ⟨d, []⟩).2.disk.isFile, path.same goal = true) ∧
    (Imports.Clean (project.editsAt carrier d origin) ->
      specifierAt (rewriteImports (project.editsAt carrier d origin) source.2) index = some specifier) := by
  obtain ⟨target, named, -⟩ := imported.named
  have held := final_text orderly regular carrier quiet source imported.surveyed origin imported.carried
  rw [← executed_home orderly regular carrier] at held
  have text := Disk.text?_of_contents _ origin _ held
  constructor
  · unfold StillNames
    rw [Anchors.target?_alias named, text, Option.bind_some]
    simp only [Option.mem_def, Option.map_eq_some_iff]
    constructor
    · rintro ⟨same, _, ⟨path, first, rfl⟩, goal'⟩
      exact ⟨same, path, first, goal'⟩
    · rintro ⟨same, path, first, goal'⟩
      exact ⟨same, _, ⟨path, first, rfl⟩, goal'⟩
  -- Clean edits put each specifier that is planned for, and none is planned for an alias.
  · intro clean
    have listed := imported.listed
    unfold specifierAt at listed ⊢
    rw [← List.getElem?_map] at listed ⊢
    rw [imports_rewritten clean, List.getElem?_map, listed, Option.map_some,
      written_alias project carrier d origin named]

end

def aliasing (specifier : String) : Disk where
  tree := .row "" (some (.folder Disk.newFolderMode ⟨1, 0⟩)) (.row "project"
    (some (.folder Disk.newFolderMode ⟨1, 0⟩)) (.row "downloads" (some (.folder Disk.newFolderMode ⟨1, 0⟩))
      (.row "app.ts" (some (.file ("import '" ++ specifier ++ "'").toUTF8 Disk.newFileMode ⟨1, 0⟩)) .bare .bare)
      (.row "src" (some (.folder Disk.newFolderMode ⟨1, 0⟩))
        (.row "card.ts" (some (.file "<Card>".toUTF8 Disk.newFileMode ⟨1, 0⟩)) .bare .bare) .bare)) .bare) .bare
  home := ["project"]
  privileged := true
  now := ⟨2, 0⟩

def unlisted : Project :=
  ⟨⟨"/project"⟩, { Layout.usual with requiredDirs := [], destinations := [] }, .usual⟩

def aliaser (specifier : String) : Path × String :=
  (⟨"/project/downloads/app.ts"⟩, "import '" ++ specifier ++ "'")

theorem aliasing_imported (specifier : String) (known : specifier = "@/card" ∨ specifier = "@/card.ts") :
    unlisted.Orderly ∧ (aliasing specifier).Regular ∧
      (unlisted.execute ⟨"stamp", []⟩ (unlisted.survey (aliasing specifier)) ⟨aliasing specifier, []⟩).1.Quiet ∧
      unlisted.AliasImported ⟨"stamp", []⟩ (aliasing specifier) (aliaser specifier) 0 specifier
        ⟨"/project/src/utils/app.ts"⟩ ⟨"/project/src/card.tsx"⟩ := by
  have orderly : unlisted.Orderly := by decide +kernel
  have found : (aliasing specifier).Regular ∧ aliaser specifier ∈ (Inventory.take (aliasing specifier)
        unlisted.layout unlisted.excludes unlisted.root).sources ∧
      specifierAt (aliaser specifier).2 0 = some specifier ∧
      unlisted.anchors.target? (aliasing specifier).isFile specifier (aliaser specifier).1 =
        some (.aliasPrefixed, ⟨"/project/src/card.ts"⟩) := by
    rcases known with rfl | rfl <;> decide +kernel
  have done : (unlisted.execute ⟨"stamp", []⟩ (unlisted.survey (aliasing specifier))
        ⟨aliasing specifier, []⟩).1.Quiet ∧
      Execution.trail (unlisted.execute ⟨"stamp", []⟩ (unlisted.survey (aliasing specifier))
          ⟨aliasing specifier, []⟩).1.executed false (aliaser specifier).1 =
        some ⟨"/project/src/utils/app.ts"⟩ ∧
      Execution.trail (unlisted.execute ⟨"stamp", []⟩ (unlisted.survey (aliasing specifier))
          ⟨aliasing specifier, []⟩).1.executed true ⟨"/project/src/card.ts"⟩ =
        some ⟨"/project/src/card.tsx"⟩ := by
    rcases known with rfl | rfl <;> decide +kernel
  obtain ⟨regular, surveyed, listed, resolved⟩ := found
  obtain ⟨quiet, carried, followed⟩ := done
  exact ⟨orderly, regular, quiet, surveyed, listed, carried, _, resolved, followed⟩

theorem aliasing_still_names_iff :
    unlisted.Orderly ∧ (aliasing "@/card").Regular ∧
      (unlisted.execute ⟨"stamp", []⟩ (unlisted.survey (aliasing "@/card")) ⟨aliasing "@/card", []⟩).1.Quiet ∧
      unlisted.AliasImported ⟨"stamp", []⟩ (aliasing "@/card") (aliaser "@/card") 0 "@/card"
        ⟨"/project/src/utils/app.ts"⟩ ⟨"/project/src/card.tsx"⟩ ∧
      (unlisted.StillNames
          (unlisted.execute ⟨"stamp", []⟩ (unlisted.survey (aliasing "@/card")) ⟨aliasing "@/card", []⟩).2.disk
          ⟨"/project/src/utils/app.ts"⟩ 0 "@/card" ⟨"/project/src/card.tsx"⟩ ↔
        specifierAt (rewriteImports (unlisted.editsAt ⟨"stamp", []⟩ (aliasing "@/card")
            ⟨"/project/src/utils/app.ts"⟩) (aliaser "@/card").2) 0 = some "@/card" ∧
          ∃ path ∈ (unlisted.anchors.aliasNames "@/card").find? (unlisted.execute ⟨"stamp", []⟩
              (unlisted.survey (aliasing "@/card")) ⟨aliasing "@/card", []⟩).2.disk.isFile,
            path.same ⟨"/project/src/card.tsx"⟩ = true) := by
  obtain ⟨orderly, regular, quiet, imported⟩ := aliasing_imported "@/card" (.inl rfl)
  exact ⟨orderly, regular, quiet, imported,
    (alias_still_names_iff orderly regular ⟨"stamp", []⟩ quiet imported).1⟩

theorem not_alias_always_still_names :
    ¬ ∀ (project : Project) (d : Disk) (carrier : Carrier) (source : Path × String) (index : Nat)
      (specifier : String) (origin goal : Path), project.Orderly -> d.Regular ->
      (project.execute carrier (project.survey d) ⟨d, []⟩).1.Quiet ->
      project.AliasImported carrier d source index specifier origin goal ->
      project.StillNames (project.execute carrier (project.survey d) ⟨d, []⟩).2.disk origin index specifier
        goal := by
  intro always
  obtain ⟨orderly, regular, quiet, imported⟩ := aliasing_imported "@/card.ts" (.inr rfl)
  have named := always unlisted (aliasing "@/card.ts") ⟨"stamp", []⟩ _ 0 _ _ _ orderly regular quiet imported
  revert named
  decide +kernel

end Project

end Stowage

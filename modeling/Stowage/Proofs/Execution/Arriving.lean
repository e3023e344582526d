import Stowage.Proofs.Execution.Following
import Stowage.Proofs.Specifier.Aiming

set_option autoImplicit false

namespace Stowage

open Specifier (originNow targetNow replacementFor keepsExtension meant Due Tended)

theorem Anchors.target?_of_settle {anchors : Anchors} {isFile : Path -> Bool} {specifier : String}
    {origin candidate : Path} {strategy : Strategy}
    (read : anchors.resolve isFile specifier origin = anchors.settle isFile strategy candidate) (goal : Path) :
    (∃ found ∈ anchors.target? isFile specifier origin, found.2.same goal = true) ↔
      ∃ path, Found isFile anchors.extensions candidate path ∧ path.same goal = true := by
  simp only [← find?_probed_iff]
  unfold target?
  rw [read, settle]
  cases (probed anchors.extensions candidate).find? isFile <;> simp

namespace Project

/-- An execution takes the file of an import straight to `origin` and its target straight to `moved`, and no other file
with an import by the same specifier comes to `origin`. -/
structure Traced (project : Project) (carrier : Carrier) (d : Disk) (source : Path × String) (specifier : String)
    (origin target moved : Path) : Prop where
  importing : originNow (project.relocateAll carrier (project.survey d) ⟨d, []⟩).fates source.1 = some origin
  imported : targetNow (project.relocateAll carrier (project.survey d) ⟨d, []⟩).fates target = some moved
  alone : ∀ edge ∈ (project.survey d).edges, edge.raw = specifier -> ∀ there,
    originNow (project.relocateAll carrier (project.survey d) ⟨d, []⟩).fates edge.file = some there ->
      origin.same there = true -> edge.file.same source.1 = true

/-- The path that an import stands for once its file is at `origin` and its target at `moved`: that of before where
nothing is due, else that of the target, if a specifier is written for it that is read as one. -/
inductive Aimed (project : Project) (source : Path) (specifier : String) (strategy : Strategy)
    (origin target moved : Path) : Path -> Prop
  | kept {base candidate : Path} {rest : String} (settled : ¬ Due strategy source origin target moved)
    (anchored : project.anchors.anchor specifier source = some (strategy, base, rest))
    (normal : project.root.normalizeWithin (base.join ⟨rest⟩) = some candidate) :
    Aimed project source specifier strategy origin target moved candidate
  | renewed {replacement : String} {read : Strategy} {names : List String}
    (due : Due strategy source origin target moved)
    (computed : replacementFor strategy project.anchors.sourceRoot origin moved (keepsExtension specifier target) =
      some replacement)
    (recognised : project.anchors.strategyFor replacement = some read) (unaliased : read ≠ .aliasPrefixed)
    (importing : project.root.Under origin) (imported : project.root.Under moved)
    (dot : moved.stem? ≠ some ".") (dots : moved.stem? ≠ some "..")
    (spelt : project.root.components ++ names.map .name = meant moved (keepsExtension specifier target)) :
    Aimed project source specifier strategy origin target moved (project.root.joinNames names)

theorem editsAt_eq (project : Project) (carrier : Carrier) (d : Disk) (path : Path) :
    project.editsAt carrier d path = Specifier.collected (Specifier.calls (project.survey d).edges
      (project.relocateAll carrier (project.survey d) ⟨d, []⟩).fates project.anchors.sourceRoot path) :=
  Specifier.lookup_rewrites _ _ _ path

theorem edge?_of_target {anchors : Anchors} {isFile : Path -> Bool} {file target : Path} {found : Import}
    {strategy : Strategy} (named : anchors.target? isFile found.specifier file = some (strategy, target)) :
    anchors.edge? isFile file found =
      some ⟨file, found.specifier, found.line, strategy, some target, none⟩ := by
  simp [Anchors.edge?, Anchors.target?_eq_some_iff.1 named]

theorem edge_of_import {project : Project} {d : Disk} {source : Path × String} {index : Nat} {specifier : String}
    {strategy : Strategy} {target : Path}
    (surveyed : source ∈ (Inventory.take d project.layout project.excludes project.root).sources)
    (listed : specifierAt source.2 index = some specifier)
    (named : project.anchors.target? d.isFile specifier source.1 = some (strategy, target)) :
    ∃ line, ⟨source.1, specifier, line, strategy, some target, none⟩ ∈ (project.survey d).edges := by
  obtain ⟨found, at', rfl⟩ := Option.map_eq_some_iff.1 listed
  refine ⟨found.line, List.mem_flatMap.2 ⟨source, surveyed, List.mem_filterMap.2 ⟨found, ?_, ?_⟩⟩⟩
  · exact List.mem_of_getElem? at'
  · exact edge?_of_target named

section

variable {project : Project} (orderly : project.Orderly) {d : Disk} (regular : d.Regular)

include orderly regular

theorem source_unique {source other : Path × String}
    (surveyed : source ∈ (project.inventory d).sources) (surveyed' : other ∈ (project.inventory d).sources)
    (same : source.1.same other.1 = true) : source.1 = other.1 := by
  obtain ⟨standing, -, candidate, -⟩ := (project.mem_sources_iff d source.1 source.2).1 surveyed
  obtain ⟨standing', -, candidate', -⟩ := (project.mem_sources_iff d other.1 other.2).1 surveyed'
  have equal := List.inj_on_of_nodup_map (nodup_candidates orderly regular) candidate candidate' (eq_of_beq same)
  exact (Prod.mk.inj equal).1

theorem Traced.tended {carrier : Carrier} {source : Path × String} {specifier : String} {origin target moved : Path}
    {strategy : Strategy} (traced : project.Traced carrier d source specifier origin target moved)
    (surveyed : source ∈ (project.inventory d).sources) (unaliased : strategy ≠ .aliasPrefixed)
    (named : project.anchors.target? d.isFile specifier source.1 = some (strategy, target)) {line : Nat}
    (member : ⟨source.1, specifier, line, strategy, some target, none⟩ ∈ (project.survey d).edges) :
    Tended (project.survey d).edges (project.relocateAll carrier (project.survey d) ⟨d, []⟩).fates
      ⟨source.1, specifier, line, strategy, some target, none⟩ origin target moved := by
  refine ⟨member, unaliased, rfl, traced.importing, traced.imported, ?_⟩
  intro other member' raw there known same
  obtain ⟨source', surveyed', found, made⟩ := project.edge_made d other member'
  have file := Anchors.edge?_file _ _ _ _ _ made
  have own : source'.1 = source.1 := by
    refine source_unique orderly regular surveyed' surveyed ?_
    rw [← file]
    exact traced.alone other member' raw there known same
  have raw' : found.specifier = specifier := by
    refine Eq.trans ?_ raw
    unfold Anchors.edge? at made
    split at made <;> cases made <;> rfl
  rw [own, edge?_of_target (by rw [raw']; exact named)] at made
  cases made
  exact ⟨rfl, rfl, rfl⟩

theorem names_iff_of_left {carrier : Carrier}
    (quiet : (project.execute carrier (project.survey d) ⟨d, []⟩).1.Quiet) {source : Path × String}
    {index : Nat} {specifier left : String} {origin goal : Path}
    (imported : project.Imported carrier d source index specifier origin goal)
    (known : specifierAt (rewriteImports (project.editsAt carrier d origin) source.2) index = some left) :
    project.Names (project.execute carrier (project.survey d) ⟨d, []⟩).2.disk origin index goal ↔
      ∃ found ∈ project.anchors.target?
        (project.execute carrier (project.survey d) ⟨d, []⟩).2.disk.isFile left origin, found.2.same goal = true := by
  rw [(import_names_iff orderly regular carrier quiet imported).1, known]
  simp [firstNamed_iff]

omit regular in
theorem Aimed.read {edge : Edge} {edges : List Edge} {fates : Fates} {origin target moved candidate : Path}
    (tended : Tended edges fates edge origin target moved) (plain : edge.file.Plain)
    (aimed : project.Aimed edge.file edge.raw edge.strategy origin target moved candidate) :
    ∃ read, ∀ isFile, project.anchors.resolve isFile (written (Specifier.collected
        (Specifier.calls edges fates project.anchors.sourceRoot origin)) edge.raw) origin =
      project.anchors.settle isFile read candidate := by
  have root : project.anchors.root.Plain := orderly.root
  cases aimed with
  | kept settled anchored normal =>
    rw [tended.written_of_not_due settled]
    have before := Anchors.resolve_eq_settle anchored normal
    refine ⟨edge.strategy, fun isFile => ?_⟩
    cases strategy : edge.strategy with
    | relative =>
      -- A relative import is not due only where its file stays.
      have same : edge.file.same origin = true := by
        apply Path.same_symm
        by_contra moved'
        exact settled (.inr ⟨strategy, by simpa using moved'⟩)
      rw [← Anchors.resolve_congr root.isAbsolute plain same, before, strategy]
    | rootRelative =>
      rw [strategy] at anchored
      exact Anchors.resolve_eq_settle ((Anchors.anchor_elsewhere anchored (by decide)).2 origin) normal isFile
    | aliasPrefixed => exact absurd strategy tended.written
  | @renewed replacement read names due computed recognised unaliased importing imported dot dots spelt =>
    rw [tended.written_of_due due, computed, Option.getD_some]
    obtain ⟨-, sourceNames, inner⟩ := orderly.source
    have within : project.anchors.root.Within project.anchors.sourceRoot :=
      ⟨sourceNames, by rw [← inner]; exact orderly.root.join orderly.source⟩
    obtain ⟨names', spelt', settles⟩ :=
      Specifier.replacement_read root imported dot dots importing within computed recognised unaliased
    have equal : names'.map Component.name = names.map Component.name :=
      List.append_cancel_left (spelt'.trans spelt.symm)
    obtain rfl := List.map_injective_iff.2 (fun _ _ same => Component.name.inj same) equal
    exact ⟨read, settles⟩

/-- After an execution without failures an import names what the file it named became, exactly if that is the first file
that the specifier written for it may stand for. Clean edits put the planned specifier there; and where the plan knows
both ends of the import, what this stands for is told by where they are. -/
theorem import_arrives_iff (carrier : Carrier)
    (quiet : (project.execute carrier (project.survey d) ⟨d, []⟩).1.Quiet) {source : Path × String}
    {index : Nat} {specifier : String} {origin goal : Path}
    (imported : project.Imported carrier d source index specifier origin goal) :
    (project.Names (project.execute carrier (project.survey d) ⟨d, []⟩).2.disk origin index goal ↔
      ∃ left, specifierAt (rewriteImports (project.editsAt carrier d origin) source.2) index = some left ∧
        project.FirstNamed (project.execute carrier (project.survey d) ⟨d, []⟩).2.disk left origin goal) ∧
    (Imports.Clean (project.editsAt carrier d origin) ->
      specifierAt (rewriteImports (project.editsAt carrier d origin) source.2) index =
          some (written (project.editsAt carrier d origin) specifier) ∧
        ∀ strategy target moved candidate,
          project.anchors.target? d.isFile specifier source.1 = some (strategy, target) ->
          project.Traced carrier d source specifier origin target moved ->
          project.Aimed source.1 specifier strategy origin target moved candidate ->
          (project.Names (project.execute carrier (project.survey d) ⟨d, []⟩).2.disk origin index goal ↔
            ∃ path, Anchors.Found (project.execute carrier (project.survey d) ⟨d, []⟩).2.disk.isFile
              project.layout.probeExtensions candidate path ∧ path.same goal = true)) := by
  obtain ⟨exactly, put⟩ := import_names_iff orderly regular carrier quiet imported
  refine ⟨exactly, fun clean => ⟨put clean, ?_⟩⟩
  intro strategy target moved candidate named traced aimed
  obtain ⟨strategy', target', unaliased, named', -⟩ := imported.named
  rw [named] at named'
  cases named'
  obtain ⟨line, member⟩ := edge_of_import imported.surveyed imported.listed named
  have tended := traced.tended orderly regular imported.surveyed unaliased named member
  have plain := (mem_sources orderly regular source imported.surveyed).1
  obtain ⟨read, settles⟩ := Aimed.read orderly tended plain aimed
  rw [← editsAt_eq] at settles
  rw [names_iff_of_left orderly regular quiet imported (put clean)]
  exact Anchors.target?_of_settle (settles _) goal

end

def awaited : Disk where
  tree := .row "" (some (.folder Disk.newFolderMode ⟨1, 0⟩)) (.row "project"
    (some (.folder Disk.newFolderMode ⟨1, 0⟩)) (.row "downloads" (some (.folder Disk.newFolderMode ⟨1, 0⟩))
      (.row "card.ts" (some (.file "one".toUTF8 Disk.newFileMode ⟨1, 0⟩)) .bare .bare)
      (.row "src" (some (.folder Disk.newFolderMode ⟨1, 0⟩)) (.row "app"
        (some (.folder Disk.newFolderMode ⟨1, 0⟩)) (.row "main.ts"
          (some (.file "import '../../downloads/card'".toUTF8 Disk.newFileMode ⟨1, 0⟩)) .bare .bare) .bare)
        .bare)) .bare) .bare
  home := ["project"]
  privileged := true
  now := ⟨2, 0⟩

def waiting : Path × String := (⟨"/project/src/app/main.ts"⟩, "import '../../downloads/card'")

theorem awaited_arrives : upward.Orderly ∧ awaited.Regular ∧
    (upward.execute ⟨"stamp", []⟩ (upward.survey awaited) ⟨awaited, []⟩).1.Quiet ∧
    upward.Imported ⟨"stamp", []⟩ awaited waiting 0 "../../downloads/card" waiting.1 ⟨"/project/src/card.ts"⟩ ∧
    Imports.Clean (upward.editsAt ⟨"stamp", []⟩ awaited waiting.1) ∧
    upward.Traced ⟨"stamp", []⟩ awaited waiting "../../downloads/card" waiting.1 ⟨"/project/downloads/card.ts"⟩
      ⟨"/project/src/card.ts"⟩ ∧
    upward.Aimed waiting.1 "../../downloads/card" .relative waiting.1 ⟨"/project/downloads/card.ts"⟩
      ⟨"/project/src/card.ts"⟩ (upward.root.joinNames ["src", "card"]) ∧
    upward.Names (upward.execute ⟨"stamp", []⟩ (upward.survey awaited) ⟨awaited, []⟩).2.disk waiting.1 0
      ⟨"/project/src/card.ts"⟩ := by
  have orderly : upward.Orderly := by decide +kernel
  have found : awaited.Regular ∧ waiting ∈ (Inventory.take awaited upward.layout upward.excludes upward.root).sources ∧
      specifierAt waiting.2 0 = some "../../downloads/card" ∧
      upward.anchors.target? awaited.isFile "../../downloads/card" waiting.1 =
        some (.relative, ⟨"/project/downloads/card.ts"⟩) ∧
      ∀ edge ∈ (upward.survey awaited).edges, edge.file.same waiting.1 = true := by decide +kernel
  have done : (upward.execute ⟨"stamp", []⟩ (upward.survey awaited) ⟨awaited, []⟩).1.Quiet ∧
      Execution.trail (upward.execute ⟨"stamp", []⟩ (upward.survey awaited) ⟨awaited, []⟩).1.executed
          false waiting.1 = some waiting.1 ∧
      Execution.trail (upward.execute ⟨"stamp", []⟩ (upward.survey awaited) ⟨awaited, []⟩).1.executed
          true ⟨"/project/downloads/card.ts"⟩ = some ⟨"/project/src/card.ts"⟩ ∧
      originNow (upward.relocateAll ⟨"stamp", []⟩ (upward.survey awaited) ⟨awaited, []⟩).fates waiting.1 =
        some waiting.1 ∧
      targetNow (upward.relocateAll ⟨"stamp", []⟩ (upward.survey awaited) ⟨awaited, []⟩).fates
        ⟨"/project/downloads/card.ts"⟩ = some ⟨"/project/src/card.ts"⟩ ∧
      Imports.Clean (upward.editsAt ⟨"stamp", []⟩ awaited waiting.1) ∧
      (Anchors.probed upward.layout.probeExtensions (upward.root.joinNames ["src", "card"])).find?
        (upward.execute ⟨"stamp", []⟩ (upward.survey awaited) ⟨awaited, []⟩).2.disk.isFile =
          some ⟨"/project/src/card.ts"⟩ := by decide +kernel
  have written' : Due .relative waiting.1 waiting.1 ⟨"/project/downloads/card.ts"⟩ ⟨"/project/src/card.ts"⟩ ∧
      replacementFor .relative upward.anchors.sourceRoot waiting.1 ⟨"/project/src/card.ts"⟩
        (keepsExtension "../../downloads/card" ⟨"/project/downloads/card.ts"⟩) = some "../card" ∧
      upward.anchors.strategyFor "../card" = some .relative ∧
      waiting.1.components = upward.root.components ++ ["src", "app", "main.ts"].map .name ∧
      (Path.mk "/project/src/card.ts").components = upward.root.components ++ ["src", "card.ts"].map .name ∧
      (Path.mk "/project/src/card.ts").stem? = some "card" ∧
      upward.root.components ++ ["src", "card"].map .name = meant ⟨"/project/src/card.ts"⟩
        (keepsExtension "../../downloads/card" ⟨"/project/downloads/card.ts"⟩) := by decide +kernel
  obtain ⟨regular, surveyed, listed, named, alone⟩ := found
  obtain ⟨quiet, carried, followed, importing, imported, clean, first⟩ := done
  obtain ⟨due, computed, recognised, below, below', stem, spelt⟩ := written'
  have known : upward.Imported ⟨"stamp", []⟩ awaited waiting 0 "../../downloads/card" waiting.1
      ⟨"/project/src/card.ts"⟩ := ⟨surveyed, listed, carried, .relative, _, by decide, named, followed⟩
  have traced : upward.Traced ⟨"stamp", []⟩ awaited waiting "../../downloads/card" waiting.1
      ⟨"/project/downloads/card.ts"⟩ ⟨"/project/src/card.ts"⟩ :=
    ⟨importing, imported, fun edge member _ _ _ _ => alone edge member⟩
  have aimed : upward.Aimed waiting.1 "../../downloads/card" .relative waiting.1 ⟨"/project/downloads/card.ts"⟩
      ⟨"/project/src/card.ts"⟩ (upward.root.joinNames ["src", "card"]) :=
    .renewed due computed recognised (by decide) ⟨_, List.cons_ne_nil _ _, below⟩ ⟨_, List.cons_ne_nil _ _, below'⟩
      (by simp [stem]) (by simp [stem]) spelt
  refine ⟨orderly, regular, quiet, known, clean, traced, aimed, ?_⟩
  have arrives := import_arrives_iff orderly regular ⟨"stamp", []⟩ quiet known
  exact ((arrives.2 clean).2 _ _ _ _ named traced aimed).2
    ⟨_, (Anchors.find?_probed_iff _ _ _ _).1 first, by decide⟩

end Project

end Stowage

import Stowage.Proofs.Execution.Aliasing
import Stowage.Proofs.Imports.Rereading

set_option autoImplicit false

namespace Stowage

namespace Specifier

theorem pointed_wayText (steps : List String) : Imports.Pointed (wayText steps).toList := by
  refine .inl ?_
  rw [toList_wayText]
  split
  next dots =>
    obtain ⟨rest, dotted⟩ := dots
    rw [← dotted]
    rfl
  · rfl

theorem pointed_of_replacementFor {strategy : Strategy} {sourceRoot origin target : Path} {keepExtension : Bool}
    {replacement : String}
    (known : replacementFor strategy sourceRoot origin target keepExtension = some replacement) :
    Imports.Pointed replacement.toList := by
  rcases replacementFor_cases known with rooted | relative
  · obtain ⟨rest, -, made⟩ := Option.bind_eq_some_iff.1 rooted
    split at made
    · cases made
    · cases made
      exact .inr (by simp)
  · rw [relative?_eq] at relative
    obtain ⟨directory, -, made⟩ := Option.bind_eq_some_iff.1 relative
    obtain ⟨steps, -, rfl⟩ := Option.map_eq_some_iff.1 made
    exact pointed_wayText steps

end Specifier

theorem Anchors.Anchored.pointed {root origin base : Path} {layout : Layout} {specifier rest : String}
    {strategy : Strategy} (anchored : Anchors.Anchored root layout specifier origin strategy base rest)
    (unaliased : strategy ≠ .aliasPrefixed) : Imports.Pointed specifier.toList := by
  cases anchored with
  | relative dotted _ =>
    refine .inl ?_
    simp only [Specifier.isRelative, Bool.or_eq_true, beq_iff_eq, List.isPrefixOf_iff_prefix] at dotted
    rcases dotted with ((⟨rest, here⟩ | ⟨rest, up⟩) | rfl) | rfl
    · rw [← here]
      rfl
    · rw [← up]
      rfl
    · rfl
    · rfl
  | aliased => exact absurd rfl unaliased
  | rooted _ _ split =>
    rw [split]
    exact .inr rfl

namespace Project

section

variable {project : Project} {d : Disk} {relocated : Progress} {row : Path × List Edit}
  (inside : row ∈ project.editsAfter (project.survey d) relocated)

include inside

theorem edits_pointed {edit : Edit} (planned : edit ∈ row.2) :
    Imports.Pointed edit.raw.toList ∧ Imports.Pointed edit.replacement.toList := by
  rw [Specifier.rewrites_row _ _ _ inside, Specifier.mem_collected_iff] at planned
  obtain ⟨edge, member, _, _, _, stale, -, raw, -, computed⟩ :=
    (Specifier.mem_calls_iff _ _ _ _ _).1 (List.mem_of_find?_eq_some planned)
  obtain ⟨file, base, rest, anchored⟩ := edges_anchored member
  rw [raw]
  exact ⟨(Anchors.anchored_of_anchor _ _ _ _ anchored).pointed stale.written,
    Specifier.pointed_of_replacementFor computed⟩

theorem written_of_planned {edits : List Edit} (chosen : edits ⊆ row.2) {edit : Edit} (planned : edit ∈ edits) :
    written edits edit.raw = edit.replacement := by
  have distinct : (row.2.map Edit.raw).Nodup := by
    rw [Specifier.rewrites_row _ _ _ inside]
    exact Specifier.nodup_collected _
  unfold written
  cases found : edits.find? fun other => other.raw == edit.raw with
  | none => simpa using List.find?_eq_none.1 found edit planned
  | some other =>
    have same := List.find?_some found
    have equal := List.inj_on_of_nodup_map distinct (chosen (List.mem_of_find?_eq_some found)) (chosen planned)
      (by simpa using same)
    rw [equal]
    rfl

end

/-- An import that a run gives a new specifier is read back in its place with this specifier, exactly if this holds
neither quotes nor newlines and what opens the import did not stand in another specifier that opens nothing any
more. -/
theorem planned_read_back_iff (project : Project) (carrier : Carrier) (d : Disk) {row : Path × List Edit}
    (inside : row ∈ project.editsAfter (project.survey d)
      (project.relocateAll carrier (project.survey d) ⟨d, []⟩))
    {edits : List Edit} (chosen : edits ⊆ row.2) {edit : Edit} (planned : edit ∈ edits) {text : String}
    {early late : List Import} {i : Import} (found : Import.list text = early ++ i :: late)
    (named : i.specifier = edit.raw) :
    (∃ i' ∈ Import.list (rewriteImports edits text), i'.specifier = edit.replacement ∧
      (i'.start : Int) = i.start + Imports.drift edits early) ↔
    (∀ c ∈ edit.replacement.toList, Imports.isSpecifierChar c = true) ∧
      ∀ j ∈ early, j.stop + 1 = i.start -> Imports.OpensNext (written edits j.specifier).toList := by
  have spelt : written edits i.specifier = edit.replacement := by
    rw [named]
    exact written_of_planned inside chosen planned
  rw [← spelt]
  refine Imports.written_told_iff (fun other member => (edits_pointed inside (chosen member)).1) found ?_
  rw [spelt]
  exact (edits_pointed inside (chosen planned)).2

def importing : Disk where
  tree := .row "" (some (.folder Disk.newFolderMode ⟨1, 0⟩)) (.row "project"
    (some (.folder Disk.newFolderMode ⟨1, 0⟩)) (.row "downloads" (some (.folder Disk.newFolderMode ⟨1, 0⟩))
      (.row "card.ts" (some (.file "".toUTF8 Disk.newFileMode ⟨1, 0⟩)) .bare .bare)
      (.row "src" (some (.folder Disk.newFolderMode ⟨1, 0⟩))
        (.row "app.ts" (some (.file "import '../downloads/card'".toUTF8 Disk.newFileMode ⟨1, 0⟩)) .bare .bare) .bare))
      .bare) .bare
  home := ["project"]
  privileged := true
  now := ⟨2, 0⟩

def fallingBack (name : String) : Project :=
  ⟨⟨"/project"⟩, { Layout.usual with requiredDirs := [], destinations := [], fallbackDir := ⟨"src/" ++ name⟩ }, .usual⟩

theorem fallingBack_edits (name : String) (known : name = "lib" ∨ name = "it's") :
    (⟨"/project/src/app.ts"⟩, [⟨"../downloads/card", "./" ++ name ++ "/card"⟩]) ∈
      (fallingBack name).editsAfter ((fallingBack name).survey importing)
        ((fallingBack name).relocateAll ⟨"stamp", []⟩ ((fallingBack name).survey importing) ⟨importing, []⟩) := by
  rcases known with rfl | rfl <;> decide +kernel

theorem importing_list : Import.list "import '../downloads/card'" = [⟨"../downloads/card", 1, 8, 25⟩] := by
  rw [Import.list, Imports.occurrences_of_gathered _ (by decide +kernel)]
  decide +kernel

theorem lib_read_back :
    (⟨"/project/src/app.ts"⟩, [⟨"../downloads/card", "./lib/card"⟩]) ∈
      (fallingBack "lib").editsAfter ((fallingBack "lib").survey importing)
        ((fallingBack "lib").relocateAll ⟨"stamp", []⟩ ((fallingBack "lib").survey importing) ⟨importing, []⟩) ∧
    ([⟨"../downloads/card", "./lib/card"⟩] : List Edit) ⊆ [⟨"../downloads/card", "./lib/card"⟩] ∧
    Import.list "import '../downloads/card'" = [] ++ ⟨"../downloads/card", 1, 8, 25⟩ :: [] ∧
    ∃ i ∈ Import.list (rewriteImports [⟨"../downloads/card", "./lib/card"⟩] "import '../downloads/card'"),
      i.specifier = "./lib/card" ∧ i.start = 8 := by
  have planned := fallingBack_edits "lib" (.inl rfl)
  refine ⟨planned, fun _ member => member, importing_list, ?_⟩
  have split : Import.list "import '../downloads/card'" = [] ++ ⟨"../downloads/card", 1, 8, 25⟩ :: [] := importing_list
  have read := planned_read_back_iff (fallingBack "lib") ⟨"stamp", []⟩ importing planned (fun _ member => member)
    List.mem_cons_self split rfl
  obtain ⟨i, member, specifier, start⟩ := read.2 ⟨by simp [Imports.isSpecifierChar, Imports.isQuote], by simp⟩
  simp only [Imports.drift, List.foldr_nil] at start
  exact ⟨i, member, specifier, by omega⟩

theorem not_planned_always_read_back :
    ¬ ∀ (project : Project) (carrier : Carrier) (d : Disk), ∀ row ∈ project.editsAfter (project.survey d)
      (project.relocateAll carrier (project.survey d) ⟨d, []⟩), ∀ edit ∈ row.2, ∀ text,
      (project.relocateAll carrier (project.survey d) ⟨d, []⟩).site.disk.text? row.1 = some text ->
      ∀ i ∈ Import.list text, i.specifier = edit.raw ->
        ∃ i' ∈ Import.list (rewriteImports row.2 text), i'.specifier = edit.replacement := by
  intro always
  have planned := fallingBack_edits "it's" (.inr rfl)
  obtain ⟨i, member, specifier⟩ := always (fallingBack "it's") ⟨"stamp", []⟩ importing _ planned _
    List.mem_cons_self "import '../downloads/card'" (by decide +kernel) ⟨"../downloads/card", 1, 8, 25⟩
    (by rw [importing_list]; exact List.mem_cons_self) rfl
  -- What is read back holds no quotes, and what was written does.
  obtain ⟨m, -, spans, rfl⟩ := Imports.mem_list _ _ member
  have spelt : m.specifier = "./it's/card".toList := by
    simpa [Imports.Occurrence.toImport] using congrArg String.toList specifier
  have inside := spans.inside '\'' (by rw [spelt]; decide)
  cases inside

end Project

end Stowage

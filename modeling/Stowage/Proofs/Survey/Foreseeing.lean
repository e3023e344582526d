import Stowage.Command.Run
import Stowage.Proofs.Disk.Listing
import Stowage.Proofs.Survey.Covering

set_option autoImplicit false

namespace Stowage

def Disk.isReadable (d : Disk) (path : Path) : Bool :=
  (d.stat path).toOption.isSome && (d.read path).toOption.isSome

namespace Inventory

theorem isSome_readRecord (d : Disk) (path : Path) (standing : Standing) :
    (readRecord d path standing).toOption.isSome = d.isReadable path := by
  unfold readRecord Disk.isReadable
  cases d.stat path with
  | error problem => rfl
  | ok stat => cases d.read path <;> rfl

theorem recorded_eq (d : Disk) (candidates : List (Path × Standing)) :
    (candidates.filterMap fun path => (readRecord d path.1 path.2).toOption.map Reading.record).map FileRecord.path =
      (candidates.map Prod.fst).filter d.isReadable := by
  induction candidates with
  | nil => rfl
  | cons candidate rest ih =>
    obtain ⟨path, standing⟩ := candidate
    have known := isSome_readRecord d path standing
    rw [List.map_cons, List.filter_cons, ← ih, ← known]
    cases read : readRecord d path standing with
    | error reason => simp [read, Except.toOption]
    | ok reading =>
      obtain ⟨-, own, -⟩ := readRecord_tells d path standing reading read
      simp [read, Except.toOption, own]

theorem entry_gap (d : Disk) (layout : Layout) (path : Path) (standing : Standing) :
    (∀ gap ∈ (entry d layout path standing).gap, gap.issue.file = path) ∧
      (d.isReadable path = false -> (entry d layout path standing).gap.isSome = true) := by
  rw [← isSome_readRecord d path standing]
  unfold entry
  cases readRecord d path standing with
  | error reason => simp [Gap.issue]
  | ok reading =>
    refine ⟨?_, fun impossible => by simp [Except.toOption] at impossible⟩
    simp only
    split
    · cases reading.text <;> simp [Gap.issue]
    · simp

theorem unread_sublist (d : Disk) (layout : Layout) (candidates : List (Path × Standing)) :
    ((candidates.map Prod.fst).filter fun path => !d.isReadable path).Sublist
      ((candidates.filterMap fun path => (entry d layout path.1 path.2).gap).map fun gap => gap.issue.file) := by
  induction candidates with
  | nil => exact List.Sublist.refl _
  | cons candidate rest ih =>
    obtain ⟨path, standing⟩ := candidate
    obtain ⟨own, left⟩ := entry_gap d layout path standing
    rw [List.map_cons, List.filter_cons]
    cases gap : (entry d layout path standing).gap with
    | none =>
      have readable : d.isReadable path = true := by
        by_contra unread
        simp [gap] at left
        exact unread left
      simpa [gap, readable] using ih
    | some gap' =>
      have told := List.filterMap_cons_some (f := fun path : Path × Standing => (entry d layout path.1 path.2).gap)
        (l := rest) (a := (path, standing)) gap
      rw [told, List.map_cons, own gap' gap]
      split_ifs
      · exact ih.cons_cons path
      · exact ih.cons path

end Inventory

namespace Project

/-- What a survey tells of the files it looks at. It has a record of each, in their order, or an error of reading
it; and such an error is told besides only of a directory that was closed, and of a destination that could not be
compared with a file of which there is a record. -/
structure Covers (project : Project) (d : Disk) (files : List Path) : Prop where
  recorded : (project.survey d).records.map FileRecord.path = files.filter d.isReadable
  unread : (files.filter fun file => !d.isReadable file).Sublist
    (((project.survey d).issues.filter fun issue => issue.kind = .readError).map Issue.file)
  only : ∀ issue ∈ (project.survey d).issues, issue.kind = .readError -> issue.file ∈ files ∨
    (∃ standing problem, Sighting.closed issue.file problem ∈ d.explore project.excludes (project.folderOf standing)) ∨
    ∃ record ∈ (project.survey d).records, ∃ problem, issue = cannotCompare record issue.file problem

theorem candidates_files (project : Project) (d : Disk) :
    (Inventory.candidates d project.layout project.excludes project.root).map Prod.fst =
      Surroundings.scannedFiles d project.layout project.excludes project.root := by
  simp [Inventory.candidates, Surroundings.scannedFiles, Function.comp_def]

theorem finding_issue (project : Project) (d : Disk) (record : FileRecord) (issue : Issue)
    (told : (project.finding d record).issue = some issue) :
    ∃ problem, issue = cannotCompare record issue.file problem := by
  unfold finding at told
  split at told
  · cases told
  · simp only at told
    split at told
    · cases told
    · split at told
      · cases told
      next problem _ =>
        cases told
        exact ⟨problem, rfl⟩

theorem gap_file (project : Project) (d : Disk) (gap : Gap)
    (left : gap ∈ (Inventory.take d project.layout project.excludes project.root).gaps) :
    gap.issue.file ∈ (Inventory.candidates d project.layout project.excludes project.root).map Prod.fst ∨
      ∃ standing problem,
        Sighting.closed gap.issue.file problem ∈ d.explore project.excludes (project.folderOf standing) := by
  rw [Inventory.gaps_eq] at left
  rcases List.mem_append.1 left with closed | unread
  · obtain ⟨sighting, seen, made⟩ := List.mem_filterMap.1 closed
    right
    cases sighting with
    | file path => cases made
    | closed path problem =>
      cases made
      rcases List.mem_append.1 seen with staged | placed
      · exact ⟨.staged, problem, staged⟩
      · exact ⟨.inPlace, problem, placed⟩
  · obtain ⟨⟨path, standing⟩, member, unread⟩ := List.mem_filterMap.1 unread
    left
    rw [(Inventory.entry_gap d project.layout path standing).1 gap unread]
    exact List.mem_map.2 ⟨_, member, rfl⟩

theorem survey_covers (project : Project) (d : Disk) :
    project.Covers d (Surroundings.scannedFiles d project.layout project.excludes project.root) := by
  rw [← candidates_files]
  have issues : (project.survey d).issues = (Inventory.take d project.layout project.excludes project.root).gaps.map
      Gap.issue ++ (project.missingEdges d _).map brokenIssue ++
        ((project.survey d).records.map (project.finding d)).filterMap Finding.issue := rfl
  refine ⟨?_, ?_, ?_⟩
  · change (Inventory.take d project.layout project.excludes project.root).records.map _ = _
    rw [Inventory.records_eq, Inventory.recorded_eq]
  -- Issues come from gaps, missing imports and findings; those of gaps are the only ones of reading.
  · have kinds : ∀ gaps : List Gap, (gaps.map Gap.issue).filter (fun issue => issue.kind = .readError) =
        gaps.map Gap.issue := by
      intro gaps
      refine List.filter_eq_self.2 fun issue told => ?_
      obtain ⟨gap, -, rfl⟩ := List.mem_map.1 told
      simp [gap.kind_issue]
    refine (Inventory.unread_sublist d project.layout _).trans ?_
    rw [← Function.comp_def, ← List.map_map]
    refine List.Sublist.map _ ?_
    rw [issues, List.filter_append, List.filter_append, kinds, Inventory.gaps_eq, List.map_append]
    exact ((List.sublist_append_right _ _).trans (List.sublist_append_left _ _)).trans (List.sublist_append_left _ _)
  · intro issue told kind
    rw [issues, List.mem_append, List.mem_append] at told
    rcases told with (missed | broken) | compared
    · obtain ⟨gap, member, rfl⟩ := List.mem_map.1 missed
      exact (project.gap_file d gap member).imp_right .inl
    · obtain ⟨edge, -, rfl⟩ := List.mem_map.1 broken
      cases kind
    · obtain ⟨finding, member, told⟩ := List.mem_filterMap.1 compared
      obtain ⟨record, known, rfl⟩ := List.mem_map.1 member
      obtain ⟨problem, same⟩ := finding_issue project d record issue told
      exact .inr (.inr ⟨record, known, problem, same⟩)

end Project

def Path.SameBelow (dir root other : Path) (files files' : List Path) : Prop :=
  ∃ ways : List (List String), (∀ way ∈ ways, ∀ name ∈ way, Path.IsName name) ∧
    files = ways.map (fun way => root.join (dir.joins way)) ∧
    files' = ways.map (fun way => other.join (dir.joins way))

theorem Path.sameBelow_iff {dir root other : Path} (filled : root.text ≠ "") (filled' : other.text ≠ "")
    {ways : List (List String)} (named : ∀ way ∈ ways, ∀ name ∈ way, Path.IsName name)
    (keeps keeps' : List String -> Bool) :
    dir.SameBelow root other ((ways.filter keeps).map (root.join dir).joins)
        ((ways.filter keeps').map (other.join dir).joins) ↔
      ∀ way ∈ ways, keeps way = keeps' way := by
  have kept : ∀ keeps : List String -> Bool, ∀ way ∈ ways.filter keeps, ∀ name ∈ way, Path.IsName name :=
    fun keeps way inside => named way (List.mem_of_mem_filter inside)
  have joined : ∀ {base : Path}, base.text ≠ "" -> ∀ {ways : List (List String)},
      (∀ way ∈ ways, ∀ name ∈ way, Path.IsName name) ->
      ways.map (base.join dir).joins = ways.map fun way => base.join (dir.joins way) :=
    fun filled _ named => List.map_congr_left fun way inside => Path.joins_join filled dir (named way inside)
  constructor
  · rintro ⟨others, named', left, right⟩
    rw [← joined filled named'] at left
    rw [← joined filled' named'] at right
    have same := Path.map_joins_injective (Path.join_filled filled dir) (kept keeps) named' left
    have same' := Path.map_joins_injective (Path.join_filled filled' dir) (kept keeps') named' right
    have equal := same.trans same'.symm
    intro way inside
    rw [Bool.eq_iff_iff]
    have known : ∀ keeps : List String -> Bool, keeps way = true ↔ way ∈ ways.filter keeps := by
      simp [inside]
    rw [known, known, equal]
  · intro alike
    refine ⟨ways.filter keeps, kept keeps, joined filled (kept keeps), ?_⟩
    rw [← joined filled' (kept keeps), List.filter_congr alike]

def Layout.walked (layout : Layout) : Standing -> Path
  | .staged => layout.stagingDir
  | .inPlace => layout.sourceDir

def Inventory.filesOf (d : Disk) (layout : Layout) (excludes : Excludes) (root : Path) : Standing -> List Path
  | .staged => stagedFiles d layout excludes root
  | .inPlace => placedFiles d layout excludes root

def Inventory.waysOf (d : Disk) (layout : Layout) (root : Path) : Standing -> List (List String)
  | .staged => d.listing (root.join layout.stagingDir)
  | .inPlace => (d.listing (root.join layout.sourceDir)).filter fun way =>
      layout.isSource ((root.join layout.sourceDir).joins way).extension

/-- No limit of the system tells two paths to a root apart: what is walked is reached by both or by neither, and
no directory in it is too far down for its path. -/
structure Layout.Alike (layout : Layout) (d : Disk) (root other : Path) : Prop where
  reached : ∀ standing,
    d.isFolder (root.join (layout.walked standing)) = d.isFolder (other.join (layout.walked standing))
  spacious : ∀ standing, d.Spacious (root.join (layout.walked standing)) ∧
    d.Spacious (other.join (layout.walked standing))

namespace Project

def ListsAlike (project : Project) (d : Disk) (root : Path) : Prop :=
  ∀ standing, (project.layout.walked standing).SameBelow root project.root
    (Inventory.filesOf d project.layout project.excludes root standing)
    (Inventory.filesOf d project.layout project.excludes project.root standing)

/-- Seen from the root, what a scan lists is what the survey tells of. -/
def Foretold (project : Project) (d : Disk) (root : Path) : Prop :=
  ∃ files : List Path,
    Surroundings.scannedFiles d project.layout project.excludes root = files.map root.join ∧
      project.Covers d (files.map project.root.join)

theorem foretold_of_listsAlike {project : Project} {d : Disk} {root : Path} (alike : project.ListsAlike d root) :
    project.Foretold d root := by
  obtain ⟨staged, -, own, own'⟩ := alike .staged
  obtain ⟨placed, -, same, same'⟩ := alike .inPlace
  have parts : ∀ p, Surroundings.scannedFiles d project.layout project.excludes p =
      Inventory.filesOf d project.layout project.excludes p .staged ++
        Inventory.filesOf d project.layout project.excludes p .inPlace := fun _ => rfl
  refine ⟨staged.map project.layout.stagingDir.joins ++ placed.map project.layout.sourceDir.joins, ?_, ?_⟩
  · rw [parts, own, same, List.map_append, List.map_map, List.map_map]
    rfl
  · have covers := project.survey_covers d
    rw [parts, own', same'] at covers
    rwa [List.map_append, List.map_map, List.map_map]

section

variable {d : Disk} (sound : d.Sound)

include sound

theorem filesOf_eq {layout : Layout} {excludes : Excludes} {root : Path} {standing : Standing}
    (spacious : d.Spacious (root.join (layout.walked standing))) :
    Inventory.filesOf d layout excludes root standing =
      ((Inventory.waysOf d layout root standing).filter (excludes.keeps (root.join (layout.walked standing)))).map
        (root.join (layout.walked standing)).joins := by
  have files := Disk.files_eq sound excludes spacious
  cases standing with
  | staged => exact files
  | inPlace =>
    unfold Inventory.filesOf Inventory.placedFiles Inventory.waysOf
    simp only [Layout.walked] at files ⊢
    rw [files, List.filter_map, List.filter_filter, List.filter_filter]
    congr 1
    refine List.filter_congr fun way _ => ?_
    rw [Bool.and_comm]
    rfl

theorem named_waysOf {layout : Layout} {root : Path} {standing : Standing} {way : List String}
    (listed : way ∈ Inventory.waysOf d layout root standing) : way ≠ [] ∧ ∀ name ∈ way, Path.IsName name := by
  cases standing with
  | staged => exact Disk.mem_listing sound listed
  | inPlace => exact Disk.mem_listing sound (List.mem_of_mem_filter listed)

variable {root : Path} {project : Project}
  (entered : enter d root project.layout project.excludes = .ok project) (opened : d.isFolder root = true)

include entered opened

theorem root_found : ∃ place mode modified, d.find root = .ok (place, .folder mode modified) ∧
    d.find project.root = .ok (place, .folder mode modified) := by
  obtain ⟨place, mode, modified, found⟩ := Disk.find_of_isFolder opened
  have held := Disk.find_node d root place _ found
  unfold enter at entered
  split at entered
  · cases entered
  next own canonical =>
    split at entered
    next folder =>
      obtain ⟨rfl⟩ : own = project.root := congrArg Project.root (Except.ok.inj entered)
      obtain ⟨there, mode', modified', found'⟩ := Disk.find_of_isFolder folder
      rw [Disk.canonical_eq canonical found] at found'
      obtain rfl := sound.find_path ⟨mode, modified, held⟩ found'
      cases held.symm.trans (Disk.find_node d _ there _ found')
      rw [← Disk.canonical_eq canonical found] at found'
      exact ⟨there, mode, modified, found, found'⟩
    · cases entered

theorem waysOf_root {standing : Standing} (reached : d.isFolder (root.join (project.layout.walked standing)) =
      d.isFolder (project.root.join (project.layout.walked standing))) :
    Inventory.waysOf d project.layout root standing = Inventory.waysOf d project.layout project.root standing := by
  obtain ⟨place, mode, modified, found, found'⟩ := root_found sound entered opened
  have listed : d.listing (root.join (project.layout.walked standing)) =
      d.listing (project.root.join (project.layout.walked standing)) := by
    cases folder : d.isFolder (project.root.join (project.layout.walked standing)) with
    | false => rw [Disk.listing_of_closed folder, Disk.listing_of_closed (reached.trans folder)]
    | true =>
      obtain ⟨there, _, _, onward⟩ := Disk.find_of_isFolder (reached.trans folder)
      obtain ⟨there', _, _, onward'⟩ := Disk.find_of_isFolder folder
      have same := Disk.find_join_unique found found' onward onward'
      rw [Disk.listing, Disk.listing, onward, onward', same]
  cases standing with
  | staged => exact listed
  | inPlace =>
    unfold Inventory.waysOf
    simp only [Layout.walked] at listed
    rw [listed]
    refine List.filter_congr fun way inside => ?_
    obtain ⟨below, named⟩ := Disk.mem_listing sound inside
    rw [Path.extension_joins _ _ below named]

/-- A scan lists what the survey tells of, if and only if of all files there are no pattern leaves out one by the
path that goes on from the root as it was given and keeps it by the other path, or the other way around. -/
theorem scan_foretells_iff (alike : project.layout.Alike d root project.root) :
    (project.ListsAlike d root ↔ ∀ standing, ∀ way ∈ Inventory.waysOf d project.layout project.root standing,
      project.excludes.keeps (root.join (project.layout.walked standing)) way =
        project.excludes.keeps (project.root.join (project.layout.walked standing)) way) ∧
    (project.ListsAlike d root -> project.Foretold d root) := by
  obtain ⟨place, mode, modified, found, found'⟩ := root_found sound entered opened
  refine ⟨forall_congr' fun standing => ?_, foretold_of_listsAlike⟩
  obtain ⟨spacious, spacious'⟩ := alike.spacious standing
  rw [filesOf_eq sound spacious, filesOf_eq sound spacious',
    waysOf_root sound entered opened (alike.reached standing)]
  exact Path.sameBelow_iff (Disk.filled_of_find found) (Disk.filled_of_find found')
    (fun way listed => (named_waysOf sound listed).2) _ _

end

def surveyed : Disk :=
  ((((((⟨.bare, ["project"], true, ⟨5, 0⟩⟩ : Disk).put [] (.folder 0o755 ⟨1, 0⟩)).put ["project"]
    (.folder 0o755 ⟨1, 0⟩)).put ["project", "downloads"] (.folder 0o755 ⟨1, 0⟩)).put ["project", "src"]
    (.folder 0o755 ⟨1, 0⟩)).put ["project", "downloads", "a.ts"] (.file "a".toUTF8 0o644 ⟨2, 0⟩)).put
    ["project", "src", "b.ts"] (.file "b".toUTF8 0o644 ⟨2, 0⟩)

def excluding (patterns : List String) : Excludes := (Excludes.read patterns true).toOption.getD .usual

def ownProject (patterns : List String) : Project := ⟨⟨"/project"⟩, .usual, excluding patterns⟩

theorem surveyed_entered (patterns : List String) :
    enter surveyed ⟨"."⟩ (ownProject patterns).layout (ownProject patterns).excludes =
      .ok (ownProject patterns) := by
  have canonical : surveyed.canonical ⟨"."⟩ = .ok ⟨"/project"⟩ := Except.eq_ok_of_toOption (by decide +kernel)
  have folder : surveyed.isFolder ⟨"/project"⟩ = true := by decide +kernel
  unfold enter
  simp only [canonical, folder, if_true]
  rfl

theorem surveyed_alike : Layout.usual.Alike surveyed ⟨"."⟩ ⟨"/project"⟩ := by
  refine ⟨fun standing => ?_, fun standing => ?_⟩
  · cases standing <;> decide +kernel
  · cases standing <;> exact ⟨by decide +kernel, by decide +kernel⟩

theorem surveyed_foretold : (ownProject ["*/b.ts"]).Foretold surveyed ⟨"."⟩ := by
  have sound : surveyed.Regular := by decide +kernel
  obtain ⟨alike, foretold⟩ := scan_foretells_iff sound.toSound
    (surveyed_entered ["*/b.ts"]) (by decide +kernel) surveyed_alike
  refine foretold (alike.2 fun standing => ?_)
  cases standing <;> decide +kernel

theorem not_scan_always_foretells :
    ¬ ∀ (d : Disk) (root : Path) (project : Project), d.Sound ->
      enter d root project.layout project.excludes = .ok project -> d.isFolder root = true ->
      project.layout.Alike d root project.root -> project.Foretold d root := by
  intro always
  have sound : surveyed.Regular := by decide +kernel
  obtain ⟨files, listed, covers⟩ := always surveyed ⟨"."⟩ (ownProject ["./downloads/a.ts"]) sound.toSound
    (surveyed_entered ["./downloads/a.ts"]) (by decide +kernel) surveyed_alike
  have one : (Surroundings.scannedFiles surveyed .usual (excluding ["./downloads/a.ts"]) ⟨"."⟩).length = 1 := by
    decide +kernel
  have two : ((ownProject ["./downloads/a.ts"]).survey surveyed).records.length = 2 := by decide +kernel
  have fewer := List.length_filter_le surveyed.isReadable (files.map (ownProject ["./downloads/a.ts"]).root.join)
  rw [← covers.recorded, List.length_map, List.length_map, two] at fewer
  have same := congrArg List.length listed
  rw [List.length_map] at same
  have few : files.length = 1 := same.symm.trans one
  omega

end Project

end Stowage

import Stowage.Proofs.Disk.Walks
import Stowage.Proofs.Path.Endings
import Stowage.Proofs.Path.Ordering
import Stowage.Proofs.Relocation.Moving
import Stowage.Proofs.Survey.Readings
import Stowage.Survey

set_option autoImplicit false

namespace Stowage

theorem sublist_filterMap {Source Target Key : Type} (pick : Source -> Option Target)
    (key : Source -> Key) (key' : Target -> Key)
    (same : ∀ source target, pick source = some target -> key' target = key source)
    (list : List Source) : ((list.filterMap pick).map key').Sublist (list.map key) := by
  induction list with
  | nil => exact List.Sublist.refl _
  | cons source rest ih =>
    cases picked : pick source with
    | none =>
      rw [List.filterMap_cons_none picked, List.map_cons]
      exact ih.cons _
    | some target =>
      rw [List.filterMap_cons_some picked, List.map_cons, List.map_cons, same source target picked]
      exact ih.cons_cons _

deriving instance DecidableEq for Plan

/-- A project whose paths are plain and whose staged files and sources are kept apart. -/
structure Project.Orderly (project : Project) : Prop where
  root : project.root.Plain
  staging : project.layout.stagingDir.Inner
  source : project.layout.sourceDir.Inner
  destinations : ∀ row ∈ project.layout.destinations, row.2.Inner
  fallback : project.layout.fallbackDir.Inner
  apart : ¬ project.layout.stagingDir.components.IsPrefix project.layout.sourceDir.components
  apart' : ¬ project.layout.sourceDir.components.IsPrefix project.layout.stagingDir.components

instance (project : Project) : Decidable project.Orderly :=
  decidable_of_iff
    (project.root.Plain ∧ project.layout.stagingDir.Inner ∧ project.layout.sourceDir.Inner ∧
      (∀ row ∈ project.layout.destinations, row.2.Inner) ∧ project.layout.fallbackDir.Inner ∧
      ¬ project.layout.stagingDir.components.IsPrefix project.layout.sourceDir.components ∧
      ¬ project.layout.sourceDir.components.IsPrefix project.layout.stagingDir.components)
    ⟨fun ⟨root, staging, source, destinations, fallback, apart, apart'⟩ =>
        ⟨root, staging, source, destinations, fallback, apart, apart'⟩,
      fun orderly => ⟨orderly.root, orderly.staging, orderly.source, orderly.destinations,
        orderly.fallback, orderly.apart, orderly.apart'⟩⟩

theorem Project.orderly_usual (root : Path) (excludes : Excludes) (plain : root.Plain) :
    Project.Orderly ⟨root, .usual, excludes⟩ := by
  have dirs : Layout.usual.stagingDir.Inner ∧ Layout.usual.sourceDir.Inner ∧
      Layout.usual.fallbackDir.Inner := by decide +kernel
  have rows : ∀ row ∈ Layout.usual.destinations, row.2.Inner := by decide +kernel
  have apart : ¬ Layout.usual.stagingDir.components.IsPrefix Layout.usual.sourceDir.components ∧
      ¬ Layout.usual.sourceDir.components.IsPrefix Layout.usual.stagingDir.components := by
    decide +kernel
  exact ⟨plain, dirs.1, dirs.2.1, rows, dirs.2.2, apart.1, apart.2⟩

theorem readRecord_file (d : Disk) (regular : d.Regular) (path : Path) (standing : Standing)
    (reading : Reading) (read : readRecord d path standing = .ok reading) : Carrier.HasFile d path ∧
      ∃ content, d.contents (path.place d.home) = some content ∧
        reading.record.digest = Sha256.hex content ∧
        reading.record.classification = .ofContent content path.extension ∧
        reading.text = String.fromUTF8? content := by
  obtain ⟨stat, content, -, held, rfl⟩ := readRecord_ok d path standing reading read
  obtain ⟨own, mode, modified, found⟩ := Disk.contents_of_read d regular path content held
  exact ⟨⟨content, mode, modified, found⟩, content, own, rfl, rfl, rfl⟩

theorem readRecord_eq {d : Disk} {path : Path} {content : ByteArray} (held : d.read path = .ok content) :
    ∃ stat, d.stat path = .ok stat ∧ ∀ standing, readRecord d path standing =
      .ok ⟨⟨path, path.extension, Sha256.hex content, stat.modified, stat.size, standing,
        .ofContent content path.extension⟩, Classification.decodeText content⟩ := by
  obtain ⟨place, mode, modified, found⟩ := Disk.find_of_read d path content held
  have asked : d.stat path = .ok ⟨false, content.size, modified⟩ := by simp [Disk.stat, found]
  exact ⟨_, asked, fun standing => by simp [readRecord, asked, held]⟩

theorem FileRecord.Tells.file {record : FileRecord} {d : Disk} (regular : d.Regular)
    (tells : record.Tells d) : Carrier.HasFile d record.path ∧
      ∃ content, d.contents (record.path.place d.home) = some content ∧
        record.digest = Sha256.hex content ∧
        record.classification = .ofContent content record.path.extension := by
  obtain ⟨text, read⟩ := tells
  obtain ⟨held, content, own, digest, verdict, -⟩ := readRecord_file d regular _ _ _ read
  exact ⟨held, content, own, digest, verdict⟩

namespace Inventory

theorem entry_record (d : Disk) (layout : Layout) (path : Path) (standing : Standing) :
    (entry d layout path standing).record =
      (readRecord d path standing).toOption.map Reading.record := by
  unfold entry
  cases readRecord d path standing with
  | error reason => rfl
  | ok reading =>
    simp only
    split
    · split <;> rfl
    · rfl

def candidates (d : Disk) (layout : Layout) (excludes : Excludes) (root : Path) :
    List (Path × Standing) :=
  (stagedFiles d layout excludes root).map (·, .staged) ++
    (placedFiles d layout excludes root).map (·, .inPlace)

theorem records_eq (d : Disk) (layout : Layout) (excludes : Excludes) (root : Path) :
    (take d layout excludes root).records = (candidates d layout excludes root).filterMap fun path =>
      (readRecord d path.1 path.2).toOption.map Reading.record := by
  have read : ∀ standing, (fun path => (entry d layout path standing).record) =
      fun path => (readRecord d path standing).toOption.map Reading.record := fun standing =>
    funext fun path => entry_record d layout path standing
  simp only [take, candidates, List.filterMap_append, List.filterMap_map, Function.comp_def, read]

theorem sources_eq (d : Disk) (layout : Layout) (excludes : Excludes) (root : Path) :
    (take d layout excludes root).sources = (candidates d layout excludes root).filterMap fun path =>
      (entry d layout path.1 path.2).source := by
  simp only [take, candidates, List.filterMap_append, List.filterMap_map, Function.comp_def]

theorem gaps_eq (d : Disk) (layout : Layout) (excludes : Excludes) (root : Path) :
    (take d layout excludes root).gaps =
      (d.explore excludes (root.join layout.stagingDir) ++
          d.explore excludes (root.join layout.sourceDir)).filterMap closedGap? ++
        (candidates d layout excludes root).filterMap fun path => (entry d layout path.1 path.2).gap := by
  simp only [take, candidates, List.filterMap_append, List.filterMap_map, Function.comp_def]

end Inventory

namespace Project

def inventory (project : Project) (d : Disk) : Inventory :=
  .take d project.layout project.excludes project.root

theorem mem_files (d : Disk) (regular : d.Regular) (excludes : Excludes) (folder path : Path)
    (plain : folder.Plain) (member : path ∈ d.files excludes folder) :
    folder.Below path ∧ Disk.endsInName path = true := by
  unfold Disk.files Disk.explore at member
  split at member
  · exact d.mem_walked regular.toSound excludes _ folder path plain.isAbsolute member
  · cases member

theorem nodup_files (d : Disk) (regular : d.Regular) (excludes : Excludes) (folder : Path)
    (plain : folder.Plain) : ((d.files excludes folder).map Path.components).Nodup := by
  unfold Disk.files Disk.explore
  split
  · exact d.nodup_walked regular.toSound excludes _ folder plain.isAbsolute
  · exact List.nodup_nil

theorem told_of_record (project : Project) (d : Disk) (record : FileRecord)
    (member : record ∈ (project.survey d).records) : record.Tells d ∧ (record.path, record.standing) ∈
      Inventory.candidates d project.layout project.excludes project.root := by
  change record ∈ (Inventory.take d project.layout project.excludes project.root).records at member
  rw [Inventory.records_eq] at member
  obtain ⟨⟨path, standing⟩, inside, made⟩ := List.mem_filterMap.1 member
  obtain ⟨reading, read, rfl⟩ := Option.map_eq_some_iff.1 made
  obtain ⟨tells, rfl, rfl⟩ := readRecord_tells d path standing reading (Except.eq_ok_of_toOption read)
  exact ⟨tells, inside⟩

theorem mem_sources_iff (project : Project) (d : Disk) (path : Path) (text : String) :
    (path, text) ∈ (project.inventory d).sources ↔ ∃ standing content, (path, standing) ∈
        Inventory.candidates d project.layout project.excludes project.root ∧
      d.read path = .ok content ∧ project.layout.isSource path.extension = true ∧
        Classification.decodeText content = some text := by
  unfold inventory
  rw [Inventory.sources_eq, List.mem_filterMap]
  constructor
  · rintro ⟨⟨path', standing⟩, inside, made⟩
    unfold Inventory.entry at made
    split at made
    · cases made
    next reading read =>
      obtain ⟨stat, content, -, held, rfl⟩ := readRecord_ok d _ _ _ read
      split at made
      next isSource =>
        split at made
        next text' decoded =>
          cases made
          exact ⟨standing, content, inside, held, isSource, decoded⟩
        · cases made
      · cases made
  · rintro ⟨standing, content, inside, held, isSource, decoded⟩
    obtain ⟨stat, -, read⟩ := readRecord_eq held
    exact ⟨_, inside, by simp [Inventory.entry, read, isSource, decoded]⟩

theorem edge_made (project : Project) (d : Disk) (edge : Edge) (member : edge ∈ (project.survey d).edges) :
    ∃ source ∈ (project.inventory d).sources, ∃ found,
      project.anchors.edge? d.isFile source.1 found = some edge := by
  obtain ⟨source, inside, made⟩ := List.mem_flatMap.1 member
  obtain ⟨found, -, made⟩ := List.mem_filterMap.1 made
  exact ⟨source, inside, found, made⟩

theorem mem_records_of_read (project : Project) (d : Disk) {path : Path} {standing : Standing} {reading : Reading}
    (candidate : (path, standing) ∈ Inventory.candidates d project.layout project.excludes project.root)
    (read : readRecord d path standing = .ok reading) : reading.record ∈ (project.survey d).records := by
  change reading.record ∈ (Inventory.take d project.layout project.excludes project.root).records
  rw [Inventory.records_eq]
  exact List.mem_filterMap.2 ⟨_, candidate, by rw [read]; rfl⟩

section

variable {project : Project} (orderly : project.Orderly) {d : Disk} (regular : d.Regular)

include orderly regular

theorem mem_candidates (path : Path) (standing : Standing)
    (member : (path, standing) ∈
      Inventory.candidates d project.layout project.excludes project.root) :
    ∃ folder : Path, folder.Plain ∧ folder.Below path ∧ Disk.endsInName path = true := by
  rcases List.mem_append.1 member with staged | placed
  · obtain ⟨_, inside, same⟩ := List.mem_map.1 staged
    cases same
    have plain := orderly.root.join_plain orderly.staging
    exact ⟨_, plain, mem_files d regular _ _ path plain inside⟩
  · obtain ⟨_, inside, same⟩ := List.mem_map.1 placed
    cases same
    have plain := orderly.root.join_plain orderly.source
    exact ⟨_, plain, mem_files d regular _ _ path plain (List.mem_filter.1 inside).1⟩

theorem nodup_candidates :
    ((Inventory.candidates d project.layout project.excludes project.root).map fun candidate =>
      candidate.1.components).Nodup := by
  have plain := orderly.root.join_plain orderly.staging
  have plain' := orderly.root.join_plain orderly.source
  unfold Inventory.candidates Inventory.stagedFiles Inventory.placedFiles
  rw [List.map_append, List.map_map, List.map_map, List.nodup_append']
  refine ⟨nodup_files d regular _ _ plain,
    ((List.filter_sublist).map _).nodup (nodup_files d regular _ _ plain'), ?_⟩
  intro spelt member member'
  obtain ⟨path, inside, rfl⟩ := List.mem_map.1 member
  obtain ⟨path', inside', same⟩ := List.mem_map.1 member'
  obtain ⟨⟨names, -, below⟩, -⟩ := mem_files d regular _ _ path plain inside
  obtain ⟨⟨names', -, below'⟩, -⟩ := mem_files d regular _ _ path' plain' (List.mem_filter.1 inside').1
  simp only [Function.comp] at same
  -- A path both staged and in place would put one of the directories inside the other.
  rw [below, below', orderly.root.join orderly.staging, orderly.root.join orderly.source,
    List.append_assoc, List.append_assoc] at same
  have rest := List.append_cancel_left same
  have first := List.prefix_append project.layout.sourceDir.components (names'.map Component.name)
  have second := List.prefix_append project.layout.stagingDir.components (names.map Component.name)
  rw [rest] at first
  rcases List.prefix_or_prefix_of_prefix first second with nested | nested
  · exact orderly.apart' nested
  · exact orderly.apart nested

theorem mem_records (record : FileRecord) (member : record ∈ (project.survey d).records) :
    record.Tells d ∧ ∃ folder : Path, folder.Plain ∧ folder.Below record.path ∧
      Disk.endsInName record.path = true := by
  obtain ⟨tells, candidate⟩ := project.told_of_record d record member
  exact ⟨tells, mem_candidates orderly regular record.path record.standing candidate⟩

theorem nodup_records :
    ((project.survey d).records.map fun record => record.path.components).Nodup := by
  change ((Inventory.take d project.layout project.excludes project.root).records.map fun record =>
    record.path.components).Nodup
  rw [Inventory.records_eq]
  refine (sublist_filterMap _ (fun candidate => candidate.1.components) _ ?_ _).nodup
    (nodup_candidates orderly regular)
  intro candidate record made
  obtain ⟨reading, read, rfl⟩ := Option.map_eq_some_iff.1 made
  obtain ⟨-, own, -⟩ := readRecord_tells d _ _ reading (Except.eq_ok_of_toOption read)
  rw [own]

omit orderly regular in
theorem finding_plan (record : FileRecord) (plan : Plan)
    (planned : (project.finding d record).plan = some plan) :
    plan.source = record.path ∧
      destinationOf project.root project.layout record = some (plan.destination, plan.reason) ∧
      plan.destination.same plan.source = false := by
  unfold finding at planned
  split at planned
  · cases planned
  next destination reason known =>
    simp only at planned
    split at planned
    · cases planned
    next differs =>
      split at planned
      · cases planned
        exact ⟨rfl, known, by simpa using differs⟩
      · cases planned

omit orderly regular in
theorem survey_plans (d : Disk) : (project.survey d).plans =
    (project.survey d).records.filterMap fun record => (project.finding d record).plan := by
  simp only [survey, List.filterMap_map, Function.comp_def]

theorem nodup_plans : ((project.survey d).plans.map fun plan => plan.source.components).Nodup := by
  rw [survey_plans]
  refine (sublist_filterMap _ (fun record => record.path.components) _ ?_ _).nodup
    (nodup_records orderly regular)
  intro record plan planned
  rw [(finding_plan record plan planned).1]

theorem mem_plans (plan : Plan) (member : plan ∈ (project.survey d).plans) :
    ∃ record ∈ (project.survey d).records, plan.source = record.path ∧
      (project.survey d).record? plan.source = some record ∧
      destinationOf project.root project.layout record = some (plan.destination, plan.reason) ∧
      plan.destination.same plan.source = false := by
  rw [survey_plans] at member
  obtain ⟨record, inside, planned⟩ := List.mem_filterMap.1 member
  obtain ⟨source, known, differs⟩ := finding_plan record plan planned
  refine ⟨record, inside, source, ?_, known, differs⟩
  unfold Survey.record?
  cases first : (project.survey d).records.find? fun other => other.path.same plan.source with
  | none =>
    -- The record itself would have been found.
    have missed := List.find?_eq_none.1 first record inside
    rw [source] at missed
    exact absurd (beq_self_eq_true record.path.components) missed
  | some other =>
    have hit : other.path.same plan.source = true := by simpa using List.find?_some first
    have same : other.path.components = record.path.components := by
      rw [← source]
      exact eq_of_beq hit
    rw [List.inj_on_of_nodup_map (nodup_records orderly regular) (List.mem_of_find?_eq_some first)
      inside same]

end

theorem verdict_cases (signals : Signals) (current : String) :
    (Classification.verdict signals current).suggested = Classification.withMarkup ∨
      (Classification.verdict signals current).suggested = current := by
  unfold Classification.verdict
  repeat' split
  all_goals simp

theorem suggested_of_accepted (content : ByteArray) (extension : String) (threshold : Binary64)
    (accepted : (Classification.ofContent content extension).isAccepted threshold = true) :
    (Classification.ofContent content extension).suggested = Classification.withMarkup := by
  unfold Classification.ofContent at accepted ⊢
  split at accepted
  · simp [Classification.isAccepted_unreadable] at accepted
  next zeroFree =>
    rw [if_neg zeroFree]
    split at accepted
    next text decoded =>
      rcases verdict_cases (Signals.ofText text.toList) extension with markup | same
      · exact markup
      · simp [Classification.isAccepted, Classification.changesExtension, Classification.ofText, same]
          at accepted
    · simp [Classification.isAccepted_unreadable] at accepted

theorem destinationFor_inner (project : Project) (orderly : project.Orderly) (name : String)
    (named : Path.IsName name) : (project.layout.destinationFor name).Inner := by
  unfold Layout.destinationFor
  cases known : project.layout.destinations.lookup nameOrder name with
  | none => exact orderly.fallback.join_name named
  | some path =>
    obtain ⟨row, inside, -, rfl⟩ := Table.mem_of_lookup nameOrder name _ path known
    exact orderly.destinations row inside

theorem destinationOf_cases (project : Project) (orderly : project.Orderly) (d : Disk)
    (regular : d.Regular) (record : FileRecord) (tells : record.Tells d) (folder : Path)
    (plain : folder.Plain) (below : folder.Below record.path) (destination : Path) (reason : Reason)
    (known : destinationOf project.root project.layout record = some (destination, reason)) :
    destination.Plain ∨ destination.Climbs := by
  obtain ⟨-, content, -, -, verdict⟩ := tells.file regular
  -- A mapped destination is plain; it is the extension given to an accepted file that may make it climb.
  have extended : ∀ path : Path, path.Plain ->
      record.classification.isAccepted project.layout.threshold = true ->
      (path.withExtension record.classification.suggested).Plain ∨
        (path.withExtension record.classification.suggested).Climbs := by
    intro path plain accepted
    rw [verdict] at accepted ⊢
    rw [suggested_of_accepted content _ _ accepted]
    exact path.withExtension_cases plain _ (by decide) (by decide)
  unfold destinationOf at known
  simp only at known
  split at known
  · obtain ⟨name, named, isName⟩ := below.fileName?
    have mapped := orderly.root.join_plain (destinationFor_inner project orderly record.fileName (by
      rw [FileRecord.fileName, Path.fileName, named]
      exact isName))
    simp only [Option.some.injEq, Prod.mk.injEq] at known
    obtain ⟨rfl, -⟩ := known
    split
    next accepted =>
      unfold correctedDestination
      split
      · split
        · exact .inl mapped
        · exact extended _ mapped accepted
      · exact .inl mapped
    · exact .inl mapped
  · split at known
    next accepted =>
      cases known
      exact extended _ (plain.below below) accepted
    · cases known

end Project

end Stowage

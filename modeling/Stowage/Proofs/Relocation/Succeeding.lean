import Stowage.Proofs.Disk.Reaching
import Stowage.Proofs.Disk.Walks
import Stowage.Proofs.Relocation.Labels
import Stowage.Proofs.Survey.Readings

set_option autoImplicit false

namespace Stowage

abbrev Dated := Location -> Option (ByteArray × Instant)

def Dated.carry (files : Dated) (origin target : Location) : Dated :=
  Function.update (Function.update files target (files origin)) origin none

namespace Disk

def dated (d : Disk) : Dated := fun place =>
  match d.node? place with
  | some (.file content _ modified) => some (content, modified)
  | _ => none

theorem dated_eq_some_iff (d : Disk) (place : Location) (content : ByteArray) (modified : Instant) :
    d.dated place = some (content, modified) ↔ ∃ mode, d.node? place = some (.file content mode modified) := by
  unfold dated
  cases d.node? place with
  | none => simp
  | some node => cases node <;> simp

theorem dated_eq_none_iff (d : Disk) (place : Location) : d.dated place = none ↔ d.file? place = none := by
  unfold dated file?
  cases d.node? place with
  | none => simp
  | some node => cases node <;> simp [Node.isFile, Option.filter]

theorem Regular.open_of_dated {d : Disk} (regular : d.Regular) {place : Location} (absent : d.dated place = none) :
    d.node? place = none ∨ d.FolderAt place := by
  cases found : d.node? place with
  | none => exact .inl rfl
  | some node =>
    cases node with
    | folder mode modified => exact .inr ⟨mode, modified, found⟩
    | link target => exact absurd found (regular.linkless place target)
    | file content mode modified => simp [dated, found] at absent

theorem contents_eq_map (d : Disk) (place : Location) : d.contents place = (d.dated place).map Prod.fst := by
  unfold contents content? dated
  cases d.node? place with
  | none => rfl
  | some node => cases node <;> rfl

theorem dated_congr {d after : Disk} {place : Location} (same : after.file? place = d.file? place) :
    after.dated place = d.dated place := by
  have filed : ∀ (d : Disk) (content : ByteArray) (modified : Instant),
      d.dated place = some (content, modified) ↔ ∃ mode, d.file? place = some (.file content mode modified) := by
    intro d content modified
    simp [dated_eq_some_iff, file?_eq_some_iff, Node.isFile]
  refine Option.ext fun value => ?_
  obtain ⟨content, modified⟩ := value
  rw [filed, filed, same]

theorem dated_touch (d : Disk) (place : Location) : (d.touch place).dated = d.dated :=
  funext fun other => dated_congr (file?_touch d place other)

theorem dated_put (d : Disk) (place : Location) (content : ByteArray) (mode : Nat) (modified : Instant) :
    (d.put place (.file content mode modified)).dated =
      Function.update d.dated place (some (content, modified)) := by
  funext other
  by_cases same : other = place
  · subst same
    rw [Function.update_self, dated, node?_put_self]
  · rw [Function.update_of_ne same, dated, node?_put_other d place other _ same, dated]

theorem dated_carry (d : Disk) (sound : d.Sound) (old new : Location) (apart : new ≠ old)
    (solid : ∀ mode modified, d.node? old ≠ some (.folder mode modified))
    (open' : ∀ mode modified, d.node? new ≠ some (.folder mode modified)) :
    (d.carry old new).dated = d.dated.carry old new := by
  funext place
  unfold Dated.carry dated
  rw [node?_carry d sound old new place solid open']
  by_cases here : place = new
  · subst here
    rw [if_pos rfl, Function.update_of_ne apart, Function.update_self]
  · by_cases there : place = old
    · subst there
      rw [if_neg here, if_pos rfl, Function.update_self]
    · rw [if_neg here, if_neg there, Function.update_of_ne there, Function.update_of_ne here]

theorem setMode_dated (d after : Disk) (p : Path) (mode : Nat) (changed : d.setMode p mode = .ok after) :
    after.dated = d.dated := by
  rcases setMode_eq_ok changed with ⟨place, content, _, modified, found, rfl⟩ | ⟨place, _, modified, found, rfl⟩
  · have own := (dated_eq_some_iff d place content modified).2 ⟨_, find_node d p _ _ found⟩
    rw [dated_put, ← own, Function.update_eq_self]
  · have node := find_node d p _ _ found
    funext other
    by_cases same : other = place
    · subst same
      rw [dated, node?_put_self, dated, node]
    · rw [dated, node?_put_other d place other _ same, dated]

theorem copy_privileged {d : Disk} (regular : d.Regular) (privileged : d.privileged = true) {origin target : Path}
    (normal : origin.Normal) (usable : origin.Usable) (normal' : target.Normal) (usable' : target.Usable)
    {content : ByteArray} {mode : Nat} {modified : Instant}
    (found : d.node? (origin.place d.home) = some (.file content mode modified))
    (fresh : d.node? (target.place d.home) = none) (above : d.FolderAt (target.place d.home).folder) :
    ∃ copied, d.copy origin target = .ok copied ∧
      copied.dated = Function.update d.dated (target.place d.home) (some (content, d.now)) := by
  have reached := fun aim searched => spot_reached regular privileged normal' usable' aim searched above
  have source : d.source origin = .ok (origin.place d.home, content, mode) := by
    simp [source, find_file regular privileged normal usable found, allows, privileged]
  have apart : d.leadsTo target (origin.place d.home) = false := by
    simp [leadsTo, find, reached .object (by simp), spotAt, fresh]
  have copied : d.copy origin target = .ok ((d.put (target.place d.home) (.file content mode d.now)).touch
      (target.place d.home).folder) := by
    simp [copy, source, apart, store, reached .target (by simp), spotAt, fresh, mayChange_folder privileged above]
  exact ⟨_, copied, by rw [dated_touch, dated_put]⟩

end Disk

namespace Carrier

theorem finish_dated (carrier : Carrier) (site : Site) (decision : Decision) (source landed : Path)
    (backup : Option Path) (incomplete : Option RelocationError) :
    (carrier.finish site decision source landed backup incomplete).2.disk.dated = site.disk.dated := by
  rcases carrier.finish_marks site decision source landed backup incomplete with same | marked
  · rw [same]
  · exact Disk.setMode_dated _ _ _ _ marked

theorem siblingAt_normal (carrier : Carrier) (stamp : Path.separator ∉ carrier.stamp.toList) (label : String)
    (known : label ∈ ["backup", "conflict"]) {path : Path} (normal : path.Normal) (number : Nat) :
    (carrier.siblingAt path label number).Normal ∧
      (carrier.siblingAt path label number).steps.getLast? =
        some (.enter (carrier.siblingName path label number)) := by
  have named := carrier.siblingName_isName stamp label known path number
  obtain ⟨above, name, own⟩ := (List.eq_nil_or_concat' _).resolve_left (normal.filled [])
  have components := normal.plain.components []
  rw [own, List.map_append, List.map_singleton, ← List.cons_append] at components
  obtain ⟨parent, parented, spelt⟩ := Path.parent?_of_name (by simp) components
  have absolute := Path.isAbsolute_of_components spelt
  unfold siblingAt
  rw [parented, Option.getD_some]
  have last := (Path.join_last parent _ absolute named).2
  refine ⟨⟨⟨above ++ [carrier.siblingName path label number], ?_⟩, _, last⟩, last⟩
  rw [Path.components_join_name parent named, spelt]
  simp

theorem siblingAt_parts (carrier : Carrier) (stamp : Path.separator ∉ carrier.stamp.toList) (label : String)
    (known : label ∈ ["backup", "conflict"]) {path : Path} (normal : path.Normal) (home : Location) :
    ∃ above name, path.place home = above ++ [name] ∧ path.fileName? = some name ∧ ∀ number,
      (carrier.siblingAt path label number).place home = above ++ [carrier.siblingName path label number] := by
  obtain ⟨above, name, own⟩ := (List.eq_nil_or_concat' _).resolve_left (normal.filled home)
  refine ⟨above, name, own, ?_, carrier.siblingAt_beside stamp label known home path normal.plain above name own⟩
  have components := normal.plain.components home
  rw [own, List.map_append, List.map_singleton, ← List.cons_append] at components
  exact Path.fileName?_of_components path _ name components

theorem sibling_fresh {carrier : Carrier} {d : Disk} (regular : d.Regular) (privileged : d.privileged = true)
    (stamp : Path.separator ∉ carrier.stamp.toList) (label : String) (known : label ∈ ["backup", "conflict"])
    {path : Path} (normal : path.Normal) (above : d.FolderAt (path.place d.home).folder)
    (fits : (carrier.sibling d path label).Usable) :
    (carrier.sibling d path label).Normal ∧
      ((carrier.sibling d path label).place d.home).folder = (path.place d.home).folder ∧
      d.node? ((carrier.sibling d path label).place d.home) = none := by
  have missing := carrier.sibling_free d regular.toSound path label
  obtain ⟨number, beside⟩ : ∃ number, carrier.sibling d path label = carrier.siblingAt path label number := ⟨_, rfl⟩
  generalize carrier.sibling d path label = kept at fits missing beside ⊢
  have normal' : kept.Normal := beside ▸ (carrier.siblingAt_normal stamp label known normal number).1
  have folder : (kept.place d.home).folder = (path.place d.home).folder := by
    obtain ⟨front, name, own, -, places⟩ := carrier.siblingAt_parts stamp label known normal d.home
    rw [beside, places, own, Location.folder_concat, Location.folder_concat]
  refine ⟨normal', folder, ?_⟩
  by_contra present
  obtain ⟨node, there⟩ := Option.ne_none_iff_exists'.1 present
  have reached := Disk.spot_reached regular privileged normal' fits .object (by simp) (folder ▸ above)
  simp [Disk.isThere, Disk.find, reached, Disk.spotAt, there] at missing

/-- A file and a destination between which nothing stands. -/
structure Unhindered (d : Disk) (source destination : Path) : Prop where
  regular : d.Regular
  privileged : d.privileged = true
  normal : source.Normal
  usable : source.Usable
  normal' : destination.Normal
  usable' : destination.Usable
  held : (d.dated (source.place d.home)).isSome
  apart : destination.place d.home ≠ source.place d.home
  clear : ∀ place, place <+: (destination.place d.home).folder -> d.node? place = none ∨ d.FolderAt place
  level : ¬ d.FolderAt (destination.place d.home)

section

variable {d : Disk} {source destination : Path} (free : Unhindered d source destination)

include free

theorem Unhindered.node : ∃ content mode modified,
    d.node? (source.place d.home) = some (.file content mode modified) := by
  obtain ⟨⟨content, modified⟩, own⟩ := Option.isSome_iff_exists.1 free.held
  obtain ⟨mode, found⟩ := (Disk.dated_eq_some_iff d _ content modified).1 own
  exact ⟨content, mode, modified, found⟩

theorem Unhindered.hasFile : HasFile d source := by
  obtain ⟨content, mode, modified, found⟩ := free.node
  exact ⟨content, mode, modified, Disk.find_file free.regular free.privileged free.normal free.usable found⟩

section

variable (above : d.FolderAt (destination.place d.home).folder) {content : ByteArray} {mode : Nat}
  {modified : Instant} (found : d.node? (source.place d.home) = some (.file content mode modified))

include above found

theorem Unhindered.beside : ¬ source.place d.home <+: destination.place d.home ∧
    ¬ destination.place d.home <+: source.place d.home := by
  have sound := free.regular.toSound
  constructor
  · rintro ⟨names, below⟩
    cases names using List.reverseRecOn with
    | nil => exact free.apart (by simpa using below.symm)
    | append_singleton names name =>
      rw [← below, ← List.append_assoc, Location.folder_concat] at above
      obtain ⟨_, _, folder⟩ := sound.folderAt_prefix (List.prefix_append _ names) above
      cases found.symm.trans folder
  · rintro ⟨names, below⟩
    by_cases filled : names = []
    · exact free.apart (by simpa [filled] using below)
    · exact free.level (sound.folderAt_above _ names _ filled (by rw [below]; exact found))

theorem Unhindered.asked : d.renaming? source destination = some ⟨source.place d.home, destination.place d.home,
    .file content mode modified, d.node? (destination.place d.home)⟩ := by
  have reached := Disk.entry_reached free.regular free.privileged free.normal free.usable
    (free.regular.toSound.folder_above _ _ found)
  have reached' := Disk.entry_reached free.regular free.privileged free.normal' free.usable' above
  rw [Disk.spotAt, found] at reached
  unfold Disk.renaming?
  rw [free.normal.endsInName, free.normal'.endsInName, reached, reached']
  unfold Disk.spotAt
  cases d.node? (destination.place d.home) <;> rfl

theorem Unhindered.allowed : d.mayRename ⟨source.place d.home, destination.place d.home,
    .file content mode modified, d.node? (destination.place d.home)⟩ = true := by
  have replaces : d.mayReplace ⟨source.place d.home, destination.place d.home,
      .file content mode modified, d.node? (destination.place d.home)⟩ = true := by
    unfold Disk.mayReplace
    cases other : d.node? (destination.place d.home) with
    | none => rfl
    | some node =>
      cases node with
      | folder mode modified => exact absurd ⟨mode, modified, other⟩ free.level
      | file | link => rfl
  obtain ⟨beside, beside'⟩ := free.beside above found
  have apart := eq_false_of_ne_true fun below => beside (List.isPrefixOf_iff_prefix.1 below)
  have apart' := eq_false_of_ne_true fun below => beside' (List.isPrefixOf_iff_prefix.1 below)
  have may := Disk.mayChange_folder free.privileged above
  have may' := Disk.mayChange_folder free.privileged (free.regular.toSound.folder_above _ _ found)
  unfold Disk.mayRename
  simp only [may, may', replaces, Disk.mayLeave, apart, apart', Bool.not_false, Bool.and_self]

end

theorem Unhindered.rename (above : d.FolderAt (destination.place d.home).folder) :
    ∃ renamed, d.rename? source destination = some renamed ∧
      renamed.dated = d.dated.carry (source.place d.home) (destination.place d.home) := by
  obtain ⟨content, mode, modified, found⟩ := free.node
  have solid : ∀ mode modified, d.node? (source.place d.home) ≠ some (.folder mode modified) := by simp [found]
  have open' : ∀ mode modified, d.node? (destination.place d.home) ≠ some (.folder mode modified) :=
    fun mode modified folder => free.level ⟨mode, modified, folder⟩
  have done : d.rename? source destination = some (((d.carry (source.place d.home)
      (destination.place d.home)).touch (source.place d.home).folder).touch (destination.place d.home).folder) := by
    unfold Disk.rename?
    simp only [free.asked above found]
    rw [if_neg (by simp [Node.isFolder, free.normal.ended, free.normal'.ended]), if_neg (Ne.symm free.apart),
      if_pos (free.allowed above found)]
  refine ⟨_, done, ?_⟩
  rw [Disk.dated_touch, Disk.dated_touch, Disk.dated_carry d free.regular.toSound _ _ free.apart solid open']

theorem Unhindered.onward {after : Disk} (later : d.Later after)
    (held : (after.dated (source.place d.home)).isSome)
    (clear : ∀ place, place <+: (destination.place d.home).folder -> after.node? place = none ∨ after.FolderAt place)
    (level : ¬ after.FolderAt (destination.place d.home)) : Unhindered after source destination := by
  rw [← later.home] at held clear level
  exact ⟨later.regular, later.privileged.trans free.privileged, free.normal, free.usable, free.normal',
    free.usable', held, by rw [later.home]; exact free.apart, clear, level⟩

theorem Unhindered.parented : ∃ made, ensureParent d destination = (.ok (), made) ∧
    made.FolderAt (destination.place d.home).folder ∧ d.Becomes made [] d.contents ∧
    Unhindered made source destination := by
  obtain ⟨parent, known, place, -, cases⟩ := free.normal'.parent free.usable' d.home
  have place : parent.place d.home = (destination.place d.home).folder := place
  obtain ⟨done, folder⟩ := Disk.makeFoldersUpTo_privileged (parent.pieces.length + 1) d free.regular
    free.privileged parent cases (by simp [Path.components]) (by rw [place]; exact free.clear)
  have becomes := ensureParent_becomes d free.regular destination
  have grows := ensureParent_grows d free.regular destination
  -- The walk to the parent is clear and privileged, so that making it cannot fail.
  have ran : ensureParent d destination = (.ok (), (d.makeFolders parent).2) := by
    change (d.makeFolders parent).1 = .ok () at done
    simp only [ensureParent, known]
    generalize d.makeFolders parent = outcome at done ⊢
    obtain ⟨result, made⟩ := outcome
    cases done
    rfl
  rw [ran] at becomes grows
  rw [place] at folder
  refine ⟨_, ran, folder, becomes, free.onward becomes.later ?_ ?_ ?_⟩
  · rw [Disk.dated_congr (becomes.kept _ (by simp))]
    exact free.held
  · exact fun there within => Disk.node?_of_becomes becomes (free.clear there within)
  · -- The directories that were made are above the destination.
    intro folder
    rcases grows.folder _ folder with old | ⟨above, known', through⟩
    · exact free.level old
    · obtain rfl := Option.some.inj (known.symm.trans known')
      obtain ⟨plain, place', filled⟩ := free.normal'.plain.parent known d.home
      have short := List.IsPrefix.length_le (plain.way d.home through)
      rw [place', List.length_dropLast] at short
      have long := List.length_pos_iff.2 filled
      omega

theorem Unhindered.carried (above : d.FolderAt (destination.place d.home).folder) :
    ∃ moved, moveFile d source destination = .ok (none, moved) ∧
      moved.dated = d.dated.carry (source.place d.home) (destination.place d.home) := by
  obtain ⟨renamed, done, dated⟩ := free.rename above
  refine ⟨renamed, ?_, dated⟩
  unfold moveFile
  generalize d.rename? source destination = outcome at done ⊢
  cases done
  rfl

theorem Unhindered.move (carrier : Carrier) (ledger : Ledger) :
    (carrier.executeMove ⟨d, ledger⟩ source destination).2.disk.dated =
      d.dated.carry (source.place d.home) (destination.place d.home) := by
  obtain ⟨made, ran, above, becomes, onward⟩ := free.parented
  rw [← becomes.later.home] at above
  obtain ⟨moved, done, dated⟩ := onward.carried above
  unfold executeMove
  simp only [ran, done, finish_dated]
  have same : made.dated = d.dated := funext fun place => Disk.dated_congr (becomes.kept place (by simp))
  rw [dated, becomes.later.home, same]

theorem Unhindered.drop (carrier : Carrier) (ledger : Ledger) (decision : Decision) :
    (carrier.executeDrop ⟨d, ledger⟩ decision source destination).2.disk.dated =
      Function.update d.dated (source.place d.home) none := by
  obtain ⟨content, mode, modified, found⟩ := free.hasFile
  obtain ⟨removed, gone⟩ := Disk.removeFile_privileged d free.regular free.privileged source content mode modified
    free.normal.endsInName found
  obtain ⟨becomes, -⟩ := Disk.removeFile_becomes d free.regular source removed gone
  unfold executeDrop
  simp only [gone, finish_dated]
  funext place
  by_cases here : place = source.place d.home
  · subst here
    have none := congrFun becomes.held (source.place d.home)
    rw [Files.drop, Function.update_self, Disk.contents_eq_map, Option.map_eq_none_iff] at none
    rw [none, Function.update_self]
  · rw [Function.update_of_ne here, Disk.dated_congr (becomes.kept place (by simpa using here))]

theorem Unhindered.update (carrier : Carrier) (stamp : Path.separator ∉ carrier.stamp.toList)
    (fits : (carrier.sibling d destination "backup").Usable) (ledger : Ledger) (content : ByteArray)
    (modified : Instant) (stood : d.dated (destination.place d.home) = some (content, modified)) :
    d.node? ((carrier.sibling d destination "backup").place d.home) = none ∧
      (carrier.executeUpdate ⟨d, ledger⟩ source destination).2.disk.dated =
        Dated.carry (Function.update d.dated ((carrier.sibling d destination "backup").place d.home)
          (some (content, d.now))) (source.place d.home) (destination.place d.home) := by
  obtain ⟨mode, found⟩ := (Disk.dated_eq_some_iff d _ content modified).1 stood
  have above := free.regular.toSound.folder_above _ _ found
  obtain ⟨normal, folder, fresh⟩ := sibling_fresh free.regular free.privileged stamp "backup" (by simp)
    free.normal' above fits
  unfold executeUpdate
  simp only
  generalize carrier.sibling d destination "backup" = kept at fits normal folder fresh ⊢
  have held : ∀ {place node}, d.node? place = some node -> place ≠ kept.place d.home := by
    rintro place node there rfl
    cases fresh.symm.trans there
  obtain ⟨copied, done, dated⟩ := Disk.copy_privileged free.regular free.privileged free.normal' free.usable'
    normal fits found fresh (folder ▸ above)
  have becomes := Disk.copy_becomes d free.regular destination kept copied (Ne.symm (held found)) done
  have above' : copied.FolderAt (destination.place d.home).folder := by
    obtain ⟨mode, modified, open'⟩ := above
    obtain ⟨later, open'⟩ := becomes.later.folders _ _ _ open'
    exact ⟨mode, later, open'⟩
  -- The copy set aside stands beside the destination and is in the way of nothing.
  have onward : Unhindered copied source destination := by
    obtain ⟨own, age, time, there⟩ := free.node
    refine free.onward becomes.later ?_ (fun place within => ?_) ?_
    · rw [dated, Function.update_of_ne (held there)]
      exact free.held
    · exact .inr (becomes.later.regular.toSound.folderAt_prefix within above')
    · rintro ⟨mode, modified, folder⟩
      have same := becomes.kept (destination.place d.home) (by simpa using held found)
      simp [Disk.file?, folder, found, Node.isFile, Option.filter] at same
  rw [← becomes.later.home] at above'
  obtain ⟨moved, ran, dated'⟩ := onward.carried above'
  refine ⟨fresh, ?_⟩
  simp only [done, ran, finish_dated]
  rw [dated', dated, becomes.later.home]

theorem Unhindered.record (standing : Standing) {content : ByteArray} {modified : Instant}
    (own : d.dated (source.place d.home) = some (content, modified)) :
    ∃ reading, readRecord d source standing = .ok reading ∧ reading.record.digest = Sha256.hex content ∧
      reading.record.modified = modified := by
  obtain ⟨mode, node⟩ := (Disk.dated_eq_some_iff d _ content modified).1 own
  have found := Disk.find_file free.regular free.privileged free.normal free.usable node
  have read := Disk.read_file free.regular free.privileged free.normal free.usable node
  refine ⟨_, by simp [readRecord, Disk.stat, found, read]; rfl, rfl, rfl⟩

theorem Unhindered.decision_absent (record : FileRecord) (absent : d.dated (destination.place d.home) = none) :
    Decision.of d record destination = .ok .move := by
  have missing := (free.regular.open_of_dated absent).resolve_right free.level
  have asked : d.stat destination = .error .notFound := by
    by_cases above : d.FolderAt (destination.place d.home).folder
    · have reached := Disk.spot_reached free.regular free.privileged free.normal' free.usable' .object (by simp) above
      simp [Disk.stat, Disk.find, reached, Disk.spotAt, missing]
    · have reached := Disk.spot_missing free.regular free.privileged free.normal' free.usable' .object (by simp)
        free.clear above
      simp [Disk.stat, Disk.find, reached]
  simp [Decision.of, asked]

theorem Unhindered.decision_present (record : FileRecord) {content : ByteArray} {modified : Instant}
    (stood : d.dated (destination.place d.home) = some (content, modified))
    (other : Sha256.hex content ≠ record.digest) :
    Decision.of d record destination = .ok (.ofTimes record.modified modified) := by
  obtain ⟨mode, node⟩ := (Disk.dated_eq_some_iff d _ content modified).1 stood
  have found := Disk.find_file free.regular free.privileged free.normal' free.usable' node
  have asked : d.stat destination = .ok ⟨false, content.size, modified⟩ := by simp [Disk.stat, found]
  have read := Disk.read_file free.regular free.privileged free.normal' free.usable' node
  have differs : Decision.sameContent d record destination content.size = .ok false := by
    unfold Decision.sameContent
    split
    · rfl
    · simp [read, Except.map, other]
  simp [Decision.of, asked, differs]

end

end Carrier

end Stowage

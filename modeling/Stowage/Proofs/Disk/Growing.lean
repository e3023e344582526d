import Mathlib.Data.Set.Insert
import Stowage.Proofs.Relocation.Deciding
import Stowage.Proofs.Disk.Effects

set_option autoImplicit false

namespace Stowage

namespace Path

def way (home : Location) (p : Path) : Set Location :=
  {place | ∃ front, front ≠ [] ∧ front <+: p.components ∧ front.foldl Location.enter home = place}

theorem place_mem_way (p : Path) (filled : p.text ≠ "") (home : Location) : p.place home ∈ p.way home :=
  ⟨p.components, components_ne_nil filled, List.prefix_rfl, (place_eq home p).symm⟩

theorem way_parent {p above : Path} (known : p.parent? = some above) (home : Location) :
    above.way home ⊆ p.way home := by
  rintro place ⟨front, filled, within, leads⟩
  rw [components_parent known] at within
  exact ⟨front, filled, within.trans (List.dropLast_prefix _), leads⟩

theorem Plain.way {p : Path} (plain : p.Plain) (home : Location) :
    p.way home ⊆ {place | place <+: p.place home} := by
  rintro place ⟨front, filled, within, rfl⟩
  rw [plain.components home] at within
  cases front with
  | nil => exact absurd rfl filled
  | cons first front =>
    obtain ⟨rfl, onward⟩ := List.cons_prefix_cons.1 within
    exact enter_prefix onward

def above (home : Location) (p : Path) : Set Location :=
  {place | ∃ parent, p.parent? = some parent ∧ place ∈ parent.way home}

theorem above_cases {p : Path} (cases : p.Plain ∨ p.Climbs) (home : Location) :
    p.above home ⊆ {place | place <+: p.names} := by
  rintro place ⟨parent, known, through⟩
  obtain ⟨plain, within⟩ := parent_cases cases known home
  exact (plain.way home through).trans within

theorem length_of_enter {names : List String} {front : List Component} {here : Location}
    (within : front <+: names.map .name)
    (same : front.foldl Location.enter here = (names.map Component.name).foldl Location.enter here) :
    front.length = names.length := by
  obtain ⟨fewer, -, rfl⟩ := List.prefix_map_iff.1 within
  rw [enter_names, enter_names] at same
  rw [List.append_cancel_left same, List.length_map]

theorem place_not_mem_above {p : Path} (normal : p.Plain ∨ p.Inner) (home : Location) : p.place home ∉ p.above home := by
  rintro ⟨parent, known, front, filled, within, leads⟩
  rw [components_parent known] at within
  have short : front.length < p.components.length := by
    have most := within.length_le
    have some := List.length_pos_iff.2 filled
    rw [List.length_dropLast] at most
    omega
  have within := within.trans (List.dropLast_prefix _)
  rw [place_eq] at leads
  rcases normal with ⟨names, spelt⟩ | ⟨-, names, spelt⟩ <;> rw [spelt] at within short leads
  · cases front with
    | nil => exact filled rfl
    | cons first front =>
      obtain ⟨rfl, onward⟩ := List.cons_prefix_cons.1 within
      rw [List.foldl_cons, List.foldl_cons] at leads
      have level := length_of_enter onward leads
      simp [level] at short
  · have level := length_of_enter within leads
    simp [level] at short

end Path

namespace Disk

/-- A state of a disk in which new directories and files are only at some places. -/
structure Grows (d after : Disk) (folders files : Set Location) : Prop where
  folder : ∀ place, after.FolderAt place -> d.FolderAt place ∨ place ∈ folders
  file : ∀ place, (after.file? place).isSome -> (d.file? place).isSome ∨ place ∈ files

theorem Grows.refl (d : Disk) (folders files : Set Location) : d.Grows d folders files :=
  ⟨fun _ found => .inl found, fun _ found => .inl found⟩

theorem Grows.trans {d mid after : Disk} {folders files : Set Location} (first : d.Grows mid folders files)
    (second : mid.Grows after folders files) : d.Grows after folders files :=
  ⟨fun place found => (second.folder place found).elim (first.folder place) .inr,
    fun place found => (second.file place found).elim (first.file place) .inr⟩

theorem Grows.more {d after : Disk} {folders files folders' files' : Set Location}
    (grows : d.Grows after folders files) (within : folders ⊆ folders') (within' : files ⊆ files') :
    d.Grows after folders' files' :=
  ⟨fun place found => (grows.folder place found).imp_right (@within place),
    fun place found => (grows.file place found).imp_right (@within' place)⟩

theorem grows_touch (d : Disk) (place : Location) : d.Grows (d.touch place) ∅ ∅ := by
  refine ⟨fun other found => .inl ?_, fun other found => .inl ?_⟩
  · obtain ⟨mode, modified, node⟩ := found
    rw [node?_touch] at node
    split at node
    · obtain ⟨old, held, touched⟩ := Option.map_eq_some_iff.1 node
      cases old with
      | folder mode' modified' => exact ⟨mode', modified', held⟩
      | file | link => cases touched
    · exact ⟨mode, modified, node⟩
  · rwa [file?_touch] at found

theorem Grows.touch {d after : Disk} {folders files : Set Location} (grows : d.Grows after folders files)
    (place : Location) : d.Grows (after.touch place) folders files :=
  grows.trans ((grows_touch after place).more (Set.empty_subset _) (Set.empty_subset _))

theorem grows_put (d : Disk) (place : Location) (node : Node) {folders files : Set Location}
    (folder : node.isFolder = true -> d.FolderAt place ∨ place ∈ folders)
    (file : node.isFile = true -> (d.file? place).isSome ∨ place ∈ files) :
    d.Grows (d.put place node) folders files := by
  refine ⟨fun other found => ?_, fun other found => ?_⟩
  · obtain ⟨mode, modified, held⟩ := found
    by_cases same : other = place
    · subst same
      rw [node?_put_self] at held
      cases held
      exact folder rfl
    · rw [node?_put_other d place other node same] at held
      exact .inl ⟨mode, modified, held⟩
  · by_cases same : other = place
    · subst same
      rw [file?_put_self] at found
      obtain ⟨node', held⟩ := Option.isSome_iff_exists.1 found
      obtain ⟨-, solid⟩ := Option.filter_eq_some_iff.1 held
      cases (Option.filter_eq_some_iff.1 held).1
      exact file solid
    · rw [file?_put_other d place other node same] at found
      exact .inl found

theorem grows_erase (d : Disk) (place : Location) : d.Grows (d.erase place) ∅ ∅ := by
  have kept : ∀ other node, (d.erase place).node? other = some node -> d.node? other = some node := by
    intro other node found
    by_cases same : other = place
    · subst same
      rw [node?_erase_self] at found
      cases found
    · rwa [node?_erase_other d place other same] at found
  refine ⟨fun other ⟨mode, modified, found⟩ => .inl ⟨mode, modified, kept other _ found⟩, fun other found => ?_⟩
  obtain ⟨node, held⟩ := Option.isSome_iff_exists.1 found
  obtain ⟨found, solid⟩ := (file?_eq_some_iff _ other node).1 held
  exact .inl (Option.isSome_iff_exists.2
    ⟨node, (file?_eq_some_iff d other node).2 ⟨kept other node found, solid⟩⟩)

theorem grows_carry (d : Disk) (sound : d.Sound) (old new : Location) (node : Node)
    (found : d.node? old = some node) (solid : node.isFile = true)
    (open' : ∀ mode modified, d.node? new ≠ some (.folder mode modified)) :
    d.Grows (d.carry old new) ∅ {new} := by
  have level : ∀ mode modified, d.node? old ≠ some (.folder mode modified) := by
    rintro mode modified folder
    rw [found] at folder
    cases folder
    cases solid
  have nodes : ∀ place other, (d.carry old new).node? place = some other ->
      d.node? place = some other ∨ place = new ∧ other = node := by
    intro place other held
    rw [node?_carry d sound old new place level open'] at held
    split at held
    next here =>
      rw [found] at held
      cases held
      exact .inr ⟨here, rfl⟩
    · split at held
      · cases held
      · exact .inl held
  constructor
  · rintro place ⟨mode, modified, held⟩
    rcases nodes place _ held with there | ⟨-, rfl⟩
    · exact .inl ⟨mode, modified, there⟩
    · cases solid
  · intro place held
    obtain ⟨other, held⟩ := Option.isSome_iff_exists.1 held
    obtain ⟨held, filed⟩ := (file?_eq_some_iff _ place other).1 held
    rcases nodes place other held with there | ⟨here, -⟩
    · exact .inl (Option.isSome_iff_exists.2 ⟨other, (file?_eq_some_iff d place other).2 ⟨there, filed⟩⟩)
    · exact .inr here

theorem store_grows (d : Disk) (regular : d.Regular) (p : Path) (content : ByteArray) (fresh : Nat)
    (mode : Option Nat) (after : Disk) (stored : d.store p content fresh mode = .ok after) :
    d.Grows after ∅ {p.place d.home} := by
  have file : ∀ mode time, d.Grows (d.put (p.place d.home) (.file content mode time)) ∅ {p.place d.home} :=
    fun _ _ => grows_put d _ _ (fun impossible => nomatch impossible) fun _ => .inr rfl
  rcases store_eq_ok stored with ⟨place, held, old, modified, reached, -, rfl⟩ | ⟨place, reached, -, rfl⟩
  · obtain ⟨rfl, -⟩ := find_place d regular p place _
      (find_of_spot d regular .target (by simp) p place _ reached)
    exact file _ _
  · obtain rfl := free_place d regular .target p place reached
    exact (file _ _).touch _

theorem copy_grows (d : Disk) (regular : d.Regular) (origin target : Path) (after : Disk)
    (copied : d.copy origin target = .ok after) : d.Grows after ∅ {target.place d.home} := by
  obtain ⟨_, _, _, -, stored⟩ := copy_eq_ok copied
  exact store_grows d regular target _ _ _ after stored

theorem removeFile_grows (d : Disk) (p : Path) (after : Disk) (removed : d.removeFile p = .ok after) :
    d.Grows after ∅ ∅ := by
  obtain ⟨_, _, -, -, -, -, -, rfl⟩ := removeFile_eq_ok removed
  exact (grows_erase d _).touch _

theorem setMode_grows (d : Disk) (regular : d.Regular) (p : Path) (mode : Nat) (after : Disk)
    (changed : d.setMode p mode = .ok after) : d.Grows after ∅ ∅ := by
  rcases setMode_eq_ok changed with ⟨_, content, _, modified, found, rfl⟩ | ⟨_, _, modified, found, rfl⟩
  · obtain ⟨rfl, node⟩ := find_place d regular p _ _ found
    refine grows_put d _ _ (fun impossible => nomatch impossible) fun _ => .inl ?_
    exact Option.isSome_iff_exists.2 ⟨_, (file?_eq_some_iff d _ _).2 ⟨node, rfl⟩⟩
  · obtain ⟨rfl, node⟩ := find_place d regular p _ _ found
    exact grows_put d _ _ (fun _ => .inl ⟨_, _, node⟩) fun impossible => nomatch impossible

theorem rename?_grows (d : Disk) (regular : d.Regular) (origin target : Path) (content : ByteArray)
    (mode : Nat) (modified : Instant) (after : Disk)
    (apart : target.place d.home ≠ origin.place d.home)
    (found : d.find origin = .ok (origin.place d.home, .file content mode modified))
    (renamed : d.rename? origin target = some after) : d.Grows after ∅ {target.place d.home} := by
  obtain ⟨⟨spot, reached, solid⟩, kept | rfl⟩ :=
    rename?_some d regular origin target content mode modified after found renamed
  · exact absurd kept.symm apart
  obtain ⟨-, -, open'⟩ := vacant_of_spot d regular .entry (by simp) target spot reached solid
  exact ((grows_carry d regular.toSound _ _ _ (find_node d origin _ _ found) rfl open').touch _).touch _

theorem makeFolder_grows (d : Disk) (regular : d.Regular) (p : Path) (after : Disk)
    (made : d.makeFolder p = .ok after) : d.Grows after {p.place d.home} ∅ := by
  obtain ⟨place, reached, -, rfl⟩ := makeFolder_eq_ok made
  obtain ⟨-, leads⟩ := (entry_eq_ok_iff d p _).1 reached
  rcases leads.place regular (Path.isName_of_enter p.withoutEnd) with ⟨node, impossible⟩ | ⟨above, name, here, -⟩
  · cases impossible
  · cases here
    rw [Path.follow_withoutEnd]
    have put : d.Grows (d.put (p.place d.home) (.folder newFolderMode d.now)) {p.place d.home} ∅ :=
      grows_put d _ _ (fun _ => .inr rfl) fun impossible => nomatch impossible
    exact put.touch _

theorem makeFoldersUpTo_grows (depth : Nat) (d : Disk) (regular : d.Regular) (p : Path) :
    d.Grows (d.makeFoldersUpTo depth p).2 (p.way d.home) ∅ := by
  induction depth generalizing d p with
  | zero => exact .refl d _ _
  | succ depth ih =>
    unfold makeFoldersUpTo
    split
    · exact .refl d _ _
    next filled =>
      have single := Set.singleton_subset_iff.2 (p.place_mem_way filled d.home)
      split
      next made done => exact (makeFolder_grows d regular p made done).more single subset_rfl
      · split
        · exact .refl d _ _
        next parent known =>
          -- The directory is missing: first its parents are made, then it is tried once more.
          have below := (ih d regular parent).more (Path.way_parent known d.home) subset_rfl
          have later := (makeFoldersUpTo_becomes depth d regular parent).later
          generalize d.makeFoldersUpTo depth parent = outcome at below later ⊢
          obtain ⟨result, made⟩ := outcome
          cases result with
          | error problem => exact below
          | ok =>
            simp only
            cases done : made.makeFolder p with
            | ok last =>
              have onward := makeFolder_grows made later.regular p last done
              rw [later.home] at onward
              exact below.trans (onward.more single subset_rfl)
            | error problem =>
              simp only
              split <;> exact below
      · split <;> exact .refl d _ _

theorem makeFolders_grows (d : Disk) (regular : d.Regular) (p : Path) :
    d.Grows (d.makeFolders p).2 (p.way d.home) ∅ :=
  makeFoldersUpTo_grows _ d regular p

end Disk

end Stowage

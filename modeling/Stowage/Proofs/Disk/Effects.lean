import Stowage.Proofs.Disk.Changes
import Stowage.Proofs.Disk.Granted

set_option autoImplicit false

namespace Stowage.Disk

/-- Where content may be put: a path leads there, to a file or to the name of nothing yet. -/
def Vacant (d : Disk) (p : Path) : Prop :=
  (d.node? (p.place d.home) = none ∧ ∃ name, p.steps.getLast? = some (.enter name)) ∨
    ∃ content mode modified, d.find p = .ok (p.place d.home, .file content mode modified)

theorem Leads.free_end {d : Disk} {aim : Aim} {links : Nat} {here place : Location}
    {steps : List Step} (regular : d.Regular) (leads : d.Leads aim links here steps (.free place)) :
    ∃ name, steps.getLast? = some (.enter name) := by
  generalize arrived : Spot.free place = spot at leads
  induction leads with
  | stop => cases arrived
  | linger _ _ _ ih | up _ _ ih | enter _ _ _ _ _ _ ih =>
    obtain ⟨name, last⟩ := ih arrived
    exact ⟨name, by rw [List.getLast?_cons, last]; rfl⟩
  | free => exact ⟨_, rfl⟩
  | halt => cases arrived
  | follow _ _ _ found _ _ _ => exact absurd found (regular.linkless _ _)

theorem Leads.folder_end {d : Disk} (regular : d.Regular) {aim : Aim} {links : Nat} {here : Location}
    {steps : List Step} {spot : Spot} (leads : d.Leads aim links here steps spot) (filled : steps ≠ [])
    (ended : ∀ name, steps.getLast? ≠ some (.enter name)) :
    ∃ place mode modified, spot = .taken place (.folder mode modified) := by
  have later : ∀ {step : Step} {rest : List Step}, rest ≠ [] ->
      (∀ name, (step :: rest).getLast? ≠ some (.enter name)) ->
      ∀ name, rest.getLast? ≠ some (.enter name) := by
    intro step rest more ended name last
    exact ended name (by rw [List.getLast?_cons, last]; rfl)
  -- Where no step is left, the walk ends in a directory.
  have stops : ∀ {links : Nat} {here : Location} {spot : Spot},
      (∃ mode modified, d.node? here = some (.folder mode modified)) ->
      d.Leads aim links here [] spot ->
      ∃ place mode modified, spot = .taken place (.folder mode modified) := by
    rintro links here spot ⟨mode, modified, folder⟩ ⟨found⟩
    rw [folder] at found
    cases found
    exact ⟨here, mode, modified, rfl⟩
  induction leads with
  | stop => exact absurd rfl filled
  | @linger _ _ _ rest _ _ opens onward ih =>
    by_cases more : rest = []
    · subst more
      obtain ⟨mode, modified, folder, -⟩ := opens
      exact stops ⟨mode, modified, folder⟩ onward
    · exact ih more (later more ended)
  | @up _ here rest _ opens onward ih =>
    by_cases more : rest = []
    · subst more
      obtain ⟨mode, modified, folder, -⟩ := opens
      exact stops (regular.toSound.folder_above here _ folder) onward
    · exact ih more (later more ended)
  | free | halt => exact absurd rfl (ended _)
  | follow _ _ _ found _ _ _ => exact absurd found (regular.linkless _ _)
  | @enter _ _ _ rest _ _ _ _ _ _ _ _ ih =>
    by_cases more : rest = []
    · subst more
      exact absurd rfl (ended _)
    · exact ih more (later more ended)

theorem object_of_spot (d : Disk) (regular : d.Regular) (aim : Aim) (searched : aim ≠ .place)
    (p : Path) (spot : Spot) (reached : d.spot aim p = .ok spot) : d.spot .object p = .ok spot := by
  obtain ⟨accepted, leads⟩ := (spot_eq_ok_iff d aim p spot).1 reached
  refine (spot_eq_ok_iff d .object p spot).2 ⟨?_, leads.object searched ?_⟩
  · rw [refusal?_eq p .object aim (by simp) searched, accepted]
  · rintro place target rfl
    exact regular.linkless place target leads.found

theorem find_of_spot (d : Disk) (regular : d.Regular) (aim : Aim) (searched : aim ≠ .place)
    (p : Path) (place : Location) (node : Node) (reached : d.spot aim p = .ok (.taken place node)) :
    d.find p = .ok (place, node) :=
  (find_eq_ok_iff d p place node).2 (object_of_spot d regular aim searched p _ reached)

theorem free_place (d : Disk) (regular : d.Regular) (aim : Aim) (p : Path) (place : Location)
    (reached : d.spot aim p = .ok (.free place)) : place = p.place d.home := by
  rcases spot_place d regular aim p _ reached with ⟨node, impossible, -⟩ | ⟨above, name, here, -⟩
  · cases impossible
  · simpa using here

theorem fits_file (d : Disk) (place : Location) (content old : ByteArray) (mode mode' : Nat)
    (modified modified' : Instant) (regular : d.Regular)
    (found : d.node? place = some (.file old mode modified)) :
    d.Fits place (some (.file content mode' modified')) := by
  have same := fits_self d regular place
  rw [found] at same
  refine ⟨fun _ _ folder => ?_, by simp, ?_⟩
  · rw [found] at folder
    cases folder
  · exact same.hangs.imp_left (by simp)

theorem fits_free (d : Disk) (above : Location) (name : String) (node : Node)
    (real : ∀ target, node ≠ .link target) (missing : d.node? (above ++ [name]) = none)
    (named : Path.IsName name)
    (folder : ∃ mode modified, d.node? above = some (.folder mode modified)) :
    d.Fits (above ++ [name]) (some node) := by
  obtain ⟨mode, modified, found⟩ := folder
  refine ⟨fun _ _ impossible => ?_, by simpa using real, .inr (.inr ⟨above, name, mode, modified, rfl,
    named, found⟩)⟩
  rw [missing] at impossible
  cases impossible

theorem vacant_of_spot (d : Disk) (regular : d.Regular) (aim : Aim) (searched : aim ≠ .place)
    (p : Path) (spot : Spot) (reached : d.spot aim p = .ok spot)
    (solid : ∀ place mode modified, spot ≠ .taken place (.folder mode modified)) :
    d.Vacant p ∧
      (∀ content mode modified, d.Fits (p.place d.home) (some (.file content mode modified))) ∧
      ∀ mode modified, d.node? (p.place d.home) ≠ some (.folder mode modified) := by
  rcases spot_place d regular aim p spot reached with
    ⟨node, rfl, held⟩ | ⟨above, name, rfl, split, named, missing, folder⟩
  · have found := find_of_spot d regular aim searched p _ node reached
    cases node with
    | folder mode modified => exact absurd rfl (solid _ mode modified)
    | link target => exact absurd held (regular.linkless _ target)
    | file content mode modified =>
      refine ⟨.inr ⟨content, mode, modified, found⟩, fun _ _ _ => ?_, by simp [held]⟩
      exact fits_file d _ _ _ _ _ _ _ regular held
  · have ended := ((spot_eq_ok_iff d aim p _).1 reached).2.free_end regular
    refine ⟨.inl ⟨missing, ended⟩, fun _ _ _ => ?_, by simp [missing]⟩
    rw [split] at missing ⊢
    exact fits_free d above name _ (by simp) missing named folder

theorem store_becomes (d : Disk) (regular : d.Regular) (p : Path) (content : ByteArray) (fresh : Nat)
    (mode : Option Nat) (after : Disk) (stored : d.store p content fresh mode = .ok after) :
    d.Becomes after [p.place d.home] (Function.update d.contents (p.place d.home) (some content)) ∧
      d.Vacant p := by
  rcases store_eq_ok stored with ⟨place, held, old, modified, reached, -, rfl⟩ | ⟨place, reached, -, rfl⟩
  · obtain ⟨vacant, fits, -⟩ := vacant_of_spot d regular .target (by simp) p _ reached (by simp)
    obtain ⟨rfl, -⟩ := find_place d regular p place _
      (find_of_spot d regular .target (by simp) p place _ reached)
    exact ⟨becomes_put d regular _ content _ _ (fits _ _ _), vacant⟩
  · obtain ⟨vacant, fits, -⟩ := vacant_of_spot d regular .target (by simp) p _ reached (by simp)
    obtain rfl := free_place d regular .target p place reached
    have put := becomes_put d regular _ content fresh d.now (fits _ _ _)
    exact ⟨put.touch (p.place d.home).folder, vacant⟩

theorem write_becomes (d : Disk) (regular : d.Regular) (p : Path) (content : ByteArray) (after : Disk)
    (written : d.write p content = .ok after) :
    d.Becomes after [p.place d.home] (Function.update d.contents (p.place d.home) (some content)) ∧
      d.Vacant p :=
  store_becomes d regular p content newFileMode none after written

theorem contents_of_read (d : Disk) (regular : d.Regular) (p : Path) (content : ByteArray)
    (held : d.read p = .ok content) : d.contents (p.place d.home) = some content ∧
      ∃ mode modified, d.find p = .ok (p.place d.home, .file content mode modified) := by
  obtain ⟨place, mode, modified, found⟩ := find_of_read d p content held
  obtain ⟨rfl, node⟩ := find_place d regular p place _ found
  exact ⟨(content?_eq_some_iff d _ content).2 ⟨mode, modified, node⟩, mode, modified, found⟩

theorem copy_vacant (d : Disk) (regular : d.Regular) (origin target : Path) (after : Disk)
    (copied : d.copy origin target = .ok after) : d.Vacant target ∧
      ∃ content mode modified, d.find origin = .ok (origin.place d.home, .file content mode modified) := by
  obtain ⟨place, content, mode, held, stored⟩ := copy_eq_ok copied
  obtain ⟨modified, found, -⟩ := source_eq_ok held
  obtain ⟨rfl, -⟩ := find_place d regular origin place _ found
  exact ⟨(store_becomes d regular target _ mode (some mode) after stored).2, content, mode, modified, found⟩

theorem copy_becomes (d : Disk) (regular : d.Regular) (origin target : Path) (after : Disk)
    (apart : target.place d.home ≠ origin.place d.home) (copied : d.copy origin target = .ok after) :
    d.Becomes after [target.place d.home]
      (d.contents.copy (origin.place d.home) (target.place d.home)) := by
  obtain ⟨place, content, mode, held, stored⟩ := copy_eq_ok copied
  obtain ⟨modified, found, -⟩ := source_eq_ok held
  obtain ⟨rfl, node⟩ := find_place d regular origin place _ found
  -- A copy onto the file itself would empty it, but the places differ.
  have missed : d.leadsTo target (origin.place d.home) = false := by
    unfold leadsTo
    split
    next there other found' =>
      obtain ⟨rfl, -⟩ := find_place d regular target there other found'
      exact beq_eq_false_iff_ne.2 apart
    · rfl
  simp only [missed, Bool.false_eq_true, if_false] at stored
  obtain ⟨becomes, -⟩ := store_becomes d regular target content mode (some mode) after stored
  have own : d.contents (origin.place d.home) = some content :=
    (content?_eq_some_iff d _ content).2 ⟨mode, modified, node⟩
  rwa [← own] at becomes

theorem endsInSeparator_of_find (d : Disk) (regular : d.Regular) (p : Path) (place : Location)
    (node : Node) (found : d.find p = .ok (place, node)) (solid : node.isFolder = false) :
    p.endsInSeparator = false := by
  cases ended : p.endsInSeparator with
  | false => rfl
  | true =>
    obtain ⟨-, leads⟩ := (find_leads_iff d p place node).1 found
    have last : p.steps.getLast? = some .folder := by simp [Path.steps, ended]
    obtain ⟨there, mode, modified, same⟩ := leads.folder_end regular
      (by rintro none; simp [none] at last) (by simp [last])
    cases same
    cases solid

theorem entry_eq_spot (d : Disk) (p : Path) (ended : p.endsInSeparator = false) :
    d.entry p = d.spot .entry p := by
  rw [entry, spot, Path.withoutEnd_eq p ended]

theorem removeFile_becomes (d : Disk) (regular : d.Regular) (p : Path) (after : Disk)
    (removed : d.removeFile p = .ok after) :
    d.Becomes after [p.place d.home] (d.contents.drop (p.place d.home)) ∧
      ∃ content mode modified, d.find p = .ok (p.place d.home, .file content mode modified) := by
  obtain ⟨place, node, reached, ended, -, -, solid, rfl⟩ := removeFile_eq_ok removed
  rw [entry_eq_spot d p ended] at reached
  have found := find_of_spot d regular .entry (by simp) p place node reached
  obtain ⟨rfl, held⟩ := find_place d regular p place node found
  cases node with
  | folder => cases solid
  | link target => exact absurd held (regular.linkless _ target)
  | file content mode modified =>
    have erased := becomes_erase d regular (p.place d.home) (by simp [held])
    exact ⟨erased.touch (p.place d.home).folder, content, mode, modified, found⟩

theorem makeFolder_becomes (d : Disk) (regular : d.Regular) (p : Path) (after : Disk)
    (made : d.makeFolder p = .ok after) : d.Becomes after [] d.contents := by
  obtain ⟨place, reached, -, rfl⟩ := makeFolder_eq_ok made
  obtain ⟨-, leads⟩ := (entry_eq_ok_iff d p _).1 reached
  rcases leads.place regular (Path.isName_of_enter p.withoutEnd) with
    ⟨node, impossible⟩ | ⟨above, name, here, split, named, missing, folder⟩
  · cases impossible
  · cases here
    rw [split] at missing ⊢
    have later := put_later d regular _ (.folder newFolderMode d.now)
      (fits_free d above name _ (by simp) missing named folder)
    have put : d.Becomes (d.put (above ++ [name]) (.folder newFolderMode d.now)) [] d.contents := by
      refine becomes_of_kept later (fun other _ => ?_) (by simp) (fun _ _ => rfl)
      by_cases same : other = above ++ [name]
      · rw [same, file?_put_self, file?, missing]
        rfl
      · exact file?_put_other d _ other _ same
    exact put.touch (Location.folder (above ++ [name]))

theorem makeFoldersUpTo_related (Related : Disk -> Disk -> Prop) (refl : ∀ d, Related d d)
    (trans : ∀ {d mid after}, Related d mid -> Related mid after -> Related d after)
    (makes : ∀ {d p after}, d.makeFolder p = .ok after -> Related d after) (depth : Nat) (d : Disk) (p : Path) :
    Related d (d.makeFoldersUpTo depth p).2 := by
  induction depth generalizing d p with
  | zero => exact refl d
  | succ depth ih =>
    unfold makeFoldersUpTo
    split
    · exact refl d
    · split
      next made done => exact makes done
      · split
        · exact refl d
        next parent _ =>
          have below := ih d parent
          generalize d.makeFoldersUpTo depth parent = outcome at below ⊢
          obtain ⟨result, made⟩ := outcome
          cases result with
          | error problem => exact below
          | ok =>
            simp only
            cases done : made.makeFolder p with
            | ok last => exact trans below (makes done)
            | error problem =>
              simp only
              split <;> exact below
      · split <;> exact refl d

theorem makeFoldersUpTo_becomes (depth : Nat) (d : Disk) (regular : d.Regular) (p : Path) :
    d.Becomes (d.makeFoldersUpTo depth p).2 [] d.contents := by
  refine makeFoldersUpTo_related (fun d after => d.Regular -> d.Becomes after [] d.contents) (fun _ => .refl)
    ?_ ?_ depth d p regular
  · intro d mid after first second regular
    have onward := second (first regular).later.regular
    rw [(first regular).held] at onward
    exact (first regular).trans onward
  · exact fun made regular => makeFolder_becomes _ regular _ _ made

theorem makeFolders_becomes (d : Disk) (regular : d.Regular) (p : Path) :
    d.Becomes (d.makeFolders p).2 [] d.contents :=
  makeFoldersUpTo_becomes _ d regular p

theorem setMode_becomes (d : Disk) (regular : d.Regular) (p : Path) (mode : Nat) (after : Disk)
    (content : ByteArray) (own : d.contents (p.place d.home) = some content)
    (changed : d.setMode p mode = .ok after) : d.Becomes after [p.place d.home] d.contents := by
  obtain ⟨oldMode, oldTime, held⟩ := (content?_eq_some_iff d _ content).1 own
  rcases setMode_eq_ok changed with ⟨place, other, old, modified, found, rfl⟩ | ⟨place, old, modified, found, -⟩
  · obtain ⟨rfl, node⟩ := find_place d regular p _ _ found
    have put := becomes_put d regular _ other mode modified (fits_file d _ _ _ _ _ _ _ regular node)
    rw [held] at node
    cases node
    rwa [← own, Function.update_eq_self] at put
  · obtain ⟨rfl, node⟩ := find_place d regular p _ _ found
    rw [held] at node
    cases node

theorem node?_carry (d : Disk) (sound : d.Sound) (old new place : Location)
    (solid : ∀ mode modified, d.node? old ≠ some (.folder mode modified))
    (open' : ∀ mode modified, d.node? new ≠ some (.folder mode modified)) :
    (d.carry old new).node? place =
      if place = new then d.node? old else if place = old then none else d.node? place := by
  by_cases atNew : place = new
  · rw [if_pos atNew, atNew, node?_carry_new]
  rw [if_neg atNew]
  unfold node? carry
  -- Below the new place and below the old one there was nothing, as no directory was there.
  by_cases belowNew : new <+: place
  · obtain ⟨names, rfl⟩ := belowNew
    have filled : names ≠ [] := by
      rintro rfl
      exact atNew (List.append_nil new)
    have emptyOld := sound.node?_below old names solid filled
    have emptyNew := sound.node?_below new names open' filled
    obtain ⟨next, rest, rfl⟩ := List.exists_cons_of_ne_nil filled
    rw [Tree.find?_graft_inside, ← Tree.find?_below]
    unfold node? at emptyOld emptyNew
    rw [emptyOld, emptyNew, ite_self]
  · rw [Tree.find?_graft_outside _ _ _ _ _ _ (by simpa [List.cons_prefix_cons] using belowNew)]
    by_cases atOld : place = old
    · subst atOld
      simp [Tree.find?, Tree.branch_graft_self, Tree.Branch.none]
    rw [if_neg atOld]
    by_cases belowOld : old <+: place
    · obtain ⟨names, rfl⟩ := belowOld
      have filled : names ≠ [] := by
        rintro rfl
        exact atOld (List.append_nil old)
      have emptyOld := sound.node?_below old names solid filled
      obtain ⟨next, rest, rfl⟩ := List.exists_cons_of_ne_nil filled
      rw [Tree.find?_graft_inside]
      exact emptyOld.symm
    · exact Tree.find?_graft_outside _ _ _ _ _ _ (by simpa [List.cons_prefix_cons] using belowOld)

theorem carry_becomes (d : Disk) (regular : d.Regular) (old new : Location) (node : Node)
    (apart : old ≠ new) (found : d.node? old = some node) (regularNode : node.isFile = true)
    (open' : ∀ mode modified, d.node? new ≠ some (.folder mode modified))
    (fits : d.Fits new (some node)) :
    d.Becomes (d.carry old new) [old, new] (d.contents.carry old new) := by
  have solid : ∀ mode modified, d.node? old ≠ some (.folder mode modified) := by
    rintro mode modified folder
    rw [found] at folder
    cases folder
    cases regularNode
  -- A file has nothing below it, so that the move changes its two ends alone.
  have nodes := fun place => node?_carry d regular.toSound old new place solid open'
  have later : d.Later (d.carry old new) := by
    refine later_of_fits regular ?_ rfl rfl rfl fun place => ?_
    · apply Tree.tidy_graft
      · exact fun _ _ => Tree.tidy_branch _ _ _ regular.tidy
      · exact Tree.tidy_graft _ _ _ _ (fun _ _ => trivial) regular.tidy
    · rw [nodes]
      split
      next same =>
        rw [same, found]
        exact fits
      · split
        next same =>
          subst same
          exact ⟨fun mode modified folder => absurd folder (solid mode modified), by simp, .inl rfl⟩
        · exact fits_self d regular place
  refine becomes_of_kept later ?_ ?_ ?_
  · intro place outside
    obtain ⟨notOld, notNew⟩ : place ≠ old ∧ place ≠ new := by simpa using outside
    rw [file?, nodes, if_neg notNew, if_neg notOld, file?]
  · intro place inside
    rcases (by simpa using inside : place = old ∨ place = new) with rfl | rfl
    · rw [Files.carry, Files.drop, Function.update_self, content?, nodes, if_neg apart, if_pos rfl]
    · rw [Files.carry, Files.drop, Function.update_of_ne (Ne.symm apart), Files.copy,
        Function.update_self, content?, nodes, if_pos rfl]
      rfl
  · intro place outside
    obtain ⟨notOld, notNew⟩ : place ≠ old ∧ place ≠ new := by simpa using outside
    rw [Files.carry, Files.drop, Function.update_of_ne notOld, Files.copy, Function.update_of_ne notNew]
    rfl

theorem mayReplace_solid (d : Disk) (r : Renaming) (solid : r.node.isFolder = false)
    (may : d.mayReplace r = true) (other : Node) (inTheWay : r.inTheWay = some other) :
    other.isFolder = false := by
  simpa [mayReplace, inTheWay, solid] using may

theorem rename?_some (d : Disk) (regular : d.Regular) (origin target : Path) (content : ByteArray)
    (mode : Nat) (modified : Instant) (after : Disk)
    (found : d.find origin = .ok (origin.place d.home, .file content mode modified))
    (renamed : d.rename? origin target = some after) :
    (∃ spot, d.spot .entry target = .ok spot ∧
        ∀ place mode modified, spot ≠ .taken place (.folder mode modified)) ∧
      (origin.place d.home = target.place d.home ∨
        after = ((d.carry (origin.place d.home) (target.place d.home)).touch
          (origin.place d.home).folder).touch (target.place d.home).folder) := by
  obtain ⟨r, ends, level, made⟩ := rename?_eq_some renamed
  obtain ⟨reached, reached'⟩ := renaming?_ends d origin target r ends
  rw [entry_eq_spot d origin (endsInSeparator_of_find d regular origin _ _ found rfl)] at reached
  have same := find_of_spot d regular .entry (by simp) origin _ _ reached
  rw [found] at same
  obtain ⟨old, moved⟩ : origin.place d.home = r.old ∧ .file content mode modified = r.node := by
    simpa using same
  have solid : r.node.isFolder = false := by
    rw [← moved]
    rfl
  rw [entry_eq_spot d target (level solid).2] at reached'
  have new : r.new = target.place d.home := by
    rcases reached' with ⟨other, taken, -⟩ | free
    · exact (find_place d regular target _ _
        (find_of_spot d regular .entry (by simp) target _ _ taken)).1
    · exact free_place d regular .entry target _ free
  constructor
  · rcases reached' with ⟨other, taken, blocks⟩ | free
    · refine ⟨_, taken, ?_⟩
      rintro place folderMode age ⟨⟩
      -- A name is left alone, or is free to be replaced.
      rcases made with ⟨kept, -⟩ | ⟨-, may, -⟩
      · have held := find_node d target _ _
          (find_of_spot d regular .entry (by simp) target _ _ taken)
        rw [← kept, ← old, find_node d origin _ _ found] at held
        cases held
      · have replaces : d.mayReplace r = true := by simp_all [mayRename]
        exact absurd (mayReplace_solid d r solid replaces _ blocks) (by simp [Node.isFolder])
    · exact ⟨_, free, by simp⟩
  · rcases made with ⟨kept, -⟩ | ⟨-, -, rfl⟩
    · exact .inl (by rw [old, kept, new])
    · exact .inr (by rw [old, new])

theorem rename?_becomes (d : Disk) (regular : d.Regular) (origin target : Path) (content : ByteArray)
    (mode : Nat) (modified : Instant) (after : Disk)
    (apart : target.place d.home ≠ origin.place d.home)
    (found : d.find origin = .ok (origin.place d.home, .file content mode modified))
    (renamed : d.rename? origin target = some after) :
    d.Becomes after [origin.place d.home, target.place d.home]
      (d.contents.carry (origin.place d.home) (target.place d.home)) := by
  obtain ⟨⟨spot, reached, solid⟩, kept | rfl⟩ :=
    rename?_some d regular origin target content mode modified after found renamed
  · exact absurd kept.symm apart
  obtain ⟨-, fits, open'⟩ := vacant_of_spot d regular .entry (by simp) target spot reached solid
  have carried := carry_becomes d regular (origin.place d.home) (target.place d.home) _
    (Ne.symm apart) (find_node d origin _ _ found) rfl open' (fits _ _ _)
  exact (carried.touch (origin.place d.home).folder).touch (target.place d.home).folder

theorem find_later (d after : Disk) (regular : d.Regular) (later : d.Later after) (p : Path)
    (place : Location) (node : Node) (found : d.find p = .ok (place, node)) (regularNode : node.isFile = true)
    (kept : after.file? place = d.file? place) : after.find p = .ok (place, node) := by
  obtain ⟨accepted, leads⟩ := (find_leads_iff d p place node).1 found
  have held : after.node? place = some node := by
    have own : d.file? place = some node := (file?_eq_some_iff d place node).2
      ⟨find_node d p place node found, regularNode⟩
    rw [← kept] at own
    exact ((file?_eq_some_iff after place node).1 own).1
  -- The walk passes directories, which are still there, up to the file, which did not change.
  have alike : ∀ there other, d.node? there = some other -> other.isFile = false ∨ there = place ->
      ∃ same, after.node? there = some same ∧ other.Alike same := by
    rintro there other known (passed | rfl)
    · cases other with
      | folder mode modified =>
        obtain ⟨age, folder⟩ := later.folders there mode modified known
        exact ⟨_, folder, rfl⟩
      | file => cases passed
      | link target => exact absurd known (regular.linkless there target)
    · rw [find_node d p there node found] at known
      cases known
      exact ⟨node, held, .refl node⟩
  obtain ⟨same, isSame, onward⟩ := leads.alike later.privileged alike
  have equal : same = node := by
    cases node with
    | file => exact isSame.file
    | folder | link => cases regularNode
  subst equal
  rw [← later.home] at onward
  exact (find_leads_iff after p place same).2 ⟨accepted, onward⟩

theorem Leads.entry {d : Disk} (regular : d.Regular) {links : Nat} {here : Location}
    {steps : List Step} {spot : Spot} (leads : d.Leads .object links here steps spot) :
    d.Leads .entry links here steps spot := by
  exact leads.retaken (fun _ => rfl) id (by simp) (fun _ _ _ _ => rfl)
    fun place target link => absurd link (regular.linkless place target)

theorem removeFile_privileged (d : Disk) (regular : d.Regular) (privileged : d.privileged = true)
    (p : Path) (content : ByteArray) (mode : Nat) (modified : Instant) (named : endsInName p = true)
    (found : d.find p = .ok (p.place d.home, .file content mode modified)) :
    ∃ after, d.removeFile p = .ok after := by
  have ended := endsInSeparator_of_find d regular p _ _ found rfl
  obtain ⟨accepted, leads⟩ := (find_leads_iff d p _ _).1 found
  have reached : d.entry p = .ok (.taken (p.place d.home) (.file content mode modified)) := by
    rw [entry_eq_spot d p ended]
    exact (spot_eq_ok_iff d .entry p _).2 ⟨accepted, leads.entry regular⟩
  obtain ⟨folderMode, age, folder⟩ := regular.toSound.folder_above _ _ (find_node d p _ _ found)
  refine ⟨(d.erase (p.place d.home)).touch (p.place d.home).folder, ?_⟩
  simp [removeFile, reached, ended, named, mayChange, folder, allows, privileged, Node.isFolder]

end Stowage.Disk

import Mathlib.Data.List.Nodup
import Mathlib.Data.List.Perm.Subperm
import Mathlib.Data.List.Range
import Stowage.Proofs.Disk.Changes
import Stowage.Proofs.Disk.Walks
import Stowage.Proofs.Relocation.Deciding

set_option autoImplicit false

namespace Stowage

theorem Tree.length_entries {Value : Type} (tree : Tree Value) (above : List String) :
    (tree.entries above).length = tree.count := by
  induction tree generalizing above with
  | bare => rfl
  | row name value below beside ihBelow ihBeside =>
    simp only [entries, count, List.length_append, List.length_map, ihBelow, ihBeside]

def Path.joins (folder : Path) (names : List String) : Path :=
  names.foldl (fun path name => path.join ⟨name⟩) folder

theorem Path.joins_cons (folder : Path) (name : String) (names : List String) :
    folder.joins (name :: names) = (folder.join ⟨name⟩).joins names := rfl

theorem Path.Plain.join_name {folder : Path} (plain : folder.Plain) {name : String} (named : IsName name)
    (home : Location) :
    (folder.join ⟨name⟩).Plain ∧ (folder.join ⟨name⟩).place home = folder.place home ++ [name] := by
  have spelt := components_join_name folder named
  rw [plain.components home, List.cons_append, ← List.map_singleton, ← List.map_append] at spelt
  exact ⟨⟨_, spelt⟩, place_of_components home _ _ spelt⟩

namespace Disk

theorem Sound.length_lt_count {d : Disk} (sound : d.Sound) (place : Location) (node : Node)
    (found : d.node? place = some node) : place.length < d.tree.count := by
  -- What is passed on the way down are so many nodes, and no two of them are one.
  let passed := (List.range (place.length + 1)).map place.take
  have within : passed ⊆ d.nodes.map Prod.fst := by
    intro above member
    obtain ⟨length, -, rfl⟩ := List.mem_map.1 member
    rw [← List.take_append_drop length place] at found
    obtain ⟨folder, held⟩ := sound.node?_above _ _ node found
    exact List.mem_map.2 ⟨_, d.mem_nodes_of_node? _ folder held, rfl⟩
  have distinct : passed.Nodup := by
    refine List.Nodup.map_on ?_ List.nodup_range
    intro length below length' below' same
    have lengths := congrArg List.length same
    simp only [List.length_take, List.mem_range] at lengths below below'
    omega
  have short := (distinct.subperm within).length_le
  simp only [passed, nodes, List.length_map, List.length_range, Tree.length_entries] at short
  omega

def lists (d : Disk) (folder : Path) : Bool :=
  match d.list folder with
  | .ok _ => true
  | .error _ => false

theorem lists_iff (d : Disk) (folder : Path) :
    d.lists folder = true ↔ ∃ entries, d.list folder = .ok entries := by
  unfold lists
  cases d.list folder <;> simp

def sees (d : Disk) (excludes : Excludes) : Path -> List String -> Bool
  | _, [] => false
  | folder, name :: rest =>
    d.lists folder && !excludes.leavesOut name (folder.join ⟨name⟩) &&
      match d.node? (folder.place d.home ++ [name]) with
      | some (.file _ _ _) => rest.isEmpty
      | some (.folder _ _) => d.sees excludes (folder.join ⟨name⟩) rest
      | _ => false

theorem sees_cons (d : Disk) (excludes : Excludes) (folder : Path) (name : String) (rest : List String) :
    d.sees excludes folder (name :: rest) = true ↔
      d.lists folder = true ∧ excludes.leavesOut name (folder.join ⟨name⟩) = false ∧
        ∃ node, d.node? (folder.place d.home ++ [name]) = some node ∧
          (node.isFile = true ∧ rest = [] ∨
            node.isFolder = true ∧ d.sees excludes (folder.join ⟨name⟩) rest = true) := by
  rw [sees]
  cases d.node? (folder.place d.home ++ [name]) with
  | none => simp
  | some node => cases node <;> simp [Node.isFile, Node.isFolder, and_assoc]

theorem mem_walkedAt_iff (d : Disk) (excludes : Excludes) (depth : Nat) (folder path : Path)
    (entry : String × Node) : path ∈ d.walkedAt excludes depth folder entry ↔
      excludes.leavesOut entry.1 (folder.join ⟨entry.1⟩) = false ∧
        (entry.2.isFile = true ∧ path = folder.join ⟨entry.1⟩ ∨
          entry.2.isFolder = true ∧ path ∈ d.walked excludes depth (folder.join ⟨entry.1⟩)) := by
  unfold walkedAt
  simp only
  cases excludes.leavesOut entry.1 (folder.join ⟨entry.1⟩) with
  | true => simp
  | false => cases entry.2 <;> simp [Node.isFile, Node.isFolder]

section

variable {d : Disk} (regular : d.Regular)

include regular

theorem mem_list_iff (folder : Path) (entries : List (String × Node)) (listed : d.list folder = .ok entries)
    (name : String) (node : Node) :
    (name, node) ∈ entries ↔ d.node? (folder.place d.home ++ [name]) = some node := by
  unfold list at listed
  split at listed
  · cases listed
  next place mode modified found =>
    obtain ⟨rfl, -⟩ := find_place d regular folder place _ found
    split at listed
    · cases listed
      rw [List.mem_mergeSort, mem_children_iff d regular.toSound]
    · cases listed
  · cases listed

theorem mem_walked_iff (excludes : Excludes) (depth : Nat) (folder path : Path) (plain : folder.Plain) :
    path ∈ d.walked excludes depth folder ↔
      ∃ names, names.length ≤ depth ∧ path = folder.joins names ∧ d.sees excludes folder names = true := by
  induction depth generalizing folder with
  | zero =>
    constructor
    · exact fun impossible => (nomatch impossible)
    · rintro ⟨names, short, -, sees⟩
      obtain rfl := List.length_eq_zero_iff.1 (Nat.le_zero.1 short)
      cases sees
  | succ depth ih =>
    rw [walked_succ]
    cases listed : d.list folder with
    | error problem =>
      -- What cannot be listed is neither walked nor seen.
      have closed : d.lists folder = false := by simp [lists, listed]
      constructor
      · exact fun impossible => (nomatch impossible)
      · rintro ⟨names, -, -, sees⟩
        cases names with
        | nil => cases sees
        | cons name rest =>
          rw [((sees_cons ..).1 sees).1] at closed
          cases closed
    | ok entries =>
      have lists : d.lists folder = true := (d.lists_iff folder).2 ⟨entries, listed⟩
      have children := mem_list_iff regular folder entries listed
      have plain' : ∀ name node, (name, node) ∈ entries -> (folder.join ⟨name⟩).Plain := fun name node inside =>
        (plain.join_name ((d.mem_list regular.toSound folder entries listed).2 _ inside) d.home).1
      simp only [List.mem_flatMap, mem_walkedAt_iff]
      constructor
      · rintro ⟨⟨name, node⟩, inside, kept, ⟨file, rfl⟩ | ⟨solid, deeper⟩⟩
        · exact ⟨[name], by simp, rfl,
            (sees_cons ..).2 ⟨lists, kept, node, (children name node).1 inside, .inl ⟨file, rfl⟩⟩⟩
        · obtain ⟨names, short, rfl, sees⟩ := (ih _ (plain' name node inside)).1 deeper
          exact ⟨name :: names, Nat.succ_le_succ short, rfl,
            (sees_cons ..).2 ⟨lists, kept, node, (children name node).1 inside, .inr ⟨solid, sees⟩⟩⟩
      · rintro ⟨names, short, rfl, sees⟩
        cases names with
        | nil => cases sees
        | cons name rest =>
          obtain ⟨-, kept, node, held, ends⟩ := (sees_cons ..).1 sees
          have inside := (children name node).2 held
          refine ⟨(name, node), inside, kept, ?_⟩
          rcases ends with ⟨file, rfl⟩ | ⟨solid, onward⟩
          · exact .inl ⟨file, rfl⟩
          · exact .inr ⟨solid, (ih _ (plain' name node inside)).2
              ⟨rest, Nat.le_of_succ_le_succ short, rfl, onward⟩⟩

theorem place_of_sees (excludes : Excludes) (folder : Path) (plain : folder.Plain) (names : List String)
    (sees : d.sees excludes folder names = true) :
    (folder.joins names).place d.home = folder.place d.home ++ names ∧
      (d.file? (folder.place d.home ++ names)).isSome = true := by
  induction names generalizing folder with
  | nil => cases sees
  | cons name rest ih =>
    obtain ⟨-, -, node, held, ends⟩ := (sees_cons ..).1 sees
    obtain ⟨plain', place⟩ := plain.join_name (regular.named _ _ _ held) d.home
    rw [Path.joins_cons]
    rcases ends with ⟨file, rfl⟩ | ⟨-, onward⟩
    · refine ⟨place, ?_⟩
      rw [(file?_eq_some_iff d _ node).2 ⟨held, file⟩]
      rfl
    · rw [← List.singleton_append, ← List.append_assoc, ← place]
      exact ih _ plain' onward

theorem mem_files_iff (excludes : Excludes) (folder path : Path) (plain : folder.Plain) :
    path ∈ d.files excludes folder ↔ d.isFolder folder = true ∧
      ∃ names, path = folder.joins names ∧ d.sees excludes folder names = true := by
  unfold files explore
  split
  next solid =>
    refine (mem_walked_iff regular excludes _ folder path plain).trans ?_
    constructor
    · rintro ⟨names, -, spelt, sees⟩
      exact ⟨solid, names, spelt, sees⟩
    · rintro ⟨-, names, spelt, sees⟩
      obtain ⟨-, file⟩ := place_of_sees regular excludes folder plain names sees
      obtain ⟨node, held⟩ := Option.isSome_iff_exists.1 file
      -- The walk goes down as far as there are nodes, which is far enough for every place.
      have short := regular.length_lt_count _ node ((file?_eq_some_iff d _ node).1 held).1
      rw [List.length_append] at short
      exact ⟨names, by omega, spelt, sees⟩
  next outside =>
    constructor
    · exact fun impossible => (nomatch impossible)
    · exact fun ⟨solid, _⟩ => absurd solid outside

end

/-- A walk with no closed directory on the way. -/
def Open (d : Disk) (excludes : Excludes) (depth : Nat) (folder : Path) : Prop :=
  ∀ path problem, Sighting.closed path problem ∉ d.sightings excludes depth folder

theorem Open.lists {d : Disk} {excludes : Excludes} {depth : Nat} {folder : Path}
    (open' : d.Open excludes (depth + 1) folder) : d.lists folder = true := by
  unfold Open sightings at open'
  unfold Disk.lists
  split at open'
  next problem _ => exact absurd (List.mem_singleton_self _) (open' folder problem)
  next listed => rw [listed]

theorem Open.below {d : Disk} (regular : d.Regular) {excludes : Excludes} {depth : Nat} {folder : Path}
    (open' : d.Open excludes (depth + 1) folder) (name : String)
    (kept : excludes.leavesOut name (folder.join ⟨name⟩) = false)
    (below : d.FolderAt (folder.place d.home ++ [name])) : d.Open excludes depth (folder.join ⟨name⟩) := by
  intro path problem sighted
  obtain ⟨mode, modified, held⟩ := below
  obtain ⟨entries, listed⟩ := (d.lists_iff folder).1 open'.lists
  refine open' path problem ?_
  unfold sightings
  rw [listed]
  refine List.mem_flatMap.2 ⟨(name, _), (mem_list_iff regular folder entries listed name _).2 held, ?_⟩
  simp only [kept, Bool.false_eq_true, if_false]
  exact sighted

section

variable {d after : Disk} (regular : d.Regular) (later : d.Later after)

include regular later

theorem sees_earlier (excludes : Excludes) (depth : Nat) (folder : Path) (plain : folder.Plain)
    (names : List String) (open' : d.Open excludes depth folder) (short : names.length ≤ depth)
    (seen : after.sees excludes folder names = true)
    (held : (d.file? (folder.place d.home ++ names)).isSome = true) :
    d.sees excludes folder names = true := by
  induction names generalizing folder depth with
  | nil => cases seen
  | cons name rest ih =>
    obtain ⟨depth, rfl⟩ : ∃ more, depth = more + 1 := ⟨depth - 1, by simp at short; omega⟩
    obtain ⟨-, kept, node', held', ends⟩ := (sees_cons ..).1 seen
    obtain ⟨node, file⟩ := Option.isSome_iff_exists.1 held
    obtain ⟨found, solid⟩ := (file?_eq_some_iff d _ node).1 file
    rcases ends with ⟨-, rfl⟩ | ⟨-, onward⟩
    · exact (sees_cons ..).2 ⟨open'.lists, kept, node, found, .inl ⟨solid, rfl⟩⟩
    · -- Something hangs below the name, which therefore is that of a directory.
      have filled : rest ≠ [] := by
        rintro rfl
        cases onward
      obtain ⟨plain', place⟩ := plain.join_name (later.regular.named _ _ _ held') d.home
      rw [← List.singleton_append, ← List.append_assoc] at found held
      obtain ⟨mode, modified, folder'⟩ := regular.folderAt_above _ rest node filled found
      refine (sees_cons ..).2 ⟨open'.lists, kept, _, folder', .inr ⟨rfl, ?_⟩⟩
      refine ih depth _ plain' (open'.below regular name kept ⟨mode, modified, folder'⟩)
        (Nat.le_of_succ_le_succ short) onward ?_
      rwa [place]

omit regular in
theorem Leads.earlier {aim : Aim} {links : Nat} {here : Location} {steps : List Step} {spot : Spot}
    (leads : after.Leads aim links here steps spot)
    (folders : ∀ front, front <+: steps -> d.FolderAt (front.foldl Location.follow here)) :
    ∃ mode modified, d.Leads aim links here steps
      (.taken (steps.foldl Location.follow here) (.folder mode modified)) := by
  have opens : ∀ {here : Location} {step : Step}, after.Opens aim here step -> d.FolderAt here ->
      d.Opens aim here step := by
    rintro here step ⟨mode', modified', folder', allowed⟩ ⟨mode, modified, folder⟩
    obtain ⟨other, same⟩ := later.folders here mode modified folder
    rw [folder'] at same
    cases same
    refine ⟨mode', modified, folder, fun searched => ?_⟩
    have allowed' := allowed searched
    rwa [allows, later.privileged] at allowed'
  -- No step fails later that did not fail before: the folders on the way are the earlier ones, and there are no links.
  have start := folders [] List.nil_prefix
  induction leads with
  | stop =>
    obtain ⟨mode, modified, folder⟩ := start
    exact ⟨mode, modified, .stop folder⟩
  | @linger _ _ step _ _ lingers open' _ ih =>
    have stays : ∀ here : Location, here.follow step = here := by
      rcases lingers with rfl | rfl <;> exact fun _ => rfl
    have onward := fun front within => folders (step :: front) (List.cons_prefix_cons.2 ⟨rfl, within⟩)
    simp only [List.foldl_cons, stays] at onward ⊢
    obtain ⟨mode, modified, leads⟩ := ih onward start
    exact ⟨mode, modified, .linger lingers (opens open' start) leads⟩
  | up open' _ ih =>
    have onward := fun front within => folders (.up :: front) (List.cons_prefix_cons.2 ⟨rfl, within⟩)
    obtain ⟨mode, modified, leads⟩ := ih onward (onward [] List.nil_prefix)
    exact ⟨mode, modified, .up (opens open' start) leads⟩
  | free _ _ missing =>
    obtain ⟨mode, modified, folder⟩ := folders _ List.prefix_rfl
    obtain ⟨other, same⟩ := later.folders _ mode modified folder
    cases missing.symm.trans same
  | halt _ _ found _ | follow _ _ _ found _ _ _ => exact absurd found (later.regular.linkless _ _)
  | @enter _ _ name _ _ _ open' short wanted _ _ _ ih =>
    have onward := fun front within => folders (.enter name :: front) (List.cons_prefix_cons.2 ⟨rfl, within⟩)
    obtain ⟨mode, modified, leads⟩ := ih onward (onward [] List.nil_prefix)
    obtain ⟨mode', modified', folder⟩ := onward [] List.nil_prefix
    exact ⟨mode, modified, .enter (opens open' start) short wanted folder (by simp) leads⟩

theorem isFolder_earlier (folder : Path) (plain : folder.Plain) (held : d.FolderAt (folder.place d.home))
    (solid : after.isFolder folder = true) : d.isFolder folder = true := by
  unfold isFolder at solid
  split at solid
  next place node found =>
    obtain ⟨accepted, leads⟩ := (find_leads_iff after folder place node).1 found
    rw [plain.isAbsolute, if_pos rfl] at leads
    have within : ∀ front, front <+: folder.steps -> d.FolderAt (front.foldl Location.follow []) := by
      intro front passed
      obtain ⟨names, below⟩ := Path.follow_prefix (.inl plain) passed
      rw [plain.names d.home] at below
      obtain ⟨mode, modified, folder'⟩ := held
      by_cases filled : names = []
      · subst filled
        rw [List.append_nil] at below
        exact ⟨mode, modified, by rw [below, folder']⟩
      · rw [← below] at folder'
        exact regular.folderAt_above _ names _ filled folder'
    obtain ⟨mode, modified, onward⟩ := leads.earlier later within
    have found' := (find_leads_iff d folder _ _).2
      ⟨accepted, by rw [plain.isAbsolute, if_pos rfl]; exact onward⟩
    simp [isFolder, found', Node.isFolder]
  · cases solid

theorem files_earlier (excludes : Excludes) (folder path : Path) (plain : folder.Plain)
    (open' : ∀ other problem, Sighting.closed other problem ∉ d.explore excludes folder)
    (listed : path ∈ after.files excludes folder) (held : (d.file? (path.place d.home)).isSome = true) :
    path ∈ d.files excludes folder := by
  obtain ⟨solid, names, rfl, seen⟩ := (mem_files_iff later.regular excludes folder path plain).1 listed
  obtain ⟨place, -⟩ := place_of_sees later.regular excludes folder plain names seen
  rw [later.home] at place
  rw [place] at held
  obtain ⟨node, file⟩ := Option.isSome_iff_exists.1 held
  have found := ((file?_eq_some_iff d _ node).1 file).1
  have filled : names ≠ [] := by
    rintro rfl
    cases seen
  have below := regular.folderAt_above _ names node filled found
  have solid' := isFolder_earlier regular later folder plain below solid
  have short := regular.length_lt_count _ node found
  rw [List.length_append] at short
  unfold explore at open'
  rw [if_pos solid'] at open'
  exact (mem_files_iff regular excludes folder _ plain).2 ⟨solid', names, rfl,
    sees_earlier regular later excludes _ folder plain names open' (by omega) seen held⟩

end

end Disk

end Stowage

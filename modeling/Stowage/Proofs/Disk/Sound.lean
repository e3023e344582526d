import Mathlib.Data.List.Induction
import Stowage.Proofs.Disk.Touching
import Stowage.Proofs.Path.Places

set_option autoImplicit false

namespace Stowage

namespace Tree

variable {Value : Type}

def Lacks (name : String) : Tree Value -> Prop
  | bare => True
  | row other _ _ beside => other ≠ name ∧ beside.Lacks name

def Tidy : Tree Value -> Prop
  | bare => True
  | row name _ below beside => beside.Lacks name ∧ below.Tidy ∧ beside.Tidy

theorem tidy_single (held : Branch Value) (name : String) (names : List String)
    (tidy : held.below.Tidy) : (single held name names).Tidy := by
  induction names generalizing name with
  | nil => exact ⟨trivial, tidy, trivial⟩
  | cons next rest ih => exact ⟨trivial, ih next, trivial⟩

theorem lacks_single (held : Branch Value) (name other : String) (names : List String)
    (differs : name ≠ other) : (single held name names).Lacks other := by
  cases names <;> exact ⟨differs, trivial⟩

theorem lacks_graft (change : Branch Value -> Branch Value) (tree : Tree Value)
    (name other : String) (names : List String) (differs : name ≠ other) (lacks : tree.Lacks other) :
    (tree.graft change name names).Lacks other := by
  induction tree with
  | bare => exact lacks_single _ name other names differs
  | row first value below beside _ ihBeside =>
    unfold graft
    split
    · cases names <;> exact lacks
    · exact ⟨lacks.1, ihBeside lacks.2⟩

theorem tidy_graft (change : Branch Value -> Branch Value) (tree : Tree Value) (name : String)
    (names : List String) (kept : ∀ branch, branch.below.Tidy -> (change branch).below.Tidy)
    (tidy : tree.Tidy) : (tree.graft change name names).Tidy := by
  induction tree generalizing name names with
  | bare => exact tidy_single _ name names (kept .none trivial)
  | row first value below beside ihBelow ihBeside =>
    unfold graft
    split
    · cases names with
      | nil => exact ⟨tidy.1, kept ⟨value, below⟩ tidy.2.1, tidy.2.2⟩
      | cons next rest => exact ⟨tidy.1, ihBelow next rest tidy.2.1, tidy.2.2⟩
    next differs =>
      exact ⟨lacks_graft change beside name first names (Ne.symm differs) tidy.1, tidy.2.1,
        ihBeside name names tidy.2.2⟩

theorem tidy_branch (tree : Tree Value) (name : String) (names : List String) (tidy : tree.Tidy) :
    (tree.branch name names).below.Tidy := by
  induction tree generalizing name names with
  | bare => trivial
  | row first value below beside ihBelow ihBeside =>
    unfold branch
    split
    · cases names with
      | nil => exact tidy.2.1
      | cons next rest => exact ihBelow next rest tidy.2.1
    · exact ihBeside name names tidy.2.2

theorem find?_single_outside (held : Branch Value) (name other : String)
    (names others : List String) (outside : ¬ name :: names <+: other :: others) :
    (single held name names).find? other others = none := by
  induction names generalizing name other others with
  | nil =>
    have differs : name ≠ other := by
      rintro rfl
      exact outside (by simp)
    simp [single, find?, branch, differs, Branch.none]
  | cons next rest ih =>
    by_cases same : name = other
    · cases others with
      | nil => simp [single, find?, branch, same]
      | cons second more =>
        have further : ¬ next :: rest <+: second :: more := by
          simpa [List.cons_prefix_cons, same] using outside
        simpa [single, find?, branch, same] using ih next second more further
    · simp [single, find?, branch, same, Branch.none]

theorem find?_graft_outside (change : Branch Value -> Branch Value) (tree : Tree Value)
    (name other : String) (names others : List String)
    (outside : ¬ name :: names <+: other :: others) :
    (tree.graft change name names).find? other others = tree.find? other others := by
  induction tree generalizing name other names others with
  | bare => exact find?_single_outside _ _ _ _ _ outside
  | row first value below beside ihBelow ihBeside =>
    by_cases here : first = name
    · by_cases there : first = other
      · have same : name = other := here.symm.trans there
        cases names with
        | nil => exact absurd (by simp [same]) outside
        | cons next rest =>
          cases others with
          | nil => simp [graft, find?, branch, here, same]
          | cons second more =>
            have further : ¬ next :: rest <+: second :: more := by
              simpa [List.cons_prefix_cons, same] using outside
            simpa [graft, find?, branch, here, same] using ihBelow next second rest more further
      · have missed : ¬ name = other := fun equal => there (here.trans equal)
        cases names <;> simp [graft, find?, branch, here, missed]
    · by_cases there : first = other
      · cases others <;> simp [graft, find?, branch, here, ← there]
      · simpa [graft, find?, branch, here, there] using ihBeside name other names others outside

theorem find?_graft_inside (change : Branch Value -> Branch Value) (tree : Tree Value)
    (name next : String) (names rest : List String) :
    (tree.graft change name names).find? name (names ++ next :: rest) =
      (change (tree.branch name names)).below.find? next rest := by
  rw [find?_below, branch_graft_self]

theorem not_mem_rows_of_lacks (tree : Tree Value) (name : String) (value : Value)
    (lacks : tree.Lacks name) : (name, value) ∉ tree.rows := by
  induction tree with
  | bare => simp [rows]
  | row other held below beside _ ih =>
    obtain ⟨differs, lacking⟩ := lacks
    simp [rows, ih lacking, differs]

theorem mem_rows_iff (tree : Tree Value) (name : String) (value : Value) (tidy : tree.Tidy) :
    (name, value) ∈ tree.rows ↔ tree.find? name [] = some value := by
  induction tree with
  | bare => simp [rows, find?, branch, Branch.none]
  | row first held below beside _ ihBeside =>
    by_cases same : first = name
    · subst same
      have absent := not_mem_rows_of_lacks beside first value tidy.1
      cases held <;> simp [rows, find?, branch, absent, eq_comm]
    · have onward := ihBeside tidy.2.2
      have differs : name ≠ first := Ne.symm same
      simpa [rows, find?, branch, same, differs] using onward

theorem nodup_rows (tree : Tree Value) (tidy : tree.Tidy) : (tree.rows.map Prod.fst).Nodup := by
  induction tree with
  | bare => simp [rows]
  | row first held below beside _ ihBeside =>
    have onward := ihBeside tidy.2.2
    cases held with
    | none => simpa [rows] using onward
    | some value =>
      have absent : first ∉ beside.rows.map Prod.fst := by
        intro member
        obtain ⟨⟨name, other⟩, inside, rfl⟩ := List.mem_map.1 member
        exact not_mem_rows_of_lacks beside name other tidy.1 inside
      simpa [rows, onward] using absent

end Tree

namespace Location

theorem folder_concat (place : Location) (name : String) : Location.folder (place ++ [name]) = place :=
  List.dropLast_concat

end Location

namespace Disk

/-- A disk that hangs together from its root. -/
structure Sound (d : Disk) : Prop where
  rooted : ∃ mode modified, d.node? [] = some (.folder mode modified)
  hung : ∀ place name node, d.node? (place ++ [name]) = some node ->
    ∃ mode modified, d.node? place = some (.folder mode modified)
  named : ∀ place name node, d.node? (place ++ [name]) = some node -> Path.IsName name
  tidy : d.tree.Tidy

/-- A disk of directories and files. -/
structure Regular (d : Disk) : Prop extends d.Sound where
  linkless : ∀ place target, d.node? place ≠ some (.link target)

def file? (d : Disk) (place : Location) : Option Node := (d.node? place).filter Node.isFile

def content? (d : Disk) (place : Location) : Option ByteArray :=
  match d.node? place with
  | some (.file content _ _) => some content
  | _ => none

theorem content?_congr {d after : Disk} {place other : Location}
    (same : after.file? other = d.file? place) : after.content? other = d.content? place := by
  unfold file? at same
  unfold content?
  cases found : d.node? place with
  | none =>
    cases found' : after.node? other with
    | none => rfl
    | some node => cases node <;> simp_all [Option.filter, Node.isFile]
  | some node =>
    cases found' : after.node? other with
    | none => cases node <;> simp_all [Option.filter, Node.isFile]
    | some node' => cases node <;> cases node' <;> simp_all [Option.filter, Node.isFile]

theorem file?_eq_some_iff (d : Disk) (place : Location) (node : Node) :
    d.file? place = some node ↔ d.node? place = some node ∧ node.isFile = true :=
  Option.filter_eq_some_iff

theorem content?_eq_some_iff (d : Disk) (place : Location) (content : ByteArray) :
    d.content? place = some content ↔
      ∃ mode modified, d.node? place = some (.file content mode modified) := by
  unfold content?
  cases d.node? place with
  | none => simp
  | some node => cases node <;> simp

theorem file?_of_content? (d : Disk) (place : Location) (content : ByteArray)
    (held : d.content? place = some content) :
    ∃ mode modified, d.file? place = some (.file content mode modified) := by
  obtain ⟨mode, modified, found⟩ := (content?_eq_some_iff d place content).1 held
  exact ⟨mode, modified, (file?_eq_some_iff d place _).2 ⟨found, rfl⟩⟩

theorem mem_children_iff (d : Disk) (sound : d.Sound) (place : Location) (name : String)
    (node : Node) : (name, node) ∈ d.children place ↔ d.node? (place ++ [name]) = some node := by
  unfold children node?
  rw [Tree.mem_rows_iff _ _ _ (Tree.tidy_branch d.tree rootName place sound.tidy), ← Tree.find?_below]

theorem nodup_children (d : Disk) (sound : d.Sound) (place : Location) :
    ((d.children place).map Prod.fst).Nodup :=
  Tree.nodup_rows _ (Tree.tidy_branch d.tree rootName place sound.tidy)

theorem Sound.folder_above {d : Disk} (sound : d.Sound) (place : Location) (node : Node)
    (held : d.node? place = some node) :
    ∃ mode modified, d.node? place.folder = some (.folder mode modified) := by
  cases place using List.reverseRecOn with
  | nil => exact sound.rooted
  | append_singleton above name _ =>
    rw [Location.folder_concat]
    exact sound.hung above name node held

theorem Sound.node?_below {d : Disk} (sound : d.Sound) (place : Location) (names : List String)
    (blocked : ∀ mode modified, d.node? place ≠ some (.folder mode modified)) (filled : names ≠ []) :
    d.node? (place ++ names) = none := by
  induction names using List.reverseRecOn with
  | nil => exact absurd rfl filled
  | append_singleton names name ih =>
    cases found : d.node? (place ++ (names ++ [name])) with
    | none => rfl
    | some node =>
      rw [← List.append_assoc] at found
      obtain ⟨mode, modified, folder⟩ := sound.hung _ _ _ found
      cases names with
      | nil =>
        rw [List.append_nil] at folder
        exact absurd folder (blocked mode modified)
      | cons first rest =>
        rw [ih (by simp)] at folder
        cases folder

theorem Leads.place {d : Disk} (regular : d.Regular) {aim : Aim} {links : Nat} {here : Location}
    {steps : List Step} {spot : Spot} (leads : d.Leads aim links here steps spot)
    (named : ∀ name, .enter name ∈ steps -> Path.IsName name) :
    (∃ node, spot = .taken (steps.foldl Location.follow here) node) ∨
      ∃ above name, spot = .free (steps.foldl Location.follow here) ∧
        steps.foldl Location.follow here = above ++ [name] ∧ Path.IsName name ∧
        d.node? (steps.foldl Location.follow here) = none ∧
        ∃ mode modified, d.node? above = some (.folder mode modified) := by
  induction leads with
  | stop found => exact .inl ⟨_, rfl⟩
  | linger lingers _ _ ih =>
    have onward := ih fun name member => named name (List.mem_cons_of_mem _ member)
    rcases lingers with rfl | rfl <;> exact onward
  | up _ _ ih => exact ih fun name member => named name (List.mem_cons_of_mem _ member)
  | free opens _ missing =>
    obtain ⟨mode, modified, folder, -⟩ := opens
    exact .inr ⟨_, _, rfl, rfl, named _ (by simp), missing, mode, modified, folder⟩
  | halt _ _ found _ | follow _ _ _ found _ _ _ => exact absurd found (regular.linkless _ _)
  | enter _ _ _ _ _ _ ih => exact ih fun name member => named name (List.mem_cons_of_mem _ member)

theorem spot_place (d : Disk) (regular : d.Regular) (aim : Aim) (p : Path) (spot : Spot)
    (reached : d.spot aim p = .ok spot) :
    (∃ node, spot = .taken (p.place d.home) node ∧ d.node? (p.place d.home) = some node) ∨
      ∃ above name, spot = .free (p.place d.home) ∧ p.place d.home = above ++ [name] ∧
        Path.IsName name ∧ d.node? (p.place d.home) = none ∧
        ∃ mode modified, d.node? above = some (.folder mode modified) := by
  obtain ⟨-, leads⟩ := (spot_eq_ok_iff d aim p spot).1 reached
  rcases leads.place regular (Path.isName_of_enter p) with ⟨node, rfl⟩ | free
  · exact .inl ⟨node, rfl, leads.found⟩
  · exact .inr free

theorem find_place (d : Disk) (regular : d.Regular) (p : Path) (place : Location) (node : Node)
    (found : d.find p = .ok (place, node)) :
    place = p.place d.home ∧ d.node? (p.place d.home) = some node := by
  rcases spot_place d regular .object p _ ((find_eq_ok_iff d p place node).1 found) with
    ⟨other, equal, held⟩ | ⟨above, name, impossible, -⟩
  · cases equal
    exact ⟨rfl, held⟩
  · cases impossible

end Disk

end Stowage

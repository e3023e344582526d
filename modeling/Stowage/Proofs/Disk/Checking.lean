import Stowage.Proofs.Disk.Changes

set_option autoImplicit false

namespace Stowage

namespace Tree

variable {Value : Type}

instance (name : String) : (tree : Tree Value) -> Decidable (tree.Lacks name)
  | bare => .isTrue trivial
  | row other _ _ beside =>
    have := instDecidableLacks name beside
    inferInstanceAs (Decidable (other ≠ name ∧ beside.Lacks name))

instance : (tree : Tree Value) -> Decidable tree.Tidy
  | bare => .isTrue trivial
  | row name _ below beside =>
    have := instDecidableTidy below
    have := instDecidableTidy beside
    inferInstanceAs (Decidable (beside.Lacks name ∧ below.Tidy ∧ beside.Tidy))

end Tree

instance : DecidablePred Path.IsName := fun name =>
  inferInstanceAs (Decidable (name ≠ "" ∧ name ≠ "." ∧ name ≠ ".." ∧ Path.separator ∉ name.toList))

namespace Disk

def Sits (d : Disk) (place : Location) (node : Node) : Prop :=
  (node.isFolder || node.isFile) = true ∧
    ∀ name ∈ place.getLast?, Path.IsName name ∧ (d.node? place.dropLast).any Node.isFolder = true

instance (d : Disk) (place : Location) (node : Node) : Decidable (d.Sits place node) :=
  inferInstanceAs (Decidable (_ ∧ _))

theorem folder_of_any {d : Disk} {place : Location} (folder : (d.node? place).any Node.isFolder = true) :
    ∃ mode modified, d.node? place = some (.folder mode modified) := by
  cases found : d.node? place with
  | none => simp [found] at folder
  | some node =>
    rw [found] at folder
    cases node <;> cases folder
    exact ⟨_, _, rfl⟩

theorem sound_iff (d : Disk) : d.Sound ↔
    d.tree.Tidy ∧ (d.node? []).any Node.isFolder = true ∧
      ∀ entry ∈ d.nodes, ∀ node ∈ d.node? entry.1,
        ∀ name ∈ entry.1.getLast?, Path.IsName name ∧ (d.node? entry.1.dropLast).any Node.isFolder = true := by
  constructor
  · intro sound
    obtain ⟨mode, modified, root⟩ := sound.rooted
    refine ⟨sound.tidy, by simp [root, Node.isFolder], fun entry _ node found name last => ?_⟩
    obtain ⟨above, place⟩ := List.getLast?_eq_some_iff.1 last
    rw [place] at found ⊢
    obtain ⟨mode, modified, folder⟩ := sound.hung above name node found
    exact ⟨sound.named above name node found, by simp [folder, Node.isFolder]⟩
  · rintro ⟨tidy, root, hangs⟩
    have hangs' : ∀ place name node, d.node? (place ++ [name]) = some node ->
        Path.IsName name ∧ (d.node? place).any Node.isFolder = true := by
      intro place name node found
      have above := hangs (_, node) (d.mem_nodes_of_node? _ node found) node found name (by simp)
      rwa [List.dropLast_concat] at above
    exact ⟨folder_of_any root, fun place name node found => folder_of_any (hangs' place name node found).2,
      fun place name node found => (hangs' place name node found).1, tidy⟩

instance (d : Disk) : Decidable d.Sound := decidable_of_iff _ (sound_iff d).symm

theorem regular_iff (d : Disk) : d.Regular ↔
    d.tree.Tidy ∧ (d.node? []).any Node.isFolder = true ∧
      ∀ entry ∈ d.nodes, ∀ node ∈ d.node? entry.1, d.Sits entry.1 node := by
  constructor
  · intro regular
    obtain ⟨tidy, root, hangs⟩ := (sound_iff d).1 regular.toSound
    refine ⟨tidy, root, fun entry inside node found => ⟨?_, hangs entry inside node found⟩⟩
    cases node with
    | folder | file => rfl
    | link target => exact absurd found (regular.linkless _ _)
  · rintro ⟨tidy, root, sits⟩
    refine ⟨(sound_iff d).2 ⟨tidy, root, fun entry inside node found => (sits entry inside node found).2⟩, ?_⟩
    intro place target found
    have real := (sits (place, _) (d.mem_nodes_of_node? place _ found) _ found).1
    simp [Node.isFolder, Node.isFile] at real

instance (d : Disk) : Decidable d.Regular := decidable_of_iff _ (regular_iff d).symm

def heldContents (d : Disk) : List ByteArray := d.nodes.filterMap fun entry => d.contents entry.1

theorem mem_heldContents_iff (d : Disk) (content : ByteArray) :
    content ∈ d.heldContents ↔ d.contents.Holds content := by
  constructor
  · intro listed
    obtain ⟨entry, -, held⟩ := List.mem_filterMap.1 listed
    exact ⟨entry.1, held⟩
  · rintro ⟨place, held⟩
    obtain ⟨mode, modified, found⟩ := (content?_eq_some_iff d place content).1 held
    exact List.mem_filterMap.2 ⟨_, d.mem_nodes_of_node? place _ found, held⟩

end Disk

end Stowage

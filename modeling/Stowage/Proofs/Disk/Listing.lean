import Stowage.Proofs.Disk.Checking
import Stowage.Proofs.Disk.Spelling

set_option autoImplicit false

namespace Stowage

def Excludes.keeps (excludes : Excludes) : Path -> List String -> Bool
  | _, [] => true
  | folder, name :: rest =>
    !excludes.leavesOut name (folder.join ⟨name⟩) && excludes.keeps (folder.join ⟨name⟩) rest

namespace Disk

def row (d : Disk) (place : Location) : List (String × Node) :=
  (d.children place).mergeSort fun a b => a.1 ≤ b.1

def filesAt (searched : Bool) (entry : String × Node) (below : List (List String)) : List (List String) :=
  match entry.2 with
  | .file _ _ _ => [[entry.1]]
  | .folder _ _ => if searched then below.map (entry.1 :: ·) else []
  | .link _ => []

def filesBelow (d : Disk) : Nat -> Location -> List (List String)
  | 0, _ => []
  | depth + 1, place =>
    match d.node? place with
    | some (.folder mode _) =>
      if d.allows readBit mode then
        (d.row place).flatMap fun entry =>
          filesAt (d.allows searchBit mode) entry (d.filesBelow depth (place ++ [entry.1]))
      else []
    | _ => []

def Roomy (d : Disk) (folder : Path) (place : Location) : Prop :=
  ∀ names, d.FolderAt (place ++ names) ->
    refusal? .object (folder.joins names) = none ∧ ∀ name ∈ names, name.utf8ByteSize ≤ longestName

theorem Roomy.below {d : Disk} {folder : Path} {place : Location} (roomy : d.Roomy folder place) (name : String) :
    d.Roomy (folder.join ⟨name⟩) (place ++ [name]) := by
  intro names below
  rw [List.append_assoc, List.singleton_append] at below
  obtain ⟨accepted, short⟩ := roomy (name :: names) below
  exact ⟨accepted, fun other inside => short other (List.mem_cons_of_mem _ inside)⟩

section

variable {d : Disk} (sound : d.Sound)

include sound

theorem mem_row {place : Location} {entry : String × Node} (member : entry ∈ d.row place) :
    d.node? (place ++ [entry.1]) = some entry.2 ∧ Path.IsName entry.1 := by
  have held := (mem_children_iff d sound place entry.1 entry.2).1 (List.mem_mergeSort.1 member)
  exact ⟨held, sound.named place entry.1 entry.2 held⟩

omit sound in
theorem filesAt_cases {searched : Bool} {entry : String × Node} {below : List (List String)} {names : List String}
    (listed : names ∈ filesAt searched entry below) : names = [entry.1] ∨ ∃ rest ∈ below, names = entry.1 :: rest := by
  unfold filesAt at listed
  split at listed
  · exact .inl (List.mem_singleton.1 listed)
  · split_ifs at listed
    · obtain ⟨rest, inside, rfl⟩ := List.mem_map.1 listed
      exact .inr ⟨rest, inside, rfl⟩
    · cases listed
  · cases listed

theorem mem_filesBelow (depth : Nat) (place : Location) (names : List String)
    (listed : names ∈ d.filesBelow depth place) : names ≠ [] ∧ ∀ name ∈ names, Path.IsName name := by
  induction depth generalizing place names with
  | zero => cases listed
  | succ depth ih =>
    unfold filesBelow at listed
    split at listed
    · split_ifs at listed
      · obtain ⟨entry, member, listed⟩ := List.mem_flatMap.1 listed
        obtain ⟨-, named⟩ := mem_row sound member
        rcases filesAt_cases listed with rfl | ⟨rest, inside, rfl⟩
        · simpa using named
        · exact ⟨by simp, List.forall_mem_cons.2 ⟨named, (ih _ rest inside).2⟩⟩
      · cases listed
    · cases listed

omit sound in
theorem walked_of_error {excludes : Excludes} {folder : Path} (closed : ∀ there, d.find folder ≠ .ok there)
    (depth : Nat) : d.walked excludes depth folder = [] := by
  cases depth with
  | zero => rfl
  | succ depth =>
    rw [walked_succ, list]
    cases found : d.find folder with
    | error => rfl
    | ok there => exact absurd found (closed there)

omit sound in
theorem walkedAt_eq (excludes : Excludes) {depth : Nat} {folder : Path} {place : Location} {mode : Nat}
    {modified : Instant} {entry : String × Node} (found : d.find folder = .ok (place, .folder mode modified))
    (named : Path.IsName entry.1)
    (deeper : ∀ mode' modified', entry.2 = .folder mode' modified' -> d.allows searchBit mode = true ->
      d.walked excludes depth (folder.join ⟨entry.1⟩) =
        ((d.filesBelow depth (place ++ [entry.1])).filter (excludes.keeps (folder.join ⟨entry.1⟩))).map
          (folder.join ⟨entry.1⟩).joins) :
    d.walkedAt excludes depth folder entry =
      ((filesAt (d.allows searchBit mode) entry (d.filesBelow depth (place ++ [entry.1]))).filter
        (excludes.keeps folder)).map folder.joins := by
  obtain ⟨name, node⟩ := entry
  unfold walkedAt
  simp only
  by_cases out : excludes.leavesOut name (folder.join ⟨name⟩) = true
  · -- Every way through the entry begins with its name, and is left out with it.
    have none : (filesAt (d.allows searchBit mode) (name, node) (d.filesBelow depth (place ++ [name]))).filter
        (excludes.keeps folder) = [] := by
      refine List.filter_eq_nil_iff.2 fun names listed => ?_
      rcases filesAt_cases listed with rfl | ⟨rest, -, rfl⟩ <;> simp [Excludes.keeps, out]
    rw [if_pos out, none, List.map_nil]
  · rw [if_neg out]
    rw [Bool.not_eq_true] at out
    have onward : ∀ rest, excludes.keeps folder (name :: rest) = excludes.keeps (folder.join ⟨name⟩) rest := by
      simp [Excludes.keeps, out]
    cases node with
    | link target => rfl
    | file content mode modified =>
      have kept : excludes.keeps folder [name] = true := onward []
      rw [filesAt, List.filter_cons_of_pos kept]
      rfl
    | folder mode' modified' =>
      by_cases searched : d.allows searchBit mode = true
      · have keeps : excludes.keeps folder ∘ (name :: ·) = excludes.keeps (folder.join ⟨name⟩) := funext onward
        simp only [filesAt, searched, if_true]
        rw [deeper mode' modified' rfl searched, List.filter_map, keeps, List.map_map]
        rfl
      · -- A directory that is not searched is not found either.
        rw [walked_of_error fun there reached => searched (searched_of_find found rfl named reached)]
        simp [filesAt, searched]

theorem walked_eq (excludes : Excludes) (depth : Nat) (folder : Path) (place : Location) (mode : Nat)
    (modified : Instant) (found : d.find folder = .ok (place, .folder mode modified)) (roomy : d.Roomy folder place) :
    d.walked excludes depth folder =
      ((d.filesBelow depth place).filter (excludes.keeps folder)).map folder.joins := by
  induction depth generalizing folder place mode modified with
  | zero => rfl
  | succ depth ih =>
    have here := find_node d folder place _ found
    rw [walked_succ, filesBelow, list]
    simp only [here, found]
    by_cases read : d.allows readBit mode = true
    swap
    · simp only [read, Bool.false_eq_true, if_false]
      rfl
    rw [if_pos read, if_pos read, List.filter_flatMap, List.map_flatMap]
    refine List.flatMap_congr fun entry member => ?_
    obtain ⟨held, named⟩ := mem_row sound member
    refine walkedAt_eq excludes found named fun mode modified same searched => ?_
    rw [same] at held
    have deeper := find_join found rfl named held (by simp) (roomy [entry.1] ⟨_, _, held⟩).1
      ((roomy [entry.1] ⟨_, _, held⟩).2 _ List.mem_cons_self) searched
    exact ih _ _ mode modified deeper (roomy.below entry.1)

end

def listing (d : Disk) (folder : Path) : List (List String) :=
  match d.find folder with
  | .ok (place, .folder _ _) => d.filesBelow d.tree.count place
  | _ => []

theorem find_of_isFolder {d : Disk} {p : Path} (folder : d.isFolder p = true) :
    ∃ place mode modified, d.find p = .ok (place, .folder mode modified) := by
  unfold isFolder at folder
  split at folder
  next place node found =>
    cases node <;> cases folder
    exact ⟨place, _, _, found⟩
  · cases folder

theorem listing_of_closed {d : Disk} {p : Path} (closed : d.isFolder p = false) : d.listing p = [] := by
  unfold isFolder at closed
  unfold listing
  split
  next place mode modified found => simp [found, Node.isFolder] at closed
  · rfl

theorem mem_listing {d : Disk} (sound : d.Sound) {folder : Path} {names : List String}
    (listed : names ∈ d.listing folder) : names ≠ [] ∧ ∀ name ∈ names, Path.IsName name := by
  unfold listing at listed
  split at listed
  next place mode modified found => exact mem_filesBelow sound _ _ names listed
  · cases listed

/-- Wherever a path leads, no directory is too far down for a path that goes on from it. -/
def Spacious (d : Disk) (folder : Path) : Prop :=
  ∀ place node, d.find folder = .ok (place, node) -> d.Roomy folder place

theorem roomy_iff (d : Disk) (folder : Path) (place : Location) : d.Roomy folder place ↔
    ∀ entry ∈ d.nodes, (d.node? entry.1).any Node.isFolder = true -> place <+: entry.1 ->
      refusal? .object (folder.joins (entry.1.drop place.length)) = none ∧
        ∀ name ∈ entry.1.drop place.length, name.utf8ByteSize ≤ longestName := by
  constructor
  · rintro roomy ⟨there, node⟩ - folder ⟨names, rfl⟩
    rw [List.drop_left]
    exact roomy names (folder_of_any folder)
  · rintro checked names ⟨mode, modified, found⟩
    have listed := checked _ (d.mem_nodes_of_node? _ _ found) (by simp [found, Node.isFolder])
      (List.prefix_append place names)
    rwa [List.drop_left] at listed

instance (d : Disk) (folder : Path) (place : Location) : Decidable (d.Roomy folder place) :=
  decidable_of_iff _ (roomy_iff d folder place).symm

instance (d : Disk) (folder : Path) : Decidable (d.Spacious folder) :=
  decidable_of_iff (∀ there ∈ (d.find folder).toOption, d.Roomy folder there.1) <| by
    unfold Spacious
    cases d.find folder with
    | error problem => simp [Except.toOption]
    | ok there => simp [Except.toOption, Prod.ext_iff]

theorem files_eq {d : Disk} (sound : d.Sound) (excludes : Excludes) {folder : Path} (spacious : d.Spacious folder) :
    d.files excludes folder = ((d.listing folder).filter (excludes.keeps folder)).map folder.joins := by
  unfold files explore
  cases opened : d.isFolder folder with
  | false =>
    rw [listing_of_closed opened]
    rfl
  | true =>
    obtain ⟨place, mode, modified, found⟩ := find_of_isFolder opened
    have same : d.listing folder = d.filesBelow d.tree.count place := by simp [listing, found]
    rw [if_pos rfl, same]
    exact walked_eq sound excludes _ folder place mode modified found (spacious place _ found)

end Disk

end Stowage

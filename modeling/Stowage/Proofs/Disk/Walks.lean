import Mathlib.Data.List.Nodup
import Stowage.Disk.Change
import Stowage.Disk.Walk
import Stowage.Proofs.Disk.Sound
import Stowage.Proofs.Path.Names

set_option autoImplicit false

namespace Stowage

namespace Path

theorem join_chars (base : Path) (name : String) (absolute : base.isAbsolute = true)
    (named : IsName name) :
    ∃ front, (base.join ⟨name⟩).text.toList = front ++ separator :: name.toList := by
  obtain ⟨relative, -⟩ := components_name name named
  obtain ⟨chars, text⟩ := (isAbsolute_iff base).1 absolute
  unfold join
  simp only [relative, Bool.false_eq_true, if_false]
  cases ending : base.text.toList.getLast? with
  | none => simp [text] at ending
  | some last =>
    simp only
    split
    next cut =>
      obtain ⟨front, split⟩ := List.getLast?_eq_some_iff.1 ending
      exact ⟨front, by simp [split, cut]⟩
    · exact ⟨base.text.toList, by simp [separator]⟩

theorem isAbsolute_join (base : Path) (name : String) (absolute : base.isAbsolute = true)
    (named : IsName name) : (base.join ⟨name⟩).isAbsolute = true := by
  obtain ⟨rest, spelt⟩ := components_of_isAbsolute absolute
  have joined := components_join_name base named
  rw [spelt, List.cons_append] at joined
  exact isAbsolute_of_components joined

theorem join_last (base : Path) (name : String) (absolute : base.isAbsolute = true) (named : IsName name) :
    (base.join ⟨name⟩).endsInSeparator = false ∧ (base.join ⟨name⟩).steps.getLast? = some (.enter name) := by
  obtain ⟨front, chars⟩ := join_chars base name absolute named
  have whole := named.2.2.2
  have filled := named.segment
  have ended : (base.join ⟨name⟩).endsInSeparator = false := by
    unfold endsInSeparator
    rw [chars, List.getLast?_append]
    cases last : name.toList.getLast? with
    | none => exact absurd (List.getLast?_eq_none_iff.1 last) filled.1
    | some c =>
      have inside := List.mem_of_getLast? last
      have differs : c ≠ separator := by
        rintro rfl
        exact whole inside
      simp [List.getLast?_cons, last, differs]
  refine ⟨ended, ?_⟩
  unfold Path.steps
  simp only [ended, Bool.false_eq_true, if_false]
  rw [chars, Text.splitOn_append, Text.splitOn_of_not_mem _ _ whole]
  simp [filled]

theorem endsInName_join (base : Path) (name : String) (absolute : base.isAbsolute = true)
    (named : IsName name) : Disk.endsInName (base.join ⟨name⟩) = true := by
  obtain ⟨ended, last⟩ := join_last base name absolute named
  rw [Disk.endsInName, withoutEnd_eq _ ended, last]

def Below (folder path : Path) : Prop :=
  ∃ names : List String, names ≠ [] ∧ path.components = folder.components ++ names.map .name

theorem Plain.below {folder path : Path} (plain : folder.Plain) (below : folder.Below path) :
    path.Plain := by
  obtain ⟨names, spelt⟩ := plain
  obtain ⟨others, -, spelt'⟩ := below
  exact ⟨names ++ others, by rw [spelt', spelt, List.map_append, List.cons_append]⟩

theorem Below.fileName? {folder path : Path} (below : folder.Below path) :
    ∃ name, path.fileName? = some name ∧ IsName name := by
  obtain ⟨names, filled, spelt⟩ := below
  obtain ⟨above, name, rfl⟩ := (List.eq_nil_or_concat' names).resolve_left filled
  rw [List.map_append, ← List.append_assoc] at spelt
  have named := fileName?_of_components path _ name spelt
  exact ⟨name, named, isName_of_component path name (mem_of_fileName? path name named)⟩

end Path

namespace Disk

theorem mem_list (d : Disk) (sound : d.Sound) (folder : Path) (entries : List (String × Node))
    (listed : d.list folder = .ok entries) :
    (entries.map Prod.fst).Nodup ∧ ∀ entry ∈ entries, Path.IsName entry.1 := by
  unfold list at listed
  split at listed
  · cases listed
  next place mode modified found =>
    split at listed
    · cases listed
      have sorted := List.mergeSort_perm (d.children place) fun a b => decide (a.1 ≤ b.1)
      refine ⟨(sorted.map Prod.fst).nodup_iff.2 (nodup_children d sound place), ?_⟩
      rintro ⟨name, node⟩ member
      exact sound.named place name node
        ((mem_children_iff d sound place name node).1 (sorted.mem_iff.1 member))
    · cases listed
  · cases listed

def walked (d : Disk) (excludes : Excludes) (depth : Nat) (folder : Path) : List Path :=
  (d.sightings excludes depth folder).filterMap Sighting.file?

def walkedAt (d : Disk) (excludes : Excludes) (depth : Nat) (folder : Path) (entry : String × Node) :
    List Path :=
  let path := folder.join ⟨entry.1⟩
  if excludes.leavesOut entry.1 path then []
  else
    match entry.2 with
    | .file _ _ _ => [path]
    | .folder _ _ => d.walked excludes depth path
    | .link _ => []

theorem walked_succ (d : Disk) (excludes : Excludes) (depth : Nat) (folder : Path) :
    d.walked excludes (depth + 1) folder =
      match d.list folder with
      | .error _ => []
      | .ok entries => entries.flatMap (d.walkedAt excludes depth folder) := by
  unfold walked
  rw [sightings]
  cases d.list folder with
  | error problem => rfl
  | ok entries =>
    simp only [List.filterMap_flatMap]
    congr 1
    funext entry
    unfold walkedAt walked
    simp only
    split
    · rfl
    · cases entry.2 <;> rfl

theorem walkedAt_cases (d : Disk) (excludes : Excludes) (depth : Nat) (folder path : Path)
    (entry : String × Node) (member : path ∈ d.walkedAt excludes depth folder entry) :
    path = folder.join ⟨entry.1⟩ ∨ path ∈ d.walked excludes depth (folder.join ⟨entry.1⟩) := by
  unfold walkedAt at member
  simp only at member
  split at member
  · cases member
  · split at member
    · exact .inl (List.mem_singleton.1 member)
    · exact .inr member
    · cases member

theorem mem_walked (d : Disk) (sound : d.Sound) (excludes : Excludes) (depth : Nat) (folder path : Path)
    (absolute : folder.isAbsolute = true) (member : path ∈ d.walked excludes depth folder) :
    folder.Below path ∧ endsInName path = true := by
  induction depth generalizing folder with
  | zero => cases member
  | succ depth ih =>
    rw [walked_succ] at member
    split at member
    · cases member
    next entries listed =>
      obtain ⟨entry, inside, member⟩ := List.mem_flatMap.1 member
      have named := (mem_list d sound folder entries listed).2 entry inside
      have joined := Path.components_join_name folder named
      rcases d.walkedAt_cases excludes depth folder path entry member with rfl | deeper
      · exact ⟨⟨[entry.1], by simp, joined⟩, Path.endsInName_join folder entry.1 absolute named⟩
      · obtain ⟨⟨names, -, below⟩, ended⟩ :=
          ih _ (Path.isAbsolute_join folder entry.1 absolute named) deeper
        refine ⟨⟨entry.1 :: names, by simp, ?_⟩, ended⟩
        rw [below, joined]
        simp

theorem mem_walkedAt (d : Disk) (sound : d.Sound) (excludes : Excludes) (depth : Nat)
    (folder path : Path) (absolute : folder.isAbsolute = true) (entry : String × Node)
    (named : Path.IsName entry.1) (member : path ∈ d.walkedAt excludes depth folder entry) :
    ∃ rest, path.components = folder.components ++ .name entry.1 :: rest := by
  have joined := Path.components_join_name folder named
  rcases d.walkedAt_cases excludes depth folder path entry member with rfl | deeper
  · exact ⟨[], joined⟩
  · obtain ⟨⟨names, -, below⟩, -⟩ := d.mem_walked sound excludes depth _ path
      (Path.isAbsolute_join folder entry.1 absolute named) deeper
    exact ⟨names.map .name, by rw [below, joined]; simp⟩

theorem nodup_walked (d : Disk) (sound : d.Sound) (excludes : Excludes) (depth : Nat) (folder : Path)
    (absolute : folder.isAbsolute = true) :
    ((d.walked excludes depth folder).map Path.components).Nodup := by
  induction depth generalizing folder with
  | zero => exact List.nodup_nil
  | succ depth ih =>
    rw [walked_succ]
    split
    · exact List.nodup_nil
    next entries listed =>
      obtain ⟨distinct, names⟩ := mem_list d sound folder entries listed
      rw [List.map_flatMap, List.nodup_flatMap]
      -- No path comes up twice below one entry, nor below two, whose names differ.
      constructor
      · intro entry inside
        unfold walkedAt
        simp only
        split
        · exact List.nodup_nil
        · split
          · exact List.nodup_singleton _
          · exact ih _ (Path.isAbsolute_join folder entry.1 absolute (names entry inside))
          · exact List.nodup_nil
      · have apart := List.pairwise_map.1 distinct
        refine List.Pairwise.imp_of_mem ?_ apart
        intro first second inside inside' differs spelt member member'
        obtain ⟨path, at1, rfl⟩ := List.mem_map.1 member
        obtain ⟨path', at2, same⟩ := List.mem_map.1 member'
        obtain ⟨rest, below⟩ :=
          d.mem_walkedAt sound excludes depth folder path absolute first (names first inside) at1
        obtain ⟨rest', below'⟩ :=
          d.mem_walkedAt sound excludes depth folder path' absolute second (names second inside') at2
        rw [below, below'] at same
        simp at same
        exact differs same.1.symm

end Disk

end Stowage

import Stowage.Proofs.Path.Below
import Stowage.Proofs.Path.Joints

set_option autoImplicit false

namespace Stowage

def Balanced (passed : Nat) (way : List Component) : Prop :=
  ∀ front, front <+: way -> front.count .up ≤ passed + front.countP Path.isNamed

theorem balanced_nil (passed : Nat) : Balanced passed [] := by
  intro front within
  simp [List.prefix_nil.1 within]

theorem balanced_cons (passed : Nat) (first : Component) (rest : List Component) :
    Balanced passed (first :: rest) ↔
      ∀ front, front <+: rest ->
        (first :: front).count .up ≤ passed + (first :: front).countP Path.isNamed := by
  constructor
  · intro balanced front within
    exact balanced _ (List.cons_prefix_cons.2 ⟨rfl, within⟩)
  · intro balanced front within
    cases front with
    | nil => simp
    | cons c front =>
      obtain ⟨rfl, onward⟩ := List.cons_prefix_cons.1 within
      exact balanced front onward

theorem balanced_here (passed : Nat) (rest : List Component) :
    Balanced passed (.here :: rest) ↔ Balanced passed rest := by
  rw [balanced_cons]
  simp [Balanced, Path.isNamed]

theorem balanced_name (passed : Nat) (text : String) (rest : List Component) :
    Balanced passed (.name text :: rest) ↔ Balanced (passed + 1) rest := by
  have named : Path.isNamed (.name text) = true := rfl
  rw [balanced_cons]
  simp [Balanced, named, Nat.add_assoc, Nat.add_comm 1]

theorem balanced_up (passed : Nat) (rest : List Component) :
    Balanced (passed + 1) (.up :: rest) ↔ Balanced passed rest := by
  rw [balanced_cons]
  simp [Balanced, Path.isNamed, Nat.add_right_comm passed 1]

theorem not_balanced_up (rest : List Component) : ¬ Balanced 0 (.up :: rest) := by
  intro balanced
  simpa [Path.isNamed] using balanced [.up] (by simp)

theorem cancelUps_isSome_iff (passed : List String) (way : List Component) (unrooted : .root ∉ way) :
    (cancelUps passed way).isSome ↔ Balanced passed.length way := by
  fun_induction cancelUps passed way with
  | case1 passed => simp [balanced_nil]
  | case2 passed text rest ih => simpa [balanced_name] using ih fun inside => unrooted (by simp [inside])
  | case3 passed rest ih => simpa [balanced_here] using ih fun inside => unrooted (by simp [inside])
  | case4 name passed rest ih => simpa [balanced_up] using ih fun inside => unrooted (by simp [inside])
  | case5 rest => simp [not_balanced_up]
  | case6 => simp at unrooted

theorem enter_of_cancelUps (base : Location) {passed names : List String} {way : List Component}
    (left : cancelUps passed way = some names) :
    way.foldl Location.enter (base ++ passed.reverse) = base ++ names := by
  fun_induction cancelUps passed way with
  | case1 passed =>
    cases left
    rfl
  | case2 passed text rest ih =>
    rw [← ih left, List.reverse_cons, ← List.append_assoc]
    rfl
  | case3 passed rest ih => exact ih left
  | case4 name passed rest ih =>
    rw [← ih left, List.foldl_cons]
    simp [Location.enter, Location.folder]
  | case5 => cases left
  | case6 => cases left

theorem mem_of_cancelUps {passed names : List String} {way : List Component}
    (left : cancelUps passed way = some names) (name : String) (member : name ∈ names) :
    name ∈ passed ∨ .name name ∈ way := by
  fun_induction cancelUps passed way with
  | case1 passed =>
    cases left
    simpa using member
  | case2 passed text rest ih =>
    rcases ih left with early | late
    · rcases List.mem_cons.1 early with rfl | early
      · simp
      · exact .inl early
    · exact .inr (List.mem_cons_of_mem _ late)
  | case3 passed rest ih => simpa using ih left
  | case4 other passed rest ih =>
    rcases ih left with early | late
    · exact .inl (List.mem_cons_of_mem _ early)
    · exact .inr (List.mem_cons_of_mem _ late)
  | case5 => cases left
  | case6 => cases left

namespace Path

/-- `p` starts at `root`, and on the way on from there every `..` takes back a name. -/
def Keeps (root p : Path) : Prop :=
  ∃ way, p.components = root.components ++ way ∧ Balanced 0 way

theorem root_not_mem_append {p : Path} {front way : List Component} (filled : front ≠ [])
    (spelt : p.components = front ++ way) : .root ∉ way := by
  intro inside
  obtain ⟨pieces, rest, split, above, below⟩ := List.map_eq_append_iff.1 spelt
  obtain ⟨piece, member, root⟩ := List.mem_map.1 (below ▸ inside)
  have segments : ∃ start, piece ∈ segmentPieces start (Text.splitOn separator p.text.toList) := by
    unfold Path.pieces at split
    simp only at split
    split at split
    · cases pieces with
      | nil => exact absurd above.symm filled
      | cons first pieces =>
        have later : segmentPieces 0 (Text.splitOn separator p.text.toList) = pieces ++ rest := (List.cons.inj split).2
        exact ⟨0, later ▸ List.mem_append_right _ member⟩
    · rw [List.nil_append] at split
      exact ⟨0, split ▸ List.mem_append_right _ member⟩
  obtain ⟨start, member⟩ := segments
  exact root_not_mem_segmentPieces start _ piece member root

section

variable {root p : Path} (absolute : root.isAbsolute = true)

include absolute

theorem normalizeWithin_isSome_iff : (root.normalizeWithin p).isSome ↔ root.Keeps p := by
  obtain ⟨after, own⟩ := components_of_isAbsolute absolute
  have unrooted : ∀ way, p.components = root.components ++ way -> .root ∉ way := fun way spelt =>
    root_not_mem_append (by simp [own]) spelt
  unfold normalizeWithin
  constructor
  · intro some
    obtain ⟨found, normal⟩ := Option.isSome_iff_exists.1 some
    obtain ⟨rest, below, left⟩ := Option.bind_eq_some_iff.1 normal
    have spelt := components_of_below? absolute below
    refine ⟨rest.components, spelt, (cancelUps_isSome_iff [] _ (unrooted _ spelt)).1 ?_⟩
    obtain ⟨names, cancelled, -⟩ := Option.map_eq_some_iff.1 left
    simp [cancelled]
  · rintro ⟨way, spelt, balanced⟩
    obtain ⟨rest, below, rfl⟩ := below?_of_components absolute spelt
    have left := (cancelUps_isSome_iff [] _ (unrooted _ spelt)).2 balanced
    simpa [below] using left

theorem normalizeWithin_names {found : Path} (normal : root.normalizeWithin p = some found) :
    ∃ names, (∀ name ∈ names, IsName name) ∧ found = root.joinNames names ∧
      ∀ home, p.place home = root.place home ++ names := by
  obtain ⟨rest, below, left⟩ := Option.bind_eq_some_iff.1 normal
  obtain ⟨names, cancelled, rfl⟩ := Option.map_eq_some_iff.1 left
  have spelt := components_of_below? absolute below
  refine ⟨names, fun name member => ?_, rfl, fun home => ?_⟩
  · have inside := (mem_of_cancelUps cancelled name member).resolve_left List.not_mem_nil
    exact isName_of_component p name (by simp [spelt, inside])
  · have onward := enter_of_cancelUps (root.place home) cancelled
    rw [place_eq home p, spelt, List.foldl_append, ← place_eq home root]
    simpa using onward

end

end Path

end Stowage

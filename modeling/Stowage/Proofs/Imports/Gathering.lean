import Mathlib.Data.List.Forall2
import Stowage.Proofs.Imports.Spans

set_option autoImplicit false

namespace Stowage.Imports

theorem forall₂_mergeSort {Item : Type} {related : Item -> Item -> Prop} {below : Item -> Item -> Bool}
    (alike : ∀ a a' b b', related a a' -> related b b' -> below a b = below a' b') {items items' : List Item}
    (all : List.Forall₂ related items items') :
    List.Forall₂ related (items.mergeSort below) (items'.mergeSort below) := by
  have together : ∀ pair ∈ items.zip items', related pair.1 pair.2 := by
    induction all with
    | nil => exact fun pair impossible => (nomatch impossible)
    | cons here _ ih =>
      intro pair member
      rcases List.mem_cons.1 member with rfl | later
      · exact here
      · exact ih pair later
  have first : (items.zip items').map Prod.fst = items := List.map_fst_zip (Nat.le_of_eq all.length_eq)
  have second : (items.zip items').map Prod.snd = items' := List.map_snd_zip (Nat.le_of_eq all.length_eq.symm)
  have sorted := List.map_mergeSort (r := fun a b => below a.1 b.1) (s := below) (f := Prod.fst)
    (l := items.zip items') fun _ _ _ _ => rfl
  have sorted' := List.map_mergeSort (r := fun a b => below a.1 b.1) (s := below) (f := Prod.snd)
    (l := items.zip items') fun a inside b inside' =>
      alike a.1 a.2 b.1 b.2 (together a inside) (together b inside')
  rw [first] at sorted
  rw [second] at sorted'
  rw [← sorted, ← sorted', List.forall₂_map_left_iff, List.forall₂_map_right_iff, List.forall₂_same]
  exact fun pair member => together pair (List.mem_mergeSort.1 member)

def Paired (same : Occurrence -> Occurrence -> Prop) (item item' : Nat × Occurrence) : Prop :=
  item.1 = item.2.first.index ∧ item'.1 = item'.2.first.index ∧ same item.2 item'.2

def Ordered (same : Occurrence -> Occurrence -> Prop) : Prop :=
  ∀ m m' n n', same m m' -> same n n' -> (m.first.index ≤ n.first.index ↔ m'.first.index ≤ n'.first.index)

section

variable {same : Occurrence -> Occurrence -> Prop} (ordered : Ordered same)

include ordered

theorem Ordered.le_iff {item item' other other' : Nat × Occurrence} (first : Paired same item item')
    (second : Paired same other other') : item.1 ≤ other.1 ↔ item'.1 ≤ other'.1 := by
  rw [first.1, first.2.1, second.1, second.2.1]
  exact ordered _ _ _ _ first.2.2 second.2.2

theorem Ordered.any_eq {found found' : List (Nat × Occurrence)} (all : List.Forall₂ (Paired same) found found')
    {item item' : Nat × Occurrence} (paired : Paired same item item') :
    (found.any fun other => other.1 == item.1) = found'.any fun other => other.1 == item'.1 := by
  induction all with
  | nil => rfl
  | @cons other other' rest rest' here _ ih =>
    have level : (other.1 == item.1) = (other'.1 == item'.1) := by
      rw [Bool.eq_iff_iff, beq_iff_eq, beq_iff_eq]
      have below := ordered.le_iff here paired
      have above := ordered.le_iff paired here
      omega
    rw [List.any_cons, List.any_cons, level, ih]

theorem Ordered.addNew {found found' new new' : List (Nat × Occurrence)}
    (all : List.Forall₂ (Paired same) found found') (all' : List.Forall₂ (Paired same) new new') :
    List.Forall₂ (Paired same) (addNew found new) (addNew found' new') := by
  unfold Imports.addNew
  induction all' generalizing found found' with
  | nil => exact all
  | cons here _ ih =>
    rw [List.foldl_cons, List.foldl_cons, ordered.any_eq all here]
    apply ih
    split
    · exact all
    · exact List.rel_append all (.cons here .nil)

variable {text text' : List Char}

theorem Ordered.gathered (several : List Form)
    (each : ∀ form ∈ several, List.Forall₂ same (form.occurrences text) (form.occurrences text')) :
    List.Forall₂ (Paired same) (gathered several text) (gathered several text') := by
  induction several using List.reverseRecOn with
  | nil => exact .nil
  | append_singleton several form ih =>
    rw [gathered_concat, gathered_concat]
    apply ordered.addNew (ih fun other member => each other (List.mem_append_left _ member))
    have found := each form (List.mem_append_right _ List.mem_cons_self)
    rw [List.forall₂_map_left_iff, List.forall₂_map_right_iff]
    exact found.imp fun _ _ same => ⟨rfl, rfl, same⟩

theorem Ordered.occurrences
    (each : ∀ form ∈ forms, List.Forall₂ same (form.occurrences text) (form.occurrences text')) :
    List.Forall₂ same (occurrences text) (occurrences text') := by
  have found := ordered.gathered forms each
  have sorted : List.Forall₂ (Paired same) ((Imports.gathered forms text).mergeSort fun a b => a.1 ≤ b.1)
      ((Imports.gathered forms text').mergeSort fun a b => a.1 ≤ b.1) :=
    forall₂_mergeSort (fun a a' b b' first second => by simp [ordered.le_iff first second]) found
  rw [occurrences_eq, occurrences_eq, List.forall₂_map_left_iff, List.forall₂_map_right_iff]
  exact sorted.imp fun _ _ paired => paired.2.2

end

end Stowage.Imports

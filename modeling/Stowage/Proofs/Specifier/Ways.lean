import Stowage.Proofs.Path.Parents
import Stowage.Specifier.Writing

set_option autoImplicit false

namespace Stowage

namespace Text

theorem splitOn_intercalate (separator : Char) {segments : List (List Char)} (filled : segments ≠ [])
    (free : ∀ segment ∈ segments, separator ∉ segment) :
    splitOn separator ([separator].intercalate segments) = segments := by
  induction segments with
  | nil => exact absurd rfl filled
  | cons first others ih =>
    obtain ⟨own, later⟩ := List.forall_mem_cons.1 free
    cases others with
    | nil =>
      rw [List.intercalate_singleton]
      exact splitOn_of_not_mem separator first own
    | cons second others =>
      rw [List.intercalate_cons_cons, List.append_assoc, List.singleton_append, splitOn_append,
        splitOn_of_not_mem separator first own, ih (List.cons_ne_nil _ _) later]
      rfl

end Text

namespace Specifier

theorem commonLength_append (front a b : List Component) :
    commonLength (front ++ a) (front ++ b) = front.length + commonLength a b := by
  induction front with
  | nil => simp
  | cons first front ih =>
    simp only [List.cons_append, commonLength, if_true, ih, List.length_cons]
    omega

theorem commonLength_eq_length_iff (a b : List Component) : commonLength a b = b.length ↔ b <+: a := by
  constructor
  · intro whole
    have shared := take_commonLength a b
    rw [whole, List.take_length] at shared
    rw [← shared]
    exact List.take_prefix _ _
  · rintro ⟨rest, rfl⟩
    have split := commonLength_append b rest []
    rw [List.append_nil] at split
    rw [split]
    cases rest <;> rfl

def wayText (steps : List String) : String :=
  if "..".toList.isPrefixOf ("/".intercalate steps).toList then "/".intercalate steps
  else "./" ++ "/".intercalate steps

theorem toList_wayText (steps : List String) : (wayText steps).toList =
    if ['.', '.'] <+: [Path.separator].intercalate (steps.map String.toList) then
      [Path.separator].intercalate (steps.map String.toList)
    else '.' :: Path.separator :: [Path.separator].intercalate (steps.map String.toList) := by
  have joined : ("/".intercalate steps).toList = [Path.separator].intercalate (steps.map String.toList) := by
    simp [String.toList_intercalate, Path.separator]
  have dots : "..".toList = ['.', '.'] := by simp
  unfold wayText
  simp only [List.isPrefixOf_iff_prefix, dots, joined]
  split
  · exact joined
  · simp [joined, Path.separator]

theorem relative?_eq (file target : Path) (keepExtension : Bool) : relative? file target keepExtension =
    file.parent?.bind fun directory =>
      (steps? directory.components (shown target keepExtension).components).map wayText := rfl

theorem steps?_eq_some_iff (directory target : List Component) (steps : List String) :
    steps? (.root :: directory) (.root :: target) = some steps ↔ ¬ .root :: target <+: .root :: directory ∧
      List.replicate (directory.length - commonLength directory target) ".." ++
        (target.drop (commonLength directory target)).map Component.text = steps := by
  have shared : commonLength (.root :: directory) (.root :: target) = commonLength directory target + 1 := by
    simp [commonLength]
  rw [← commonLength_eq_length_iff]
  unfold steps?
  simp only [shared, List.length_cons]
  by_cases above : commonLength directory target = target.length <;> simp [above]

end Specifier

end Stowage

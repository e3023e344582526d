import Stowage.Proofs.Path.Below
import Stowage.Proofs.Path.Joints

set_option autoImplicit false

namespace Stowage

namespace Path

theorem IsName.extended {name extension : String} (named : IsName name) (whole : separator ∉ extension.toList) :
    IsName (name ++ ("." ++ extension)) := by
  obtain ⟨filled, dot, dots⟩ := named.segment
  obtain ⟨c, rest, chars⟩ := List.exists_cons_of_ne_nil filled
  have text : (name ++ ("." ++ extension)).toList = c :: (rest ++ '.' :: extension.toList) := by simp [chars]
  have own := named.2.2.2
  rw [chars] at dot own
  refine ⟨?_, ?_, ?_, ?_⟩
  · rintro empty
    simp [empty] at text
  · intro single
    simp [single] at text
  · intro double
    -- Of two dots the first would be the name.
    rw [double] at text
    obtain ⟨rfl, tail⟩ : '.' = c ∧ ['.'] = rest ++ '.' :: extension.toList := by simpa using text
    cases rest with
    | nil => exact dot rfl
    | cons _ _ => simp at tail
  · rw [text]
    simp_all [separator]

section

variable {base : Path} (absolute : base.isAbsolute = true)

include absolute

theorem append_join {name text : String} (named : IsName name) (named' : IsName (name ++ text)) :
    (base.join ⟨name⟩).append text = base.join ⟨name ++ text⟩ := by
  have filled : base.text ≠ "" := by
    intro empty
    simp [isAbsolute, empty] at absolute
  rw [join_eq filled (isAbsolute_name named), join_eq filled (isAbsolute_name named')]
  simp [append, String.append_assoc]

theorem components_append {names : List String} (named : ∀ name ∈ names, IsName name) {last text : String}
    (own : IsName last) (own' : IsName (last ++ text)) :
    ((base.joinNames (names ++ [last])).append text).components =
      base.components ++ (names ++ [last ++ text]).map .name := by
  have spelt := components_joinNames base named
  have absolute' := isAbsolute_of_append absolute spelt
  rw [joinNames, List.foldl_append]
  change (((base.joinNames names).join ⟨last⟩).append text).components = _
  rw [append_join absolute' own own', components_join_name _ own', spelt]
  simp

end

end Path

namespace Location

open Stowage.Path (IsName)

theorem isAbsolute_path (place : Location) : place.path.isAbsolute = true := by
  simp [Location.path, Path.isAbsolute, Path.separator]

theorem endsInSeparator_name {front name : String} (named : IsName name) :
    (Path.mk (front ++ name)).endsInSeparator = false := by
  unfold Path.endsInSeparator
  rw [String.toList_append, List.getLast?_append, Option.or_of_isSome, decide_eq_false_iff_not]
  · exact fun cut => named.2.2.2 (List.mem_of_getLast? cut)
  · exact List.getLast?_isSome.2 named.segment.1

theorem joinNames_text {base : Path} (filled : base.text ≠ "") (level : base.endsInSeparator = false)
    {names : List String} (named : ∀ name ∈ names, IsName name) :
    (base.joinNames names).text = "/".intercalate (base.text :: names) := by
  induction names generalizing base with
  | nil => simp [Path.joinNames]
  | cons name names ih =>
    obtain ⟨own, others⟩ := List.forall_mem_cons.1 named
    have joined : base.join ⟨name⟩ = ⟨base.text ++ "/" ++ name⟩ := by
      rw [Path.join_eq filled (Path.isAbsolute_name own), level, if_neg Bool.false_ne_true]
    have onward : base.joinNames (name :: names) = (base.join ⟨name⟩).joinNames names := rfl
    rw [onward, joined, ih (by simp [own.1]) (endsInSeparator_name own) others,
      String.intercalate_cons_append, String.intercalate_cons_cons]

theorem path_eq_joinNames {place : Location} (named : ∀ name ∈ place, IsName name) :
    place.path = (Path.mk "/").joinNames place := by
  cases place with
  | nil => rfl
  | cons name rest =>
    obtain ⟨own, others⟩ := List.forall_mem_cons.1 named
    have joined : (Path.mk "/").join ⟨name⟩ = ⟨"/" ++ name⟩ := by
      have ended : (Path.mk "/").endsInSeparator = true := by decide
      rw [Path.join_eq (by decide) (Path.isAbsolute_name own), ended, if_pos rfl]
    have onward : (Path.mk "/").joinNames (name :: rest) = ((Path.mk "/").join ⟨name⟩).joinNames rest := rfl
    have text := @joinNames_text ⟨"/" ++ name⟩ (by simp [own.1]) (endsInSeparator_name own) _ others
    rw [onward, joined, Location.path, ← String.intercalate_cons_append, ← text]

theorem components_path {place : Location} (named : ∀ name ∈ place, IsName name) :
    place.path.components = .root :: place.map .name := by
  rw [path_eq_joinNames named]
  exact Path.components_joinNames _ named

end Location

end Stowage

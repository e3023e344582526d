import Stowage.Proofs.Path.Joints
import Stowage.Proofs.Path.Parents
import Stowage.Proofs.Relocation.Spreading

set_option autoImplicit false

namespace Stowage

namespace Carrier

def mark (carrier : Carrier) (label : String) : String := "." ++ label ++ "." ++ carrier.stamp

def Labels (carrier : Carrier) (name : String) : Prop :=
  ∃ label ∈ ["backup", "conflict"], (carrier.mark label).toList <:+: name.toList

instance (carrier : Carrier) (name : String) : Decidable (carrier.Labels name) :=
  inferInstanceAs (Decidable (∃ label ∈ _, _))

theorem siblingName_eq (carrier : Carrier) (path : Path) (label : String) (number : Nat) :
    ∃ ending, carrier.siblingName path label number = path.stem?.getD "" ++ carrier.mark label ++ ending ∧
      Path.separator ∉ ending.toList := by
  refine ⟨(if number = 0 then "" else "_" ++ number.repr) ++ path.ending, ?_, ?_⟩
  · rw [siblingName_parts, mark]
    simp only [String.append_assoc]
    rfl
  · rw [String.toList_append, List.mem_append, not_or]
    refine ⟨?_, path.separator_not_mem_ending⟩
    split
    · simp
    · rw [String.toList_append, List.mem_append, not_or]
      exact ⟨by decide, Path.separator_not_mem_repr number⟩

theorem siblingName_injective (carrier : Carrier) (path : Path) (label : String) {number other : Nat}
    (same : carrier.siblingName path label number = carrier.siblingName path label other) : number = other := by
  have texts := congrArg String.toList same
  unfold siblingName at texts
  simp only [String.toList_append, List.append_assoc, List.append_cancel_left_eq, List.append_cancel_right_eq]
    at texts
  split_ifs at texts with first second second
  · rw [first, second]
  · simp at texts
  · simp at texts
  · simp only [String.toList_append, List.append_cancel_left_eq] at texts
    exact eq_of_digits texts

theorem siblingName_length (carrier : Carrier) (path : Path) (label : String) (number : Nat) (name : String)
    (named : path.fileName? = some name) :
    name.toList.length + label.toList.length < (carrier.siblingName path label number).toList.length := by
  have parts : name.toList.length ≤ (path.stem?.getD "").toList.length + path.ending.toList.length := by
    rw [Path.ending, Path.stem?, Path.extension?, named, Option.map_some, Option.bind_some]
    rcases Path.cutName_cases name.toList with whole | ⟨stem, ending, -, -, own, parts⟩
    · simp [whole]
    · rw [parts, own]
      simp
  have dot : ".".toList.length = 1 := rfl
  rw [siblingName_parts]
  simp only [String.toList_append, List.length_append]
  omega

theorem siblingName_whole (carrier : Carrier) (stamp : Path.separator ∉ carrier.stamp.toList) {label : String}
    (whole : Path.separator ∉ label.toList) (path : Path) (number : Nat) :
    Path.separator ∉ (carrier.siblingName path label number).toList ∧
      label.toList.length + 2 ≤ (carrier.siblingName path label number).toList.length := by
  obtain ⟨ending, name, free⟩ := carrier.siblingName_eq path label number
  have dot : ".".toList = ['.'] := rfl
  rw [name, mark]
  simp only [String.toList_append, dot, List.mem_append, not_or, List.length_append, List.length_singleton]
  exact ⟨⟨⟨path.separator_not_mem_stem, ⟨⟨⟨by decide, whole⟩, by decide⟩, stamp⟩⟩, free⟩, by omega⟩

section

variable (carrier : Carrier) (stamp : Path.separator ∉ carrier.stamp.toList) (label : String)
  (known : label ∈ ["backup", "conflict"])

include stamp known

theorem siblingName_isName (path : Path) (number : Nat) :
    Path.IsName (carrier.siblingName path label number) := by
  have labels : ∀ label ∈ ["backup", "conflict"], Path.separator ∉ label.toList ∧ 0 < label.toList.length := by
    decide
  obtain ⟨whole, filled⟩ := labels label known
  obtain ⟨free, long⟩ := carrier.siblingName_whole stamp whole path number
  exact Path.isName_of_long free (by omega)

theorem siblingAt_place_eq (home : Location) (path : Path) (number : Nat) :
    (carrier.siblingAt path label number).place home =
      (path.parent?.getD ⟨"."⟩).place home ++ [carrier.siblingName path label number] :=
  Path.place_join_name _ (carrier.siblingName_isName stamp label known path number) home

theorem siblingAt_beside (home : Location) (path : Path) (plain : path.Plain) (above : Location) (name : String)
    (spelt : path.place home = above ++ [name]) (number : Nat) :
    (carrier.siblingAt path label number).place home = above ++ [carrier.siblingName path label number] := by
  have components := plain.components home
  rw [spelt, List.map_append, List.map_singleton, ← List.cons_append] at components
  obtain ⟨parent, parented, spelt'⟩ := Path.parent?_of_name (by simp) components
  rw [carrier.siblingAt_place_eq stamp label known, parented, Option.getD_some,
    Path.place_of_components home parent above spelt']

theorem siblingAt_apart (home : Location) {path : Path} (normal : path.Plain ∨ path.Inner) (number : Nat) :
    (carrier.siblingAt path label number).place home ≠ path.place home := by
  rw [carrier.siblingAt_place_eq stamp label known]
  cases named : path.fileName? with
  | some name =>
    obtain ⟨front, spelt⟩ : ∃ front, path.components = front ++ [.name name] := by
      unfold Path.fileName? at named
      split at named
      next text last =>
        cases named
        exact List.getLast?_eq_some_iff.1 last
      · cases named
    obtain ⟨parent, parented, above⟩ := Path.parent?_of_name (by simp) spelt
    rw [parented, Option.getD_some, Path.place_eq, above, Path.place_eq, spelt, List.foldl_append]
    intro same
    obtain own : carrier.siblingName path label number = name :=
      List.singleton_inj.1 (List.append_cancel_left same)
    -- A sibling has a longer name.
    have longer := carrier.siblingName_length path label number name named
    rw [own] at longer
    omega
  | none =>
    have short : path.components = [.root] ∨ path.components = [] := by
      rcases normal with ⟨names, spelt⟩ | ⟨-, names, spelt⟩ <;>
        rcases List.eq_nil_or_concat' names with rfl | ⟨front, name, rfl⟩
      · exact .inl spelt
      · rw [List.map_append, ← List.cons_append] at spelt
        cases named.symm.trans (Path.fileName?_of_components path _ name spelt)
      · exact .inr spelt
      · rw [List.map_append] at spelt
        cases named.symm.trans (Path.fileName?_of_components path _ name spelt)
    have parent : (path.parent?.getD ⟨"."⟩).place home = home := by
      cases parented : path.parent? with
      | none => rfl
      | some parent =>
        have above := Path.components_parent parented
        rw [Option.getD_some, Path.place_eq, above]
        rcases short with own | own <;> rw [own] <;> rfl
    rw [parent, Path.place_eq]
    rcases short with own | own <;> simp [own, Location.enter]

end

theorem not_mem_siblingPlaces (carrier : Carrier) (stamp : Path.separator ∉ carrier.stamp.toList)
    (home : Location) (path other : Path) (plain : other.Plain) (filled : other.place home ≠ [])
    (unlabelled : ∀ name ∈ (path.place home).getLast?, ¬ carrier.Labels name) :
    path.place home ∉ carrier.siblingPlaces home other := by
  rintro ⟨label, known, number, same⟩
  obtain ⟨above, name, spelt⟩ : ∃ above name, other.place home = above ++ [name] :=
    ⟨_, _, (List.dropLast_append_getLast filled).symm⟩
  rw [carrier.siblingAt_beside stamp label known home other plain above name spelt number] at same
  obtain ⟨ending, labelled, -⟩ := carrier.siblingName_eq other label number
  refine unlabelled (carrier.siblingName other label number) (by simp [same]) ⟨label, known, ?_⟩
  rw [labelled, String.toList_append, String.toList_append]
  exact List.infix_append _ _ _

end Carrier

end Stowage

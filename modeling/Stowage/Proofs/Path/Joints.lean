import Stowage.Proofs.Disk.Seeing

set_option autoImplicit false

namespace Stowage

namespace Path

def stepsOf (chars : List Char) : List Step :=
  ((Text.splitOn separator chars).filter (· ≠ [])).map segmentStep

def bare (p : Path) : List Step := stepsOf p.text.toList

theorem stepsOf_append (before after : List Char) :
    stepsOf (before ++ separator :: after) = stepsOf before ++ stepsOf after := by
  rw [stepsOf, Text.splitOn_append, List.filter_append, List.map_append]
  rfl

theorem stepsOf_cons_self (chars : List Char) : stepsOf (separator :: chars) = stepsOf chars :=
  stepsOf_append [] chars

theorem stepsOf_name {name : String} (named : IsName name) : stepsOf name.toList = [.enter name] := by
  rw [stepsOf, Text.splitOn_of_not_mem _ _ named.2.2.2]
  simp [segmentStep, named.segment]

theorem steps_eq (p : Path) : p.steps = p.bare ++ if p.endsInSeparator then [.folder] else [] := by
  have same : p.steps = if p.endsInSeparator then p.bare ++ [.folder] else p.bare := rfl
  rw [same]
  split <;> simp

theorem join_text {base rest : Path} (filled : base.text ≠ "") (relative : rest.isAbsolute = false) :
    ∃ front, (base.join rest).text.toList = front ++ separator :: rest.text.toList ∧ stepsOf front = base.bare ∧
      (front ++ [separator]).head? = base.text.toList.head? := by
  rw [join_eq filled relative]
  cases ended : base.endsInSeparator with
  | true =>
    obtain ⟨front, split⟩ := List.getLast?_eq_some_iff.1 (of_decide_eq_true ended)
    refine ⟨front, by simp [split], ?_, by rw [split]⟩
    rw [bare, split, stepsOf_append]
    exact (List.append_nil _).symm
  | false =>
    refine ⟨base.text.toList, by simp [separator], rfl, ?_⟩
    rw [List.head?_append, Option.or_of_isSome]
    exact List.isSome_head?.2 fun empty => filled (String.toList_inj.1 empty)

section

variable {base rest : Path} (filled : base.text ≠ "") (relative : rest.isAbsolute = false)

include filled relative

theorem isAbsolute_join_eq : (base.join rest).isAbsolute = base.isAbsolute := by
  obtain ⟨front, chars, -, first⟩ := join_text filled relative
  unfold isAbsolute
  rw [chars, ← first, ← List.singleton_append, ← List.append_assoc, List.head?_append, Option.or_of_isSome]
  simp

theorem steps_join : (base.join rest).steps = base.bare ++ (Path.mk ("/" ++ rest.text)).steps := by
  obtain ⟨front, chars, own, -⟩ := join_text filled relative
  have alone : ("/" ++ rest.text).toList = separator :: rest.text.toList := by simp [separator]
  have ended : (base.join rest).endsInSeparator = (Path.mk ("/" ++ rest.text)).endsInSeparator := by
    unfold endsInSeparator
    rw [chars, alone, List.getLast?_append, Option.or_of_isSome]
    simp
  have tail : (Path.mk ("/" ++ rest.text)).bare = stepsOf rest.text.toList := by
    rw [bare, alone, stepsOf_cons_self]
  rw [steps_eq, steps_eq, ended, tail, bare, chars, stepsOf_append, own, List.append_assoc]

end

theorem join_filled {base : Path} (filled : base.text ≠ "") (rest : Path) : (base.join rest).text ≠ "" := by
  intro empty
  cases rooted : rest.isAbsolute with
  | true =>
    rw [join, if_pos rooted] at empty
    simp [isAbsolute, empty] at rooted
  | false =>
    obtain ⟨front, chars, -⟩ := join_text filled rooted
    simp [empty] at chars

section

variable {base rest : Path} (filled : base.text ≠ "") {name : String} (named : IsName name)

include named

theorem isAbsolute_name : (Path.mk name).isAbsolute = false := (components_name name named).1

include filled

theorem steps_join_name : (base.join ⟨name⟩).steps = base.bare ++ [.enter name] := by
  have alone : ("/" ++ name).toList = separator :: name.toList := by simp [separator]
  have ended : (Path.mk ("/" ++ name)).endsInSeparator = false := by
    unfold endsInSeparator
    rw [alone, ← List.singleton_append, List.getLast?_append, Option.or_of_isSome, decide_eq_false_iff_not]
    · exact fun cut => named.2.2.2 (List.mem_of_getLast? cut)
    · exact List.getLast?_isSome.2 named.segment.1
  have tail : (Path.mk ("/" ++ name)).bare = [.enter name] := by
    rw [bare, alone, stepsOf_cons_self, stepsOf_name named]
  rw [steps_join filled (isAbsolute_name named), steps_eq, ended, tail]
  rfl

theorem join_join : (base.join rest).join ⟨name⟩ = base.join (rest.join ⟨name⟩) := by
  have relative := isAbsolute_name named
  cases rooted : rest.isAbsolute with
  | true =>
    have whole : ∀ other : Path, other.isAbsolute = true -> base.join other = other := by
      intro other absolute
      rw [join, if_pos absolute]
    rw [whole rest rooted, whole _ (isAbsolute_join rest name rooted named)]
  | false =>
    rw [join_eq (join_filled filled rest) relative]
    by_cases empty : rest.text = ""
    · -- An empty rest puts no more than a separator behind the base.
      obtain ⟨front, chars, -⟩ := join_text filled rooted
      have ended : (base.join rest).endsInSeparator = true := by
        rw [endsInSeparator, chars, empty]
        simp
      have single : rest.join ⟨name⟩ = ⟨name⟩ := by
        unfold join
        rw [relative, if_neg Bool.false_ne_true, empty]
        rfl
      rw [if_pos ended, single, join_eq filled rooted, join_eq filled relative, empty]
      simp
    · have ended : (base.join rest).endsInSeparator = rest.endsInSeparator := by
        rw [join_eq filled rooted]
        unfold endsInSeparator
        rw [String.toList_append, List.getLast?_append, Option.or_of_isSome]
        exact List.getLast?_isSome.2 fun none => empty (String.toList_inj.1 none)
      have relative' : (rest.join ⟨name⟩).isAbsolute = false := by
        rw [isAbsolute_join_eq empty relative, rooted]
      rw [ended, join_eq filled rooted, join_eq filled relative', join_eq empty relative]
      cases rest.endsInSeparator <;> simp [String.append_assoc]

end

theorem place_join_name (base : Path) {name : String} (named : IsName name) (home : Location) :
    (base.join ⟨name⟩).place home = base.place home ++ [name] := by
  by_cases filled : base.text = ""
  · have alone : base.join ⟨name⟩ = ⟨name⟩ := by
      simp [join, isAbsolute_name named, filled]
    have empty : base = ⟨""⟩ := by rw [← filled]
    rw [alone, place_eq, (components_name name named).2, empty, place_eq]
    rfl
  · have steps : ∀ here, base.steps.foldl Location.follow here = base.bare.foldl Location.follow here := by
      intro here
      rw [steps_eq, List.foldl_append]
      split <;> rfl
    rw [place, place, isAbsolute_join_eq filled (isAbsolute_name named), steps_join_name filled named,
      List.foldl_append, steps]
    rfl

theorem joins_join {base : Path} (filled : base.text ≠ "") (rest : Path) {names : List String}
    (named : ∀ name ∈ names, IsName name) : (base.join rest).joins names = base.join (rest.joins names) := by
  induction names generalizing rest with
  | nil => rfl
  | cons name names ih =>
    obtain ⟨own, others⟩ := List.forall_mem_cons.1 named
    rw [joins_cons, join_join filled own, ih _ others, joins_cons]

theorem bare_join_name {base : Path} (filled : base.text ≠ "") {name : String} (named : IsName name) :
    (base.join ⟨name⟩).bare = base.bare ++ [.enter name] := by
  obtain ⟨front, chars, own, -⟩ := join_text filled (isAbsolute_name named)
  rw [bare, chars, stepsOf_append, own, stepsOf_name named]

theorem bare_joins {base : Path} (filled : base.text ≠ "") {names : List String}
    (named : ∀ name ∈ names, IsName name) : (base.joins names).bare = base.bare ++ names.map .enter := by
  induction names generalizing base with
  | nil => simp [joins]
  | cons name names ih =>
    obtain ⟨own, others⟩ := List.forall_mem_cons.1 named
    rw [joins_cons, ih (join_filled filled _) others, bare_join_name filled own]
    simp

theorem joins_injective {base : Path} (filled : base.text ≠ "") {names others : List String}
    (named : ∀ name ∈ names, IsName name) (named' : ∀ name ∈ others, IsName name)
    (same : base.joins names = base.joins others) : names = others := by
  have steps := congrArg bare same
  rw [bare_joins filled named, bare_joins filled named', List.append_cancel_left_eq] at steps
  exact List.map_injective_iff.2 (fun _ _ equal => Step.enter.inj equal) steps

theorem map_joins_injective {base : Path} (filled : base.text ≠ "") {ways others : List (List String)}
    (named : ∀ way ∈ ways, ∀ name ∈ way, IsName name) (named' : ∀ way ∈ others, ∀ name ∈ way, IsName name)
    (same : ways.map base.joins = others.map base.joins) : ways = others := by
  induction ways generalizing others with
  | nil => exact (List.map_eq_nil_iff.1 same.symm).symm
  | cons way ways ih =>
    obtain ⟨other, others, rfl, first, rest⟩ := List.map_eq_cons_iff.1 same.symm
    obtain ⟨own, named⟩ := List.forall_mem_cons.1 named
    obtain ⟨own', named'⟩ := List.forall_mem_cons.1 named'
    rw [joins_injective filled own own' first.symm, ih named named' rest.symm]

def lastComponent (name : String) : Component := if name = ".." then .up else .name name

theorem lastComponent_injective {name other : String} (same : lastComponent name = lastComponent other) :
    name = other := by
  unfold lastComponent at same
  split_ifs at same with first second
  · rw [first, second]
  · exact Component.name.inj same

theorem lastComponent_ne_root (name : String) : lastComponent name ≠ .root := by
  unfold lastComponent
  split <;> simp

theorem spelled_last {name : String} (whole : separator ∉ name.toList) (long : 2 ≤ name.toList.length) :
    spelled [name.toList] = [lastComponent name] := by
  by_cases dots : name = ".."
  · rw [dots]
    rfl
  · have named : IsName name := by
      refine ⟨?_, ?_, dots, whole⟩ <;> rintro rfl <;> exact absurd long (by decide)
    rw [lastComponent, if_neg dots, spelled_name named]

theorem endsInSeparator_join (base : Path) {name : String} (whole : separator ∉ name.toList) (filled : name ≠ "") :
    (base.join ⟨name⟩).endsInSeparator = false := by
  obtain ⟨front, chars⟩ : ∃ front, (base.join ⟨name⟩).text.toList = front ++ name.toList := by
    by_cases empty : base.text = ""
    · exact ⟨[], by simp [join, isAbsolute_of_whole whole, empty]⟩
    · obtain ⟨front, chars, -, -⟩ := join_text empty (isAbsolute_of_whole whole)
      exact ⟨front ++ [separator], by rw [chars]; simp⟩
  rw [endsInSeparator, chars, List.getLast?_append, Option.or_of_isSome, decide_eq_false_iff_not]
  · exact fun cut => whole (List.mem_of_getLast? cut)
  · exact List.getLast?_isSome.2 fun none => filled (String.toList_inj.1 none)

theorem fileName?_join (base : Path) {name : String} (named : IsName name) :
    (base.join ⟨name⟩).fileName? = some name :=
  fileName?_of_components _ _ name (components_join_name base named)

theorem components_joins (base : Path) {names : List String} (named : ∀ name ∈ names, IsName name) :
    (base.joins names).components = base.components ++ names.map .name :=
  components_foldl_join base named

theorem extension_joins (base other : Path) {names : List String} (below : names ≠ [])
    (named : ∀ name ∈ names, IsName name) : (base.joins names).extension = (other.joins names).extension := by
  obtain ⟨front, last, rfl⟩ := (List.eq_nil_or_concat' names).resolve_left below
  have ends : ∀ p : Path, (p.joins (front ++ [last])).fileName? = some last := by
    intro p
    rw [joins, List.foldl_append]
    exact fileName?_join _ (named last (by simp))
  rw [extension, extension, extension?, extension?, ends base, ends other]

end Path

end Stowage

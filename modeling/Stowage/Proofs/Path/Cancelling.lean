import Mathlib.Data.List.Sort
import Stowage.Proofs.Path.Keeping

set_option autoImplicit false

namespace Stowage

def NameAt (way : List Component) (index : Nat) : Prop := ∃ text, way[index]? = some (.name text)

/-- At `back` stands a `..`, and the nearest name before it that no earlier `..` takes back is the one at `index`. -/
def TakesBack (way : List Component) (back index : Nat) : Prop :=
  way[back]? = some .up ∧ index < back ∧ NameAt way index ∧ (∀ earlier : Fin back, ¬ TakesBack way earlier index) ∧
    ∀ between, index < between -> between < back -> NameAt way between ->
      ∃ earlier : Fin back, TakesBack way earlier between
termination_by back
decreasing_by all_goals exact earlier.isLt

/-- These are the names of a way that no `..` takes back, in their order. -/
def NamesLeft (way : List Component) (names : List String) : Prop :=
  ∃ kept : List Nat, kept.Pairwise (· < ·) ∧
    (∀ index, index ∈ kept ↔ NameAt way index ∧ ∀ back, ¬ TakesBack way back index) ∧
    kept.map (way[·]?) = names.map fun text => some (.name text)

/-- A way has been followed up to `next`. The names that were passed and not taken back so far stand at `kept`, the
nearest first. -/
structure Followed (way : List Component) (next : Nat) (kept : List Nat) (passed : List String) : Prop where
  nearest : kept.Pairwise (· > ·)
  left : ∀ index, index ∈ kept ↔ index < next ∧ NameAt way index ∧ ∀ back < next, ¬ TakesBack way back index
  names : kept.map (way[·]?) = passed.map fun text => some (.name text)

section

variable {way : List Component}

theorem TakesBack.up {back index : Nat} (takes : TakesBack way back index) : way[back]? = some .up := by
  unfold TakesBack at takes
  exact takes.1

theorem TakesBack.lt {back index : Nat} (takes : TakesBack way back index) : index < back := by
  unfold TakesBack at takes
  exact takes.2.1

theorem Followed.start : Followed way 0 [] [] := ⟨.nil, by simp, rfl⟩

theorem Followed.onward {next : Nat} {kept : List Nat} {passed : List String} {component : Component}
    (followed : Followed way next kept passed) (here : way[next]? = some component) (other : component ≠ .up) (index : Nat) :
    index ∈ kept ↔ index < next ∧ NameAt way index ∧ ∀ back < next + 1, ¬ TakesBack way back index := by
  have idle : ¬ TakesBack way next index := fun takes => other (Option.some_inj.1 (here.symm.trans takes.up))
  rw [followed.left]
  refine and_congr_right fun _ => and_congr_right fun _ => ⟨fun free back early => ?_, fun free back early => ?_⟩
  · rcases Nat.lt_succ_iff_lt_or_eq.1 early with early | rfl
    · exact free back early
    · exact idle
  · exact free back (Nat.lt_succ_of_lt early)

theorem Followed.here {next : Nat} {kept : List Nat} {passed : List String} (followed : Followed way next kept passed)
    (here : way[next]? = some .here) : Followed way (next + 1) kept passed := by
  refine ⟨followed.nearest, fun index => ?_, followed.names⟩
  have unnamed : NameAt way index -> index ≠ next := by
    rintro ⟨text, named⟩ rfl
    cases here.symm.trans named
  rw [followed.onward here (by simp)]
  constructor
  · rintro ⟨early, named, free⟩
    exact ⟨Nat.lt_succ_of_lt early, named, free⟩
  · rintro ⟨early, named, free⟩
    exact ⟨Nat.lt_of_le_of_ne (Nat.le_of_lt_succ early) (unnamed named), named, free⟩

theorem Followed.name {next : Nat} {kept : List Nat} {passed : List String} {text : String}
    (followed : Followed way next kept passed) (here : way[next]? = some (.name text)) :
    Followed way (next + 1) (next :: kept) (text :: passed) := by
  refine ⟨List.pairwise_cons.2 ⟨fun index inside => ((followed.left index).1 inside).1, followed.nearest⟩,
    fun index => ?_, by simp [here, followed.names]⟩
  rw [List.mem_cons, followed.onward here (by simp)]
  constructor
  · rintro (rfl | ⟨early, named, free⟩)
    · exact ⟨Nat.lt_succ_self _, ⟨text, here⟩, fun back early takes =>
        absurd takes.lt (Nat.not_lt_of_ge (Nat.le_of_lt_succ early))⟩
    · exact ⟨Nat.lt_succ_of_lt early, named, free⟩
  · rintro ⟨early, named, free⟩
    exact (Nat.lt_succ_iff_lt_or_eq.1 early).symm.imp_right fun early => ⟨early, named, free⟩

theorem Followed.takes_iff {next nearest : Nat} {kept : List Nat} {passed : List String}
    (followed : Followed way next (nearest :: kept) passed) (here : way[next]? = some .up) (index : Nat) :
    TakesBack way next index ↔ index = nearest := by
  obtain ⟨before, named, free⟩ := (followed.left nearest).1 List.mem_cons_self
  obtain ⟨further, -⟩ := List.pairwise_cons.1 followed.nearest
  constructor
  · intro takes
    unfold TakesBack at takes
    obtain ⟨-, early, named', free', between⟩ := takes
    have inside := (followed.left index).2 ⟨early, named', fun back early => free' ⟨back, early⟩⟩
    rcases List.mem_cons.1 inside with same | deeper
    · exact same
    · obtain ⟨earlier, takes⟩ := between nearest (further index deeper) before named
      exact absurd takes (free earlier earlier.isLt)
  · rintro rfl
    unfold TakesBack
    refine ⟨here, before, named, fun earlier => free earlier earlier.isLt, fun between later early named' => ?_⟩
    -- A name nearer than the nearest one that stands has been taken back.
    by_contra none
    have inside := (followed.left between).2 ⟨early, named', fun back early takes => none ⟨⟨back, early⟩, takes⟩⟩
    rcases List.mem_cons.1 inside with same | deeper
    · exact absurd later (same ▸ Nat.lt_irrefl _)
    · exact absurd later (Nat.not_lt_of_gt (further between deeper))

theorem Followed.up {next nearest : Nat} {kept : List Nat} {text : String} {passed : List String}
    (followed : Followed way next (nearest :: kept) (text :: passed)) (here : way[next]? = some .up) :
    Followed way (next + 1) kept passed := by
  obtain ⟨further, onward⟩ := List.pairwise_cons.1 followed.nearest
  refine ⟨onward, fun index => ?_, (List.cons.inj followed.names).2⟩
  have takes := followed.takes_iff here index
  constructor
  · intro inside
    obtain ⟨early, named, free⟩ := (followed.left index).1 (List.mem_cons_of_mem _ inside)
    refine ⟨Nat.lt_succ_of_lt early, named, fun back early' => ?_⟩
    rcases Nat.lt_succ_iff_lt_or_eq.1 early' with early' | rfl
    · exact free back early'
    · rw [takes]
      exact Nat.ne_of_lt (further index inside)
  · rintro ⟨early, named, free⟩
    have other : index ≠ nearest := fun same => free next (Nat.lt_succ_self _) (takes.2 same)
    have before : index < next := by
      refine Nat.lt_of_le_of_ne (Nat.le_of_lt_succ early) ?_
      rintro rfl
      obtain ⟨text, named⟩ := named
      cases here.symm.trans named
    have inside := (followed.left index).2 ⟨before, named, fun back early => free back (Nat.lt_succ_of_lt early)⟩
    exact (List.mem_cons.1 inside).resolve_left other

theorem Followed.finish {next : Nat} {kept : List Nat} {passed : List String} (followed : Followed way next kept passed)
    (ended : way.length ≤ next) : NamesLeft way passed.reverse := by
  refine ⟨kept.reverse, List.pairwise_reverse.2 followed.nearest, fun index => ?_, by simp [followed.names]⟩
  rw [List.mem_reverse, followed.left]
  have within : ∀ {at' : Nat} {component : Component}, way[at']? = some component -> at' < next := fun here =>
    Nat.lt_of_lt_of_le (List.getElem?_eq_some_iff.1 here).1 ended
  constructor
  · rintro ⟨-, named, free⟩
    exact ⟨named, fun back takes => free back (within takes.up) takes⟩
  · rintro ⟨named, free⟩
    obtain ⟨text, here⟩ := id named
    exact ⟨within here, named, fun back _ => free back⟩

theorem drop_cons {next : Nat} {component : Component} {ahead : List Component}
    (rest : way.drop next = component :: ahead) : way[next]? = some component ∧ way.drop (next + 1) = ahead := by
  refine ⟨by simpa using congrArg List.head? rest, ?_⟩
  rw [← List.tail_drop, rest, List.tail_cons]

theorem Followed.namesLeft {next : Nat} {kept : List Nat} {passed names : List String} {ahead : List Component}
    (followed : Followed way next kept passed) (rest : way.drop next = ahead) (left : cancelUps passed ahead = some names) :
    NamesLeft way names := by
  fun_induction cancelUps passed ahead generalizing next kept with
  | case1 passed =>
    cases left
    exact followed.finish (List.drop_eq_nil_iff.1 rest)
  | case2 passed text later ih =>
    obtain ⟨here, rest⟩ := drop_cons rest
    exact ih (followed.name here) rest left
  | case3 passed later ih =>
    obtain ⟨here, rest⟩ := drop_cons rest
    exact ih (followed.here here) rest left
  | case4 text passed later ih =>
    obtain ⟨here, rest⟩ := drop_cons rest
    cases kept with
    | nil => cases followed.names
    | cons nearest kept => exact ih (followed.up here) rest left
  | case5 => cases left
  | case6 => cases left

theorem namesLeft_of_cancelUps {names : List String} (left : cancelUps [] way = some names) : NamesLeft way names :=
  Followed.start.namesLeft List.drop_zero left

theorem NamesLeft.unique {names others : List String} (left : NamesLeft way names) (left' : NamesLeft way others) :
    names = others := by
  obtain ⟨kept, sorted, stays, spelt⟩ := left
  obtain ⟨kept', sorted', stays', spelt'⟩ := left'
  have same : kept = kept' := sorted.eq_of_mem_iff sorted' fun index => (stays index).trans (stays' index).symm
  rw [same, spelt'] at spelt
  refine (List.map_injective_iff.2 (fun first second equal => ?_) spelt).symm
  exact Component.name.inj (Option.some_inj.1 equal)

end

namespace Path

/-- A path below a root has a form without detours just where each `..` finds a name to take back. The names that no `..`
takes back lead down to it from the root, and it is its own form without detours. -/
theorem normalisation_exact {root : Path} (absolute : root.isAbsolute = true) (p : Path) :
    ((root.normalizeWithin p).isSome ↔ ∃ way, p.components = root.components ++ way ∧ Balanced 0 way) ∧
      (∀ found, root.normalizeWithin p = some found ↔
        ∃ way names, p.components = root.components ++ way ∧ Balanced 0 way ∧ NamesLeft way names ∧
          found = root.joinNames names) ∧
      ∀ found, root.normalizeWithin p = some found ->
        (∃ names : List String, found.components = root.components ++ names.map .name) ∧
          root.normalizeWithin found = some found := by
  have keeps := normalizeWithin_isSome_iff (p := p) absolute
  have known : ∀ found, root.normalizeWithin p = some found ->
      ∃ way names, p.components = root.components ++ way ∧ NamesLeft way names ∧
        found = root.joinNames names ∧ ∀ name ∈ names, IsName name := by
    intro found normal
    obtain ⟨rest, below, left⟩ := Option.bind_eq_some_iff.1 normal
    obtain ⟨names, cancelled, rfl⟩ := Option.map_eq_some_iff.1 left
    have spelt := components_of_below? absolute below
    refine ⟨rest.components, names, spelt, namesLeft_of_cancelUps cancelled, rfl, fun name member => ?_⟩
    have inside := (mem_of_cancelUps cancelled name member).resolve_left List.not_mem_nil
    exact isName_of_component p name (by simp [spelt, inside])
  refine ⟨keeps, fun found => ⟨fun normal => ?_, ?_⟩, fun found normal => ?_⟩
  · obtain ⟨way, names, spelt, left, same, -⟩ := known found normal
    obtain ⟨way', spelt', balanced⟩ := keeps.1 (Option.isSome_iff_exists.2 ⟨found, normal⟩)
    obtain rfl := List.append_cancel_left (spelt.symm.trans spelt')
    exact ⟨way, names, spelt, balanced, left, same⟩
  · rintro ⟨way, names, spelt, balanced, left, rfl⟩
    obtain ⟨found, normal⟩ := Option.isSome_iff_exists.1 (keeps.2 ⟨way, spelt, balanced⟩)
    obtain ⟨way', names', spelt', left', rfl, -⟩ := known found normal
    obtain rfl := List.append_cancel_left (spelt.symm.trans spelt')
    rw [left.unique left', normal]
  · obtain ⟨-, names, -, -, rfl, named⟩ := known found normal
    have joined := components_joinNames root named
    -- Below the root it has nothing but names, of which none is taken back.
    obtain ⟨rest, below, own⟩ := below?_of_components absolute joined
    refine ⟨⟨names, joined⟩, ?_⟩
    rw [normalizeWithin, below, Option.bind_some, own, cancelUps_names]
    rfl

theorem returning_exact : (Path.mk "/project").isAbsolute = true ∧
    (Path.mk "/project").normalizeWithin ⟨"/project/src/a/../..//b/./c"⟩ = some ⟨"/project/b/c"⟩ ∧
    (Path.mk "/project").normalizeWithin ⟨"/project/b/c"⟩ = some ⟨"/project/b/c"⟩ ∧
    (Path.mk "/project").normalizeWithin ⟨"/project/src/../../project"⟩ = none ∧
    ¬ ∃ way, (Path.mk "/project/src/../../project").components = (Path.mk "/project").components ++ way ∧
      Balanced 0 way := by
  have computed : (Path.mk "/project").isAbsolute = true ∧
      (Path.mk "/project").normalizeWithin ⟨"/project/src/a/../..//b/./c"⟩ = some ⟨"/project/b/c"⟩ ∧
      (Path.mk "/project").normalizeWithin ⟨"/project/src/../../project"⟩ = none := by
    decide
  obtain ⟨absolute, normal, none⟩ := computed
  obtain ⟨-, -, again⟩ := normalisation_exact absolute ⟨"/project/src/a/../..//b/./c"⟩
  refine ⟨absolute, normal, (again _ normal).2, none, fun keeps => ?_⟩
  have found := (normalisation_exact absolute ⟨"/project/src/../../project"⟩).1.2 keeps
  rw [none] at found
  cases found

end Path

end Stowage

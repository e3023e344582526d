import Stowage.Proofs.Specifier.Ways
import Stowage.Specifier.Basic

set_option autoImplicit false

namespace Stowage.Specifier

open Stowage.Path (separator IsName Starts)

theorem shown_cases {target : Path} (plain : target.Plain) (keepExtension : Bool) :
    (shown target keepExtension).Plain ∨ (shown target keepExtension).Climbs := by
  unfold shown
  split
  · exact .inl plain
  · exact (Starts.withoutExtension plain).cases plain

/-- A specifier that says by its start that it is relative. -/
def Prefixed (specifier : String) : Prop :=
  ['.', separator] <+: specifier.toList ∨ ['.', '.', separator] <+: specifier.toList

theorem prefixed_up {others : List String} (filled : others ≠ []) : Prefixed (wayText (".." :: others)) := by
  obtain ⟨second, others, rfl⟩ := List.exists_cons_of_ne_nil filled
  have way : [separator].intercalate ((".." :: second :: others).map String.toList) =
      ['.', '.', separator] ++ [separator].intercalate ((second :: others).map String.toList) := by
    simp [List.intercalate_cons_cons]
  have dots : ['.', '.'] <+: [separator].intercalate ((".." :: second :: others).map String.toList) := by
    rw [way]
    exact ⟨_, rfl⟩
  refine .inr ?_
  rw [toList_wayText, if_pos dots, way]
  exact List.prefix_append _ _

theorem dots_prefix_append (first rest : List Char) :
    ['.', '.'] <+: first ++ separator :: rest ↔ ['.', '.'] <+: first := by
  rcases first with _ | ⟨c, _ | ⟨d, first⟩⟩ <;> simp [List.cons_prefix_cons, separator]

theorem prefixed_down {first : String} {others : List String} (step : IsName first ∨ first = ".." ∧ others = []) :
    Prefixed (wayText (first :: others)) ↔ ¬ ['.', '.'] <+: first.toList := by
  obtain ⟨tail, way, alone⟩ : ∃ tail, [separator].intercalate ((first :: others).map String.toList) =
      first.toList ++ tail ∧ (tail = [] ∨ others ≠ [] ∧ ∃ rest, tail = separator :: rest) := by
    cases others with
    | nil => exact ⟨[], by simp, .inl rfl⟩
    | cons second others =>
      refine ⟨separator :: [separator].intercalate ((second :: others).map String.toList), ?_, ?_⟩
      · simp [List.intercalate_cons_cons]
      · exact .inr ⟨List.cons_ne_nil _ _, _, rfl⟩
  have kept : ['.', '.'] <+: first.toList ++ tail ↔ ['.', '.'] <+: first.toList := by
    rcases alone with rfl | ⟨-, rest, rfl⟩
    · rw [List.append_nil]
    · exact dots_prefix_append _ _
  unfold Prefixed
  rw [toList_wayText, way]
  simp only [kept]
  by_cases dotted : ['.', '.'] <+: first.toList
  · simp only [dotted, if_true, not_true_eq_false, iff_false]
    obtain ⟨name, spelt⟩ := dotted
    rw [← spelt]
    rintro (here | up)
    · simp [List.cons_prefix_cons, separator] at here
    · -- The third character is one of a name, unless there is none.
      rcases step with named | ⟨rfl, rfl⟩
      · cases name with
        | nil => exact named.segment.2.2 spelt.symm
        | cons c name =>
          have cut : separator = c := by simpa [List.cons_prefix_cons] using up
          exact named.2.2.2 (by rw [← spelt, cut]; simp)
      · obtain rfl := alone.resolve_right fun more => more.1 rfl
        have long := up.length_le
        simp [spelt] at long
  · simp only [dotted, if_false, not_false_eq_true, iff_true]
    exact .inl ⟨_, rfl⟩

theorem isRelative_of_prefixed {specifier : String} (starts : Prefixed specifier) : isRelative specifier = true := by
  have dot : "./".toList = ['.', separator] := by simp [separator]
  have dots : "../".toList = ['.', '.', separator] := by simp [separator]
  unfold isRelative
  rw [dot, dots]
  rcases starts with here | up
  · simp [List.isPrefixOf_iff_prefix.2 here]
  · simp [List.isPrefixOf_iff_prefix.2 up]

theorem strategyFor_of_prefixed {specifier : String} (starts : Prefixed specifier) (anchors : Anchors) :
    anchors.strategyFor specifier = some .relative := by
  rw [Anchors.strategyFor, if_pos (isRelative_of_prefixed starts)]

/-- The path `p` is not on the way to the directory, and does not go on below it with a name that starts with two
dots. -/
structure Writable (directory p : Path) : Prop where
  off : ¬ p.components <+: directory.components
  dotless : ∀ next rest, p.components = directory.components ++ next :: rest -> ¬ ['.', '.'] <+: next.text.toList

theorem step_of_forms {p : Path} (forms : p.Plain ∨ p.Climbs) {front rest : List Component} {next : Component}
    (spelt : p.components = .root :: (front ++ next :: rest)) : IsName next.text ∨ next.text = ".." ∧ rest = [] := by
  have named : ∀ before after (names : List String), before ++ next :: after = names.map .name ->
      IsName next.text := by
    intro before after names same
    obtain ⟨name, -, rfl⟩ := List.mem_map.1 (same ▸ List.mem_append_right before List.mem_cons_self)
    exact Path.isName_of_component p name (by simp [spelt])
  rcases forms with ⟨names, known⟩ | ⟨names, known⟩
  · exact .inl (named front rest names (List.cons.inj (spelt.symm.trans known)).2)
  · have same := (List.cons.inj (spelt.symm.trans known)).2
    rcases List.eq_nil_or_concat rest with rfl | ⟨more, last, rfl⟩
    · obtain ⟨-, last⟩ := List.append_inj' same rfl
      obtain rfl := List.singleton_inj.1 last
      exact .inr ⟨rfl, rfl⟩
    · rw [List.concat_eq_append, ← List.cons_append, ← List.append_assoc, List.append_eq] at same
      exact .inl (named front more names (List.append_inj' same rfl).1)

section

variable {directory p : Path} {dirs ends : List Component} (above : directory.components = .root :: dirs)
  (below : p.components = .root :: ends) (off : ¬ p.components <+: directory.components)

include above below off

theorem way_filled : ends.drop (commonLength dirs ends) ≠ [] := by
  intro none
  rw [above, below, List.prefix_cons_inj, ← commonLength_eq_length_iff] at off
  have short := List.drop_eq_nil_iff.1 none
  have shared := congrArg List.length (take_commonLength dirs ends)
  have least := commonLength_le_left dirs ends
  rw [List.length_take, List.length_take] at shared
  omega

theorem way_up (up : commonLength dirs ends < dirs.length) :
    (∃ steps, steps? directory.components p.components = some steps ∧ Prefixed (wayText steps)) ∧
      Writable directory p := by
  obtain ⟨climbed, count⟩ := Nat.exists_eq_add_one_of_ne_zero (Nat.sub_ne_zero_of_lt up)
  have filled := way_filled above below off
  generalize down : (ends.drop (commonLength dirs ends)).map Component.text = names
  refine ⟨⟨".." :: (List.replicate climbed ".." ++ names), ?_, ?_⟩, off, ?_⟩
  · rw [above, below] at off ⊢
    rw [← down]
    exact (steps?_eq_some_iff _ _ _).2 ⟨off, by rw [count, List.replicate_succ, List.cons_append]⟩
  · refine prefixed_up fun none => filled ?_
    exact List.map_eq_nil_iff.1 (down.trans (List.append_eq_nil_iff.1 none).2)
  · intro next rest further
    rw [above, below, List.cons_append, List.cons_inj_right] at further
    have whole := commonLength_append dirs [] (next :: rest)
    rw [List.append_nil, ← further] at whole
    omega

theorem way_down (forms : p.Plain ∨ p.Climbs) (down : commonLength dirs ends = dirs.length) :
    (∃ steps, steps? directory.components p.components = some steps ∧ Prefixed (wayText steps)) ↔
      Writable directory p := by
  have filled := way_filled above below off
  obtain ⟨next, rest, left⟩ := List.exists_cons_of_ne_nil filled
  have whole := List.take_append_drop (commonLength dirs ends) ends
  rw [← take_commonLength, left, down, List.take_length] at whole
  rw [down] at left
  -- The directory is above the target: the way is what is left of the target, and begins with its next name.
  have reached : steps? directory.components p.components = some (next.text :: rest.map Component.text) := by
    rw [above, below] at off ⊢
    refine (steps?_eq_some_iff _ _ _).2 ⟨off, ?_⟩
    rw [down, left, Nat.sub_self]
    rfl
  have step : IsName next.text ∨ next.text = ".." ∧ rest.map Component.text = [] := by
    rcases step_of_forms forms (below.trans (congrArg _ whole.symm)) with named | ⟨up, none⟩
    · exact .inl named
    · exact .inr ⟨up, by rw [none]; rfl⟩
  rw [reached]
  constructor
  · rintro ⟨steps, same, marked⟩
    cases same
    refine ⟨off, fun other others further => ?_⟩
    rw [above, below, ← whole, List.cons_append, List.cons_inj_right, List.append_cancel_left_eq] at further
    obtain ⟨rfl, -⟩ := List.cons.inj further
    exact (prefixed_down step).1 marked
  · intro writable
    refine ⟨_, rfl, (prefixed_down step).2 (writable.dotless next rest ?_)⟩
    rw [above, below, ← whole, List.cons_append]

end

/-- A relative specifier is there and recognised as one just where the path that it writes is off the way to the
importing file and does not go on below its directory with two dots. -/
theorem relative_prefixed_iff {file target : Path} (plain : file.Plain) (plain' : target.Plain)
    (keepExtension : Bool) :
    ((∃ specifier, relative? file target keepExtension = some specifier ∧ Prefixed specifier) ↔
      ∃ directory, file.parent? = some directory ∧ Writable directory (shown target keepExtension)) ∧
    ∀ specifier, Prefixed specifier -> isRelative specifier = true ∧
      ∀ anchors : Anchors, anchors.strategyFor specifier = some .relative := by
  refine ⟨?_, fun _ starts => ⟨isRelative_of_prefixed starts, strategyFor_of_prefixed starts⟩⟩
  rw [relative?_eq]
  cases known : file.parent? with
  | none => simp
  | some directory =>
    obtain ⟨folders, above⟩ := (plain.parent known []).1
    have forms := shown_cases plain' keepExtension
    obtain ⟨ends, below⟩ : ∃ ends, (shown target keepExtension).components = .root :: ends := by
      rcases forms with ⟨names, spelt⟩ | ⟨names, spelt⟩
      · exact ⟨_, spelt⟩
      · exact ⟨_, spelt⟩
    have marked : (∃ steps, steps? directory.components (shown target keepExtension).components = some steps ∧
        Prefixed (wayText steps)) ↔ Writable directory (shown target keepExtension) := by
      by_cases off : (shown target keepExtension).components <+: directory.components
      · refine ⟨?_, fun writable => absurd off writable.off⟩
        rintro ⟨steps, reached, -⟩
        rw [above, below] at reached off
        exact absurd off ((steps?_eq_some_iff _ _ _).1 reached).1
      -- A way that goes up begins with dots and is recognised; one that goes straight down begins with a name.
      · rcases Nat.lt_or_eq_of_le (commonLength_le_left (folders.map .name) ends) with up | down
        · obtain ⟨written, writable⟩ := way_up above below off up
          exact ⟨fun _ => writable, fun _ => written⟩
        · exact way_down above below off forms down
    simp [← marked, Option.map_eq_some_iff]

theorem neighbour_prefixed :
    ∃ specifier, relative? ⟨"/project/src/utils/app.ts"⟩ ⟨"/project/src/cards.ts"⟩ false = some specifier ∧
      Prefixed specifier := by
  have computed : (Path.mk "/project/src/utils/app.ts").Plain ∧ (Path.mk "/project/src/cards.ts").Plain ∧
      (Path.mk "/project/src/utils/app.ts").parent? = some ⟨"/project/src/utils"⟩ ∧
      (Path.mk "/project/src/utils").components = [.root, .name "project", .name "src", .name "utils"] ∧
      (shown ⟨"/project/src/cards.ts"⟩ false).components =
        [.root, .name "project", .name "src", .name "cards"] := by decide +kernel
  obtain ⟨plain, plain', known, above, below⟩ := computed
  refine (relative_prefixed_iff plain plain' false).1.2 ⟨_, known, ?_, ?_⟩
  · rw [above, below]
    simp [List.cons_prefix_cons]
  · intro next rest further
    rw [above, below] at further
    have long := congrArg List.length further
    simp at long

theorem not_relative_always_prefixed : ¬ ∀ (file target : Path) (keepExtension : Bool), file.Plain -> target.Plain ->
    target.fileName?.isSome = true -> ¬ target.components <+: file.components ->
    ∃ specifier, relative? file target keepExtension = some specifier ∧ Prefixed specifier := by
  have computed : (Path.mk "/project/src/utils/app.ts").Plain ∧ (Path.mk "/project/src/utils.ts").Plain ∧
      (Path.mk "/project/src/utils.ts").fileName?.isSome = true ∧
      ¬ (Path.mk "/project/src/utils.ts").components <+: (Path.mk "/project/src/utils/app.ts").components ∧
      relative? ⟨"/project/src/utils/app.ts"⟩ ⟨"/project/src/utils.ts"⟩ false = none := by decide +kernel
  obtain ⟨plain, plain', named, apart, none⟩ := computed
  intro always
  obtain ⟨specifier, written, -⟩ := always _ _ false plain plain' named apart
  rw [none] at written
  cases written

end Stowage.Specifier

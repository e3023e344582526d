import Mathlib.Data.List.Induction
import Stowage.Proofs.Path.Endings

set_option autoImplicit false

namespace Stowage

namespace Text

theorem splitOn_cons {separator : Char} {text first : List Char} {others : List (List Char)}
    (split : splitOn separator text = first :: others) :
    (others = [] ∧ text = first) ∨
      ∃ rest, text = first ++ separator :: rest ∧ splitOn separator rest = others := by
  induction text generalizing first with
  | nil =>
    cases split
    exact .inl ⟨rfl, rfl⟩
  | cons c text ih =>
    cases pieces : splitOn separator text with
    | nil => exact absurd pieces (splitOn_ne_nil separator text)
    | cons piece more =>
      rw [splitOn, pieces] at split
      simp only at split
      split at split
      next cut =>
        cases split
        exact .inr ⟨text, by rw [cut, List.nil_append], pieces⟩
      · cases split
        rcases ih pieces with ⟨rfl, rfl⟩ | ⟨rest, rfl, onward⟩
        · exact .inl ⟨rfl, rfl⟩
        · exact .inr ⟨rest, rfl, onward⟩

def endOf : List (List Char) -> List Char -> Nat
  | [], piece => piece.length
  | first :: before, piece => first.length + 1 + endOf before piece

theorem length_le_endOf (before : List (List Char)) (piece : List Char) :
    piece.length ≤ endOf before piece := by
  induction before with
  | nil => exact Nat.le_refl _
  | cons first before ih => exact ih.trans (Nat.le_add_left _ _)

theorem splitOn_cut (separator : Char) (text : List Char) (before after : List (List Char))
    (piece : List Char) (split : splitOn separator text = before ++ piece :: after) :
    ∃ read rest, text = read ++ rest ∧ read.length = endOf before piece ∧
      splitOn separator read = before ++ [piece] := by
  induction before generalizing text with
  | nil =>
    have whole : separator ∉ piece := not_mem_of_mem_splitOn separator text piece (by simp [split])
    have single := splitOn_of_not_mem separator piece whole
    rcases splitOn_cons split with ⟨-, rfl⟩ | ⟨rest, rfl, -⟩
    · exact ⟨text, [], (List.append_nil _).symm, by simp [endOf], single⟩
    · exact ⟨piece, _, rfl, by simp [endOf], single⟩
  | cons first before ih =>
    have whole : separator ∉ first := not_mem_of_mem_splitOn separator text first (by simp [split])
    rcases splitOn_cons split with ⟨impossible, -⟩ | ⟨more, rfl, onward⟩
    · simp at impossible
    · obtain ⟨read, rest, rfl, length, split'⟩ := ih more onward
      refine ⟨first ++ separator :: read, rest, by simp, ?_, ?_⟩
      · simp only [List.length_append, List.length_cons, length, endOf]
        omega
      · rw [splitOn_append, splitOn_of_not_mem separator first whole, split']
        rfl

end Text

def Component.name? : Component -> Option String
  | .name text => some text
  | _ => none

namespace Path

theorem segmentPieces_cut (start : Nat) (segments : List (List Char)) (front after : List Piece)
    (piece : Piece) (split : segmentPieces start segments = front ++ piece :: after) :
    ∃ before segment more, segments = before ++ segment :: more ∧
      (∃ here, segmentComponent here segment = some piece.component) ∧
      segmentPieces start (before ++ [segment]) = front ++ [piece] ∧
      piece.stop = start + Text.endOf before segment := by
  induction segments generalizing start front with
  | nil => simp [segmentPieces] at split
  | cons segment more ih =>
    rw [segmentPieces] at split
    cases spelt : segmentComponent start segment with
    | none =>
      simp only [spelt] at split
      obtain ⟨before, segment', more', rfl, own, cut, stop⟩ := ih _ front split
      refine ⟨segment :: before, segment', more', rfl, own, ?_, ?_⟩
      · rw [List.cons_append, segmentPieces, spelt, cut]
      · rw [stop, Text.endOf]
        omega
    | some component =>
      simp only [spelt] at split
      cases front with
      | nil =>
        obtain ⟨rfl, -⟩ := List.cons.inj split
        refine ⟨[], segment, more, rfl, ⟨start, spelt⟩, ?_, by simp [Text.endOf]⟩
        · rw [List.nil_append, segmentPieces, spelt]
          rfl
      | cons first front =>
        obtain ⟨rfl, onward⟩ := List.cons.inj split
        obtain ⟨before, segment', more', rfl, own, cut, stop⟩ := ih _ front onward
        refine ⟨segment :: before, segment', more', rfl, own, ?_, ?_⟩
        · rw [List.cons_append, segmentPieces, spelt, cut]
          rfl
        · rw [stop, Text.endOf]
          omega

theorem pieces_slice (p : Path) (front after : List Piece) (piece : Piece)
    (split : p.pieces = front ++ piece :: after) :
    (p.slice 0 piece.stop).pieces = front ++ [piece] := by
  have text := slice_start p piece.stop
  have cut : ∀ front, segmentPieces 0 (Text.splitOn separator p.text.toList) = front ++ piece :: after ->
      (p.slice 0 piece.stop).text.toList.head? = p.text.toList.head? ∧
        segmentPieces 0 (Text.splitOn separator (p.slice 0 piece.stop).text.toList) = front ++ [piece] := by
    intro front split
    obtain ⟨before, segment, more, segments, ⟨here, own⟩, pieces, stop⟩ := segmentPieces_cut 0 _ front after
      piece split
    have filled : segment ≠ [] := by
      rintro rfl
      simp [segmentComponent] at own
    obtain ⟨read, rest, whole, length, split'⟩ := Text.splitOn_cut separator _ before more segment segments
    rw [Nat.zero_add, ← length] at stop
    rw [text, whole, stop, List.take_left, split']
    refine ⟨?_, pieces⟩
    cases read with
    | nil =>
      have short : 0 < segment.length := List.length_pos_iff.2 filled
      have within := Text.length_le_endOf before segment
      rw [← length] at within
      exact absurd within (Nat.not_le.2 short)
    | cons c read => rfl
  unfold pieces at split ⊢
  by_cases rooted : p.text.toList.head? = some separator
  · simp only [rooted, if_true, List.singleton_append] at split
    cases front with
    | nil =>
      -- The root itself is all that is left.
      obtain ⟨rfl, -⟩ := List.cons.inj split
      obtain ⟨chars, whole⟩ := List.head?_eq_some_iff.1 rooted
      have left : (p.slice 0 1).text.toList = [separator] := by
        rw [slice_start, whole]
        rfl
      simp [left, Text.splitOn, segmentPieces, segmentComponent]
    | cons first front =>
      obtain ⟨rfl, onward⟩ := List.cons.inj split
      obtain ⟨head, pieces⟩ := cut front onward
      simp only [head, rooted, if_true, pieces]
      rfl
  · simp only [rooted, if_false, List.nil_append] at split ⊢
    obtain ⟨head, pieces⟩ := cut front split
    simp only [head, rooted, if_false, List.nil_append, pieces]

theorem steps_slice (p : Path) (front after : List Piece) (piece : Piece) (name : String)
    (split : p.pieces = front ++ piece :: after) (named : piece.component = .name name) :
    (p.slice 0 piece.stop).steps.getLast? = some (.enter name) := by
  -- The root is no name.
  obtain ⟨front, split⟩ : ∃ front, segmentPieces 0 (Text.splitOn separator p.text.toList) =
      front ++ piece :: after := by
    unfold pieces at split
    simp only at split
    split at split
    · cases front with
      | nil =>
        obtain ⟨rfl, -⟩ := List.cons.inj split
        cases named
      | cons first front => exact ⟨front, (List.cons.inj split).2⟩
    · exact ⟨front, split⟩
  obtain ⟨before, segment, more, segments, ⟨here, own⟩, -, stop⟩ := segmentPieces_cut 0 _ front after piece split
  obtain ⟨read, rest, whole, length, split'⟩ := Text.splitOn_cut separator _ before more segment segments
  rw [Nat.zero_add, ← length] at stop
  have text : (p.slice 0 piece.stop).text.toList = read := by rw [slice_start, stop, whole, List.take_left]
  obtain ⟨filled, spelt⟩ : segment ≠ [] ∧ segmentStep segment = .enter name := by
    rw [named] at own
    obtain ⟨same, filled, dot, dots⟩ := segmentComponent_eq_name_iff.1 own
    rw [segmentStep, if_neg dot, if_neg dots, ← same, String.ofList_toList]
    exact ⟨same ▸ filled, rfl⟩
  have ended : (p.slice 0 piece.stop).endsInSeparator = false := by
    unfold endsInSeparator
    rw [text]
    by_contra last
    obtain ⟨read', rfl⟩ := List.getLast?_eq_some_iff.1 (by simpa using last)
    rw [Text.splitOn_append] at split'
    have last := congrArg List.getLast? split'
    exact filled (by simpa [Text.splitOn] using last.symm)
  unfold steps
  simp only [ended, text, split', List.filter_append, List.map_append]
  simpa [filled, segmentStep] using spelt

theorem components_ne_nil {p : Path} (filled : p.text ≠ "") : p.components ≠ [] := by
  unfold components pieces
  cases chars : p.text.toList with
  | nil => exact absurd (String.toList_inj.1 chars) filled
  | cons first rest =>
    by_cases rooted : first = separator
    · simp [rooted]
    · -- The first segment starts with a character of its own.
      obtain ⟨segment, others, split⟩ : ∃ segment others,
          Text.splitOn separator (first :: rest) = (first :: segment) :: others := by
        cases pieces : Text.splitOn separator rest with
        | nil => exact absurd pieces (Text.splitOn_ne_nil separator rest)
        | cons piece more => exact ⟨piece, more, by simp [Text.splitOn, pieces, rooted]⟩
      have spelt : segmentComponent 0 (first :: segment) ≠ none := by
        unfold segmentComponent
        split_ifs <;> simp_all
      obtain ⟨component, spelt⟩ := Option.ne_none_iff_exists'.1 spelt
      simp [split, segmentPieces, spelt]

theorem parent?_eq_some_iff {p above : Path} : p.parent? = some above ↔
    ∃ front last, p.pieces = front ++ [last] ∧ last.component ≠ .root ∧
      above = p.slice 0 ((front.getLast?.map Piece.stop).getD 0) := by
  unfold parent?
  constructor
  · intro known
    split at known
    · cases known
    next last earlier reversed =>
      split at known
      · cases known
      next named =>
        cases known
        refine ⟨earlier.reverse, last, ?_, named, by rw [List.getLast?_reverse]⟩
        rw [← List.reverse_reverse p.pieces, reversed, List.reverse_cons]
  · rintro ⟨front, last, whole, named, rfl⟩
    simp [whole, named]

theorem components_parent {p above : Path} (known : p.parent? = some above) :
    above.components = p.components.dropLast := by
  obtain ⟨front, last, whole, -, rfl⟩ := parent?_eq_some_iff.1 known
  cases front using List.reverseRecOn with
  | nil =>
    have empty : p.slice 0 0 = ⟨""⟩ := by simp [slice]
    rw [components, components, whole]
    simp only [List.getLast?_nil, Option.map_none, Option.getD_none, empty]
    rfl
  | append_singleton front piece _ =>
    rw [List.append_assoc, List.singleton_append] at whole
    rw [components, components, List.getLast?_concat, Option.map_some, Option.getD_some,
      pieces_slice p front [last] piece whole, whole]
    simp

theorem parent_text {p above : Path} (known : p.parent? = some above) :
    above.text.toList <+: p.text.toList := by
  obtain ⟨front, last, -, -, rfl⟩ := parent?_eq_some_iff.1 known
  rw [slice_start]
  exact List.take_prefix _ _

theorem parent_last {p above : Path} (known : p.parent? = some above) {name : String}
    (last : above.components.getLast? = some (.name name)) : above.steps.getLast? = some (.enter name) := by
  have spelt := components_parent known
  obtain ⟨front, final, whole, -, rfl⟩ := parent?_eq_some_iff.1 known
  rw [spelt, components, whole, List.map_append, List.map_singleton, List.dropLast_concat] at last
  cases front using List.reverseRecOn with
  | nil => cases last
  | append_singleton front piece _ =>
    rw [List.append_assoc, List.singleton_append] at whole
    rw [List.getLast?_concat, Option.map_some, Option.getD_some]
    exact steps_slice p front [final] piece name whole (by simpa using last)

theorem root_not_mem_segmentPieces (start : Nat) (segments : List (List Char)) (piece : Piece)
    (inside : piece ∈ segmentPieces start segments) : piece.component ≠ .root := by
  intro root
  obtain ⟨front, after, split⟩ := List.append_of_mem inside
  obtain ⟨-, segment, -, -, ⟨here, own⟩, -⟩ := segmentPieces_cut start segments front after piece split
  rw [root] at own
  exact segmentComponent_ne_root here segment own

theorem parent_root {p above : Path} (known : p.parent? = some above) (rooted : above.components = [.root]) :
    above = ⟨"/"⟩ := by
  have spelt := components_parent known
  obtain ⟨front, final, whole, -, rfl⟩ := parent?_eq_some_iff.1 known
  rw [rooted, components, whole, List.map_append, List.map_singleton, List.dropLast_concat] at spelt
  -- The one piece left is the root, which only the separator at the start of the text is read as.
  obtain ⟨piece, rfl, root⟩ := List.map_eq_singleton_iff.1 spelt.symm
  unfold pieces at whole
  simp only at whole
  split at whole
  next first =>
    obtain ⟨chars, text⟩ := List.head?_eq_some_iff.1 first
    obtain ⟨rfl, -⟩ := List.cons.inj whole
    simp [slice, text, separator]
  · have inside : piece ∈ segmentPieces 0 (Text.splitOn separator p.text.toList) := by
      rw [List.nil_append] at whole
      simp [whole]
    exact absurd root (root_not_mem_segmentPieces 0 _ piece inside)

theorem parent?_of_name {p : Path} {front : List Component} {last : Component} (other : last ≠ .root)
    (spelt : p.components = front ++ [last]) : ∃ above, p.parent? = some above ∧ above.components = front := by
  have spelt' := spelt
  unfold components at spelt'
  obtain ⟨pieces, _, whole, -, single⟩ := List.map_eq_append_iff.1 spelt'
  obtain ⟨piece, rfl, same⟩ := List.map_eq_singleton_iff.1 single
  have known := parent?_eq_some_iff.2 ⟨pieces, piece, whole, by rwa [same], rfl⟩
  exact ⟨_, known, by rw [components_parent known, spelt, List.dropLast_concat]⟩

def names (p : Path) : List String := p.components.filterMap Component.name?

theorem names_eq {p : Path} (front after : List Component) {names : List String}
    (spelt : p.components = front ++ (names.map .name ++ after))
    (before : front.filterMap Component.name? = []) (behind : after.filterMap Component.name? = []) :
    p.names = names := by
  rw [Path.names, spelt, List.filterMap_append, List.filterMap_append, before, behind, List.append_nil,
    List.nil_append, List.filterMap_map]
  exact List.filterMap_some

theorem Plain.names {p : Path} (plain : p.Plain) (home : Location) : p.names = p.place home :=
  names_eq [.root] [] (by rw [plain.components home]; simp) rfl rfl

theorem Climbs.components {p : Path} (climbs : p.Climbs) :
    p.components = (.root :: p.names.map .name) ++ [.up] := by
  obtain ⟨names, spelt⟩ := climbs
  have named : p.names = names := names_eq [.root] [.up] (by rw [spelt]; simp) rfl rfl
  rw [named, spelt]

theorem Climbs.place {p : Path} (climbs : p.Climbs) (home : Location) : p.place home = p.names.dropLast := by
  rw [place_eq, climbs.components, List.foldl_append]
  change Location.folder ((p.names.map Component.name).foldl Location.enter []) = _
  rw [enter_names]
  rfl

theorem place_prefix_names {p : Path} (cases : p.Plain ∨ p.Climbs) (home : Location) :
    p.place home <+: p.names := by
  rcases cases with plain | climbs
  · exact (plain.names home) ▸ List.prefix_rfl
  · rw [climbs.place home]
    exact List.dropLast_prefix _

theorem Plain.parent {p above : Path} (plain : p.Plain) (known : p.parent? = some above) (home : Location) :
    above.Plain ∧ above.place home = (p.place home).dropLast ∧ p.place home ≠ [] := by
  have spelt := components_parent known
  have names := plain.components home
  cases last : p.place home using List.reverseRecOn with
  | nil =>
    -- The root has nothing above it.
    exfalso
    rw [last] at names
    unfold Path.components at names
    obtain ⟨piece, whole, same⟩ := List.map_eq_singleton_iff.1 names
    simp [parent?, whole, same] at known
  | append_singleton front name _ =>
    rw [names, last, List.map_append, ← List.cons_append, List.map_singleton, List.dropLast_concat] at spelt
    exact ⟨⟨front, spelt⟩, by rw [place_of_components home above front spelt, List.dropLast_concat], by simp⟩

theorem parent_cases {p above : Path} (cases : p.Plain ∨ p.Climbs) (known : p.parent? = some above)
    (home : Location) : above.Plain ∧ above.place home <+: p.names := by
  rcases cases with plain | climbs
  · obtain ⟨plain', place, -⟩ := plain.parent known home
    refine ⟨plain', ?_⟩
    rw [place, plain.names home]
    exact List.dropLast_prefix _
  · have spelt := components_parent known
    rw [climbs.components, List.dropLast_concat] at spelt
    exact ⟨⟨_, spelt⟩, (place_of_components home above _ spelt) ▸ List.prefix_rfl⟩

theorem follow_component (here : Location) (steps : List Step) :
    steps.foldl Location.follow here = (steps.filterMap Step.component?).foldl Location.enter here := by
  induction steps generalizing here with
  | nil => rfl
  | cons step rest ih =>
    cases step with
    | folder | stay =>
      rw [List.foldl_cons, ih, List.filterMap_cons_none rfl]
      rfl
    | up | enter =>
      rw [List.foldl_cons, ih]
      rfl

theorem enter_prefix {names : List String} {front : List Component} (within : front <+: names.map .name) :
    front.foldl Location.enter [] <+: names := by
  obtain ⟨front, inside, rfl⟩ := List.prefix_map_iff.1 within
  rw [enter_names, List.nil_append]
  exact inside

theorem filter_names (names : List String) : (names.map Component.name).filter leadsOn = names.map .name :=
  List.filter_eq_self.2 fun component inside => by
    obtain ⟨name, -, rfl⟩ := List.mem_map.1 inside
    rfl

theorem follow_prefix {p : Path} (cases : p.Plain ∨ p.Climbs) {front : List Step} (within : front <+: p.steps) :
    front.foldl Location.follow [] <+: p.names := by
  have steps := within.filterMap Step.component?
  rw [stepped_components] at steps
  rw [follow_component]
  rcases cases with plain | climbs
  · rw [plain.components [], ← plain.names, List.filter_cons_of_neg (by simp [leadsOn]),
      filter_names] at steps
    exact enter_prefix steps
  · rw [climbs.components, List.cons_append, List.filter_cons_of_neg (by simp [leadsOn]), List.filter_append,
      filter_names] at steps
    rcases List.prefix_concat_iff.1 steps with whole | start
    · rw [whole, List.foldl_append, enter_names]
      exact List.dropLast_prefix _
    · exact enter_prefix start

theorem follow_withoutEnd (here : Location) (p : Path) :
    p.withoutEnd.steps.foldl Location.follow here = p.steps.foldl Location.follow here := by
  -- Separators at the end make blank segments only, and these are not followed.
  have filled : ∀ (text : List Char) (ending : List Char), (∀ c ∈ ending, c = separator) ->
      (Text.splitOn separator (text ++ ending)).filter (· ≠ []) =
        (Text.splitOn separator text).filter (· ≠ []) := by
    intro text ending all
    induction ending using List.reverseRecOn with
    | nil => rw [List.append_nil]
    | append_singleton ending c ih =>
      obtain rfl := all c (by simp)
      rw [← List.append_assoc, Text.splitOn_append, List.filter_append,
        ih fun c inside => all c (List.mem_append_left _ inside)]
      simp [Text.splitOn]
  have ended : ∀ c ∈ (p.text.toList.reverse.takeWhile (· == separator)).reverse, c = separator := by
    intro c inside
    have taken := List.mem_takeWhile_imp (List.mem_reverse.1 inside)
    exact eq_of_beq taken
  have whole : p.text.toList = (p.text.toList.reverse.dropWhile (· == separator)).reverse ++
      (p.text.toList.reverse.takeWhile (· == separator)).reverse := by
    rw [← List.reverse_append, List.takeWhile_append_dropWhile, List.reverse_reverse]
  rw [follow_steps, follow_steps]
  unfold withoutEnd
  split
  next none =>
    rw [none, List.reverse_nil] at whole
    split
    · rw [whole, filled [] _ ended]
      simp [Text.splitOn, separator]
    · rfl
  next kept _ =>
    rw [String.toList_ofList]
    conv_rhs => rw [whole, filled _ _ ended]

end Path

end Stowage

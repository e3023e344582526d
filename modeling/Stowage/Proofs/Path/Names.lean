import Mathlib.Data.List.TakeWhile
import Stowage.Proofs.Path.Places

set_option autoImplicit false

namespace Stowage

namespace Text

theorem splitOn_append_tail (separator : Char) (before : List Char) :
    ∃ pieces last, ∀ tail, separator ∉ tail ->
      splitOn separator (before ++ tail) = pieces ++ [last ++ tail] := by
  induction before with
  | nil => exact ⟨[], [], fun tail free => splitOn_of_not_mem separator tail free⟩
  | cons c rest ih =>
    obtain ⟨pieces, last, split⟩ := ih
    by_cases cut : c = separator
    · refine ⟨[] :: pieces, last, fun tail free => ?_⟩
      rw [cut, List.cons_append, splitOn_cons_self, split tail free]
      rfl
    · cases pieces with
      | nil =>
        refine ⟨[], c :: last, fun tail free => ?_⟩
        simp [splitOn, split tail free, cut]
      | cons piece more =>
        refine ⟨(c :: piece) :: more, last, fun tail free => ?_⟩
        simp [splitOn, split tail free, cut]

theorem splitOn_take (separator : Char) (text : List Char) (length : Nat) :
    ∃ pieces piece more short, splitOn separator text = pieces ++ piece :: more ∧
      splitOn separator (text.take length) = pieces ++ [piece.take short] := by
  induction text generalizing length with
  | nil => exact ⟨[], [], [], 0, rfl, by simp [splitOn]⟩
  | cons c rest ih =>
    cases length with
    | zero =>
      cases split : splitOn separator (c :: rest) with
      | nil => exact absurd split (splitOn_ne_nil separator _)
      | cons piece more => exact ⟨[], piece, more, 0, rfl, by simp [splitOn]⟩
    | succ length =>
      obtain ⟨pieces, piece, more, short, whole, start⟩ := ih length
      rw [List.take_succ_cons]
      -- A separator begins a piece; any other character belongs to the first piece of the rest, the cut one or not.
      by_cases cut : c = separator
      · refine ⟨[] :: pieces, piece, more, short, ?_, ?_⟩
        · rw [cut, splitOn_cons_self, whole]
          rfl
        · rw [cut, splitOn_cons_self, start]
          rfl
      · cases pieces with
        | nil =>
          refine ⟨[], c :: piece, more, short + 1, ?_, ?_⟩
          · simp only [List.nil_append] at whole
            simp [splitOn, whole, cut]
          · simp only [List.nil_append] at start
            simp [splitOn, start, cut]
        | cons first others =>
          refine ⟨(c :: first) :: others, piece, more, short, ?_, ?_⟩
          · simp [splitOn, whole, cut]
          · simp [splitOn, start, cut]

theorem length_le_of_mem_splitOn (separator : Char) (text piece : List Char)
    (member : piece ∈ splitOn separator text) : piece.length ≤ text.length := by
  induction text generalizing piece with
  | nil =>
    simp only [splitOn, List.mem_singleton] at member
    simp [member]
  | cons c rest ih =>
    unfold splitOn at member
    split at member
    next none => exact absurd none (splitOn_ne_nil separator rest)
    next first others pieces =>
      rw [pieces] at ih
      split at member
      · rcases List.mem_cons.1 member with rfl | inside
        · simp
        · have shorter := ih piece inside
          simp only [List.length_cons]
          omega
      · rcases List.mem_cons.1 member with rfl | inside
        · have shorter := ih first List.mem_cons_self
          simp only [List.length_cons]
          omega
        · have shorter := ih piece (List.mem_cons_of_mem _ inside)
          simp only [List.length_cons]
          omega

end Text

namespace Path

theorem segment_of_mem_pieces (start : Nat) (segments : List (List Char)) (name : String)
    (member : .name name ∈ (segmentPieces start segments).map Piece.component) :
    ∃ segment ∈ segments, name = String.ofList segment ∧ segment ≠ [] ∧ segment ≠ ['.'] ∧
      segment ≠ ['.', '.'] := by
  induction segments generalizing start with
  | nil => cases member
  | cons segment rest ih =>
    have onward : .name name ∈
        (segmentPieces (start + segment.length + 1) rest).map Piece.component ->
        ∃ other ∈ segment :: rest, name = String.ofList other ∧ other ≠ [] ∧ other ≠ ['.'] ∧
          other ≠ ['.', '.'] := by
      intro later
      obtain ⟨other, inside, spelt⟩ := ih _ later
      exact ⟨other, List.mem_cons_of_mem _ inside, spelt⟩
    rw [segmentPieces] at member
    split at member
    · exact onward member
    next component spelt =>
      rcases List.mem_cons.1 member with same | later
      · have named : segmentComponent start segment = some (.name name) := by
          rw [spelt]
          exact congrArg some same.symm
        obtain ⟨own, kept⟩ := segmentComponent_eq_name_iff.1 named
        exact ⟨segment, List.mem_cons_self, by rw [← own, String.ofList_toList], kept⟩
      · exact onward later

theorem segment_of_component (p : Path) (name : String) (member : .name name ∈ p.components) :
    ∃ segment ∈ Text.splitOn separator p.text.toList, name = String.ofList segment ∧ segment ≠ [] ∧
      segment ≠ ['.'] ∧ segment ≠ ['.', '.'] := by
  unfold components Path.pieces at member
  simp only [List.map_append, List.mem_append] at member
  rcases member with root | named
  · split at root <;> simp at root
  · exact segment_of_mem_pieces 0 _ name named

theorem isName_of_component (p : Path) (name : String) (member : .name name ∈ p.components) :
    IsName name := by
  obtain ⟨segment, inside, rfl, filled, dot, dots⟩ := segment_of_component p name member
  exact isName_of_segment segment filled dot dots (Text.not_mem_of_mem_splitOn _ _ _ inside)

theorem mem_of_fileName? (p : Path) (name : String) (named : p.fileName? = some name) :
    .name name ∈ p.components := by
  unfold fileName? at named
  split at named
  next last =>
    cases named
    exact List.mem_of_getLast? last
  · cases named

theorem fileName?_of_components (p : Path) (above : List Component) (name : String)
    (spelt : p.components = above ++ [.name name]) : p.fileName? = some name := by
  simp [fileName?, spelt]

theorem takeWhile_dot {ending : List Char} (dotless : '.' ∉ ending) (rest : List Char) :
    (ending ++ '.' :: rest).takeWhile (· ≠ '.') = ending := by
  rw [List.takeWhile_append_of_pos (by simpa using fun c inside => ne_of_mem_of_not_mem inside dotless)]
  simp

theorem cutName_append {stem ending : List Char} (filled : stem ≠ []) (dotless : '.' ∉ ending) :
    cutName (stem ++ '.' :: ending) = (stem, some ending) := by
  have after := takeWhile_dot (mt List.mem_reverse.1 dotless) stem.reverse
  have before : (ending.reverse ++ '.' :: stem.reverse).drop (ending.length + 1) = stem.reverse := by
    rw [← ending.length_reverse, List.drop_length_add_append, List.drop_succ_cons, List.drop_zero]
  unfold cutName
  simp only [List.reverse_append, List.reverse_cons, List.append_assoc, List.singleton_append, after,
    List.reverse_reverse, before]
  rw [if_neg filled]

theorem cutName_cases (name : List Char) : cutName name = (name, none) ∨
    ∃ stem ending, stem ≠ [] ∧ '.' ∉ ending ∧ name = stem ++ '.' :: ending ∧ cutName name = (stem, some ending) := by
  have whole : ∀ ending : List Char, name.length ≤ ending.length + 1 ->
      name.reverse.takeWhile (· ≠ '.') = ending -> cutName name = (name, none) := by
    intro ending short after
    unfold cutName
    simp only [after, List.length_reverse]
    rw [List.drop_eq_nil_of_le (by simpa using short)]
    rfl
  by_cases dotted : '.' ∈ name
  · obtain ⟨ending, stem, split, free⟩ := List.eq_append_cons_of_mem (List.mem_reverse.2 dotted)
    have own : name = stem.reverse ++ '.' :: ending.reverse := by
      rw [← List.reverse_reverse name, split]
      simp
    by_cases filled : stem = []
    · exact .inl (whole ending (by simp [own, filled]) (by rw [split, takeWhile_dot free]))
    · have filled' : stem.reverse ≠ [] := by simpa using filled
      have free' : '.' ∉ ending.reverse := by simpa using free
      exact .inr ⟨stem.reverse, ending.reverse, filled', free', own, by rw [own, cutName_append filled' free']⟩
  · refine .inl (whole name.reverse (by simp) (List.takeWhile_eq_self_iff.2 ?_))
    simpa using fun c inside => ne_of_mem_of_not_mem inside dotted

theorem extension?_eq_some_iff {p : Path} {extension : String} :
    p.extension? = some extension ↔ ∃ stem, stem ≠ [] ∧ '.' ∉ extension.toList ∧
      p.fileName? = some (String.ofList (stem ++ '.' :: extension.toList)) := by
  constructor
  · intro ends
    obtain ⟨name, named, cut⟩ := Option.bind_eq_some_iff.1 ends
    rcases cutName_cases name.toList with whole | ⟨stem, ending, filled, dotless, own, parts⟩
    · simp [whole] at cut
    · rw [parts] at cut
      cases cut
      rw [String.toList_ofList]
      refine ⟨stem, filled, dotless, ?_⟩
      rw [named, ← own, String.ofList_toList]
  · rintro ⟨stem, filled, dotless, named⟩
    rw [extension?, named, Option.bind_some, String.toList_ofList, cutName_append filled dotless, Option.map_some,
      String.ofList_toList]

theorem stem?_starts {p : Path} {stem : String} (stems : p.stem? = some stem) :
    stem.toList ≠ [] ∧ ∃ name, p.fileName? = some name ∧ stem.toList <+: name.toList := by
  obtain ⟨name, named, rfl⟩ := Option.map_eq_some_iff.1 stems
  rw [String.toList_ofList]
  rcases cutName_cases name.toList with whole | ⟨stem, ending, filled, -, own, parts⟩
  · rw [whole]
    exact ⟨(isName_of_component p name (mem_of_fileName? p name named)).segment.1, name, named, List.prefix_rfl⟩
  · rw [parts]
    exact ⟨filled, name, named, own ▸ List.prefix_append _ _⟩

theorem separator_not_mem_extension (p : Path) (extension : String)
    (ends : p.extension? = some extension) : separator ∉ extension.toList := by
  obtain ⟨stem, -, -, named⟩ := extension?_eq_some_iff.1 ends
  have whole := (isName_of_component p _ (mem_of_fileName? p _ named)).2.2.2
  rw [String.toList_ofList] at whole
  exact fun inside => whole (List.mem_append_right _ (List.mem_cons_of_mem _ inside))

theorem separator_not_mem_stem (p : Path) : separator ∉ (p.stem?.getD "").toList := by
  cases stems : p.stem? with
  | none => simp
  | some stem =>
    obtain ⟨-, name, named, start⟩ := stem?_starts stems
    exact fun inside => (isName_of_component p name (mem_of_fileName? p name named)).2.2.2 (start.subset inside)

end Path

def Step.component? : Step -> Option Component
  | .folder => none
  | .stay => none
  | .up => some .up
  | .enter name => some (.name name)

namespace Path

def leadsOn : Component -> Bool
  | .root => false
  | .here => false
  | _ => true

theorem stepped_segments (start : Nat) (segments : List (List Char)) :
    ((segments.filter (· ≠ [])).map segmentStep).filterMap Step.component? =
      ((segmentPieces start segments).map Piece.component).filter leadsOn := by
  induction segments generalizing start with
  | nil => rfl
  | cons segment rest ih =>
    simp only [ne_eq, decide_not] at ih ⊢
    rw [segmentPieces]
    unfold segmentComponent
    by_cases empty : segment = []
    · simpa [empty] using ih (start + 1)
    by_cases dot : segment = ['.']
    · have onward := ih (start + segment.length + 1)
      by_cases first : start = 0 <;>
        simpa [dot, first, segmentStep, Step.component?, leadsOn, List.filterMap_cons, List.filter_cons,
          -List.filterMap_map] using onward
    by_cases dots : segment = ['.', '.']
    · have onward := ih (start + segment.length + 1)
      simpa [dots, segmentStep, Step.component?, leadsOn, List.filterMap_cons, List.filter_cons,
          -List.filterMap_map] using onward
    have onward := ih (start + segment.length + 1)
    simpa [empty, dot, dots, segmentStep, Step.component?, leadsOn, List.filterMap_cons, List.filter_cons,
          -List.filterMap_map] using onward

theorem stepped_components (p : Path) :
    p.steps.filterMap Step.component? = p.components.filter leadsOn := by
  have steps : p.steps.filterMap Step.component? =
      (((Text.splitOn separator p.text.toList).filter (· ≠ [])).map segmentStep).filterMap
        Step.component? := by
    unfold Path.steps
    simp only
    split
    · rw [List.filterMap_append, List.filterMap_cons_none rfl, List.filterMap_nil, List.append_nil]
      rfl
    · rfl
  rw [steps, stepped_segments 0]
  unfold components Path.pieces
  by_cases rooted : p.text.toList.head? = some separator <;> simp [rooted, leadsOn]

theorem up_mem_steps_iff (p : Path) : .up ∈ p.steps ↔ .up ∈ p.components := by
  have same : .up ∈ p.steps.filterMap Step.component? ↔ .up ∈ p.components.filter leadsOn := by
    rw [stepped_components]
  rw [List.mem_filter] at same
  refine Iff.trans ?_ (same.trans (and_iff_left rfl))
  constructor
  · exact fun member => List.mem_filterMap.2 ⟨_, member, rfl⟩
  · intro member
    obtain ⟨step, inside, spelt⟩ := List.mem_filterMap.1 member
    cases step <;> cases spelt
    exact inside

theorem last_step_of_up (p : Path) (up : p.components.getLast? = some .up) :
    p.steps ≠ [] ∧ ∀ name, p.steps.getLast? ≠ some (.enter name) := by
  obtain ⟨above, split⟩ := List.getLast?_eq_some_iff.1 up
  have stepped := stepped_components p
  rw [split, List.filter_append, List.filter_cons_of_pos rfl, List.filter_nil] at stepped
  constructor
  · intro none
    simp [none] at stepped
  · intro name last
    obtain ⟨earlier, split'⟩ := List.getLast?_eq_some_iff.1 last
    rw [split', List.filterMap_append] at stepped
    have same := congrArg List.getLast? stepped
    simp [Step.component?] at same

theorem steps_tail (before : List Char) (mark : Char) (other : mark ≠ '.') (inner : mark ≠ separator) :
    ∃ front last rooted, ∀ tail, separator ∉ tail ->
      (Path.mk (String.ofList (before ++ mark :: tail))).steps = front ++ [.enter (String.ofList (last ++ mark :: tail))] ∧
        (Path.mk (String.ofList (before ++ mark :: tail))).isAbsolute = rooted := by
  obtain ⟨pieces, last, split⟩ := Text.splitOn_append_tail separator before
  refine ⟨(pieces.filter (· ≠ [])).map segmentStep, last, (before ++ [mark]).head? = some separator,
    fun tail free => ⟨?_, ?_⟩⟩
  · have marked : separator ∉ mark :: tail := by
      simp only [List.mem_cons, not_or]
      exact ⟨Ne.symm inner, free⟩
    -- The mark keeps the last segment from being one of dots, whatever comes behind it.
    have named : segmentStep (last ++ mark :: tail) =
        .enter (String.ofList (last ++ mark :: tail)) := by
      have apart : ∀ dots : List Char, mark ∉ dots -> last ++ mark :: tail ≠ dots := by
        rintro dots missing rfl
        simp at missing
      rw [segmentStep, if_neg (apart _ (by simp [other])), if_neg (apart _ (by simp [other]))]
    have ended : (Path.mk (String.ofList (before ++ mark :: tail))).endsInSeparator = false := by
      rw [endsInSeparator, String.toList_ofList, List.getLast?_append, Option.or_of_isSome (by simp),
        decide_eq_false_iff_not]
      exact fun cut => marked (List.mem_of_getLast? cut)
    have steps : (Path.mk (String.ofList (before ++ mark :: tail))).steps =
        ((Text.splitOn separator (before ++ mark :: tail)).filter (· ≠ [])).map segmentStep := by
      unfold Path.steps
      simp only [ended, Bool.false_eq_true, if_false, String.toList_ofList]
      rfl
    rw [steps, split _ marked]
    simp [named]
  · cases before <;> simp [isAbsolute]

end Path

end Stowage

import Stowage.Proofs.Path.Names

set_option autoImplicit false

namespace Stowage.Path

/-- A plain path followed by a `..`. -/
def Climbs (p : Path) : Prop :=
  ∃ names : List String, p.components = (.root :: names.map .name) ++ [.up]

theorem plain_of_level {p : Path} (cases : p.Plain ∨ p.Climbs) (level : p.components.getLast? ≠ some .up) :
    p.Plain := by
  rcases cases with plain | ⟨names, climbs⟩
  · exact plain
  · rw [climbs] at level
    exact absurd List.getLast?_concat level

def Starts (p start : Path) : Prop :=
  ∃ length, 0 < length ∧ start.text.toList = p.text.toList.take length

theorem Starts.trans {p mid start : Path} (first : p.Starts mid) (second : mid.Starts start) :
    p.Starts start := by
  obtain ⟨length, filled, text⟩ := first
  obtain ⟨length', filled', text'⟩ := second
  refine ⟨min length' length, by omega, ?_⟩
  rw [text', text, List.take_take]

theorem slice_start (p : Path) (stop : Nat) : (p.slice 0 stop).text.toList = p.text.toList.take stop := by
  simp [slice]

theorem Starts.segments {p start : Path} (plain : p.Plain) (starts : p.Starts start) :
    ∃ (chars : List Char) (names : List String) (last : List Char),
      start.text.toList = separator :: chars ∧ separator ∉ last ∧
      (.root :: names.map .name) <+: p.components ∧
      ∀ tail, separator ∉ tail -> (Path.mk (String.ofList (separator :: chars ++ tail))).components =
        (.root :: names.map .name) ++ spelled [last ++ tail] := by
  obtain ⟨rest, text⟩ := (isAbsolute_iff p).1 plain.isAbsolute
  obtain ⟨names, spelt⟩ := plain
  have whole : p = ⟨String.ofList (separator :: rest)⟩ := by
    cases p
    exact congrArg Path.mk text
  rw [whole, components_absolute]
  rw [whole, components_absolute] at spelt
  obtain ⟨length, filled, chars⟩ := starts
  obtain ⟨shorter, rfl⟩ : ∃ shorter, length = shorter + 1 := ⟨length - 1, by omega⟩
  rw [text, String.toList_ofList, List.take_succ_cons] at chars
  -- All segments of the start are segments of the path, but for the last, which may be cut short.
  obtain ⟨pieces, piece, more, short, split, cut⟩ := Text.splitOn_take separator rest shorter
  rw [split, spelled_append] at spelt
  obtain ⟨before, after, equal, front, -⟩ := List.append_eq_map_iff.1 (List.cons.inj spelt).2
  refine ⟨_, before, piece.take short, chars, ?_, ?_, fun tail free => ?_⟩
  · exact Text.not_mem_of_mem_splitOn _ (rest.take shorter) _ (by simp [cut])
  · rw [split, spelled_append, spelt, equal, List.map_append]
    exact ⟨_, rfl⟩
  · obtain ⟨pieces', last, tailed⟩ := Text.splitOn_append_tail separator (rest.take shorter)
    have same := tailed [] (by simp)
    rw [List.append_nil, cut, List.append_nil] at same
    obtain ⟨rfl, single⟩ := List.append_inj' same rfl
    cases single
    rw [List.cons_append, components_absolute, tailed tail free, spelled_append, front]
    rfl

theorem Starts.components {p start : Path} (plain : p.Plain) (starts : p.Starts start) :
    ∃ (names : List String) (last : List Char), (.root :: names.map .name) <+: p.components ∧
      start.components = (.root :: names.map .name) ++ spelled [last] := by
  obtain ⟨chars, names, last, text, -, above, spelt⟩ := starts.segments plain
  have same : start = ⟨String.ofList (separator :: chars ++ [])⟩ := by
    rw [List.append_nil, ← text, String.ofList_toList]
  refine ⟨names, last, above, ?_⟩
  rw [same, spelt [] (by simp), List.append_nil]

theorem Starts.cases {p start : Path} (plain : p.Plain) (starts : p.Starts start) :
    start.Plain ∨ start.Climbs := by
  obtain ⟨names, last, -, components⟩ := starts.components plain
  -- What the last segment spells decides: nothing, a dot, two dots or a name.
  by_cases empty : last = []
  · refine .inl ⟨names, ?_⟩
    simp [components, empty, spelled, segmentComponent]
  by_cases dot : last = ['.']
  · refine .inl ⟨names, ?_⟩
    simp [components, dot, spelled, segmentComponent]
  by_cases dots : last = ['.', '.']
  · refine .inr ⟨names, ?_⟩
    simp [components, dots, spelled, segmentComponent]
  · refine .inl ⟨names ++ [String.ofList last], ?_⟩
    simp [components, empty, dot, dots, spelled, segmentComponent]

theorem Starts.extended_components {p start : Path} (plain : p.Plain) (starts : p.Starts start)
    (extension : String) (whole : separator ∉ extension.toList) (long : 1 < extension.length) :
    ∃ (names : List String) (last : List Char), (.root :: names.map .name) <+: p.components ∧
      (Path.mk (start.text ++ "." ++ extension)).components =
        (.root :: names.map .name) ++ [.name (String.ofList (last ++ '.' :: extension.toList))] := by
  obtain ⟨chars, names, last, text, -, above, spelt⟩ := starts.segments plain
  have free : separator ∉ '.' :: extension.toList := by
    simp only [List.mem_cons, not_or]
    exact ⟨by decide, whole⟩
  have components := spelt ('.' :: extension.toList) free
  have same : start.text ++ "." ++ extension =
      String.ofList (separator :: chars ++ '.' :: extension.toList) := by
    apply String.toList_inj.1
    simp [text]
  have length : 1 < extension.toList.length := by rwa [String.length_toList]
  -- With an extension of two characters or more the segment is too long to be a dot or two.
  have named : segmentComponent 1 (last ++ '.' :: extension.toList) =
      some (.name (String.ofList (last ++ '.' :: extension.toList))) := by
    have apart : ∀ dots : List Char, dots.length ≤ 2 -> last ++ '.' :: extension.toList ≠ dots := by
      rintro dots short rfl
      simp only [List.length_append, List.length_cons] at short
      omega
    rw [segmentComponent, if_neg (apart _ (by simp)), if_neg (apart _ (by simp)),
      if_neg (apart _ (by simp))]
  refine ⟨names, last, above, ?_⟩
  rw [same, components]
  simp [spelled, named]

theorem Starts.extended {p start : Path} (plain : p.Plain) (starts : p.Starts start)
    (extension : String) (whole : separator ∉ extension.toList) (long : 1 < extension.length) :
    (Path.mk (start.text ++ "." ++ extension)).Plain := by
  obtain ⟨names, last, -, spelt⟩ := starts.extended_components plain extension whole long
  exact ⟨names ++ [String.ofList (last ++ '.' :: extension.toList)], by simp [spelt]⟩

theorem stem?_length (p : Path) (stem : String) (stems : p.stem? = some stem) : 0 < stem.length := by
  rw [← String.length_toList]
  exact List.length_pos_iff.2 (stem?_starts stems).1

theorem stemThen_cases (p : Path) (extension : String) (filled : extension ≠ "") :
    (p.fileName? = none ∧ p.stemThen extension = p) ∨
      ∃ start, p.Starts start ∧ p.stemThen extension = ⟨start.text ++ "." ++ extension⟩ := by
  unfold stemThen
  split
  next last stem _ stems =>
    refine .inr ⟨p.slice 0 (last.start + stem.length), ⟨last.start + stem.length, ?_, ?_⟩, ?_⟩
    · have long := stem?_length p stem stems
      omega
    · exact slice_start p _
    · simp [filled]
  next missing =>
    refine .inl ⟨?_, rfl⟩
    cases known : p.fileName? with
    | none => rfl
    | some name =>
      cases ends : p.pieces.getLast? with
      | none => simp [fileName?, components, List.getLast?_map, ends] at known
      | some last =>
        have stems : p.stem? = some (String.ofList (cutName name.toList).1) := by simp [stem?, known]
        exact (missing last _ ends stems).elim

theorem extension?_length (p : Path) (extension : String) (ends : p.extension? = some extension) :
    extension.length < p.text.length := by
  obtain ⟨stem, -, -, named⟩ := extension?_eq_some_iff.1 ends
  obtain ⟨segment, inside, own, -⟩ := segment_of_component p _ (mem_of_fileName? p _ named)
  have short := Text.length_le_of_mem_splitOn separator _ segment inside
  rw [← String.ofList_injective own, List.length_append, List.length_cons] at short
  have total : p.text.toList.length = p.text.length := String.length_toList
  have length : extension.toList.length = extension.length := String.length_toList
  omega

theorem Starts.refl {p : Path} (plain : p.Plain) : p.Starts p := by
  obtain ⟨rest, text⟩ := (isAbsolute_iff p).1 plain.isAbsolute
  exact ⟨p.text.toList.length, by simp [text], List.take_length.symm⟩

theorem starts_slice (p : Path) (old : String) (ends : p.extension? = some old) :
    p.Starts (p.slice 0 (p.text.length - old.length)) := by
  have short := p.extension?_length old ends
  exact ⟨p.text.length - old.length, by omega, slice_start p _⟩

theorem withExtension_forms (p : Path) (plain : p.Plain) (extension : String) (filled : extension ≠ "") :
    (∃ start, p.Starts start ∧ p.withExtension extension = ⟨start.text ++ "." ++ extension⟩) ∨
      p.Starts (p.withExtension extension) ∧ (p.withExtension extension).fileName? = none := by
  unfold withExtension
  split
  · rcases p.stemThen_cases extension filled with ⟨nameless, same⟩ | extended
    · rw [same]
      exact .inr ⟨.refl plain, nameless⟩
    · exact .inl extended
  next old ends =>
    -- Cutting the old extension leaves a start of the path, and the stem of that is one again.
    have cut := p.starts_slice old ends
    simp only
    split
    next nameless => exact .inr ⟨cut, nameless⟩
    next named =>
      rcases (p.slice 0 (p.text.length - old.length)).stemThen_cases extension filled with
        ⟨nameless, -⟩ | ⟨start, starts, same⟩
      · rw [named] at nameless
        cases nameless
      · exact .inl ⟨start, cut.trans starts, same⟩

theorem Starts.stemThen {p q : Path} (starts : p.Starts q) : p.Starts (q.stemThen "") := by
  unfold Path.stemThen
  split
  next last stem _ stems =>
    have long := stem?_length q stem stems
    exact starts.trans ⟨last.start + stem.length, by omega, slice_start q _⟩
  · exact starts

theorem Starts.withoutExtension {p : Path} (plain : p.Plain) : p.Starts (p.withExtension "") := by
  unfold withExtension
  split
  · exact (Starts.refl plain).stemThen
  next old ends =>
    have cut := p.starts_slice old ends
    simp only
    split
    · exact cut
    · exact cut.stemThen

section

variable (p : Path) (plain : p.Plain) (extension : String) (whole : separator ∉ extension.toList)
  (long : 1 < extension.length)

include plain whole long

theorem withExtension_cases :
    (p.withExtension extension).Plain ∨ (p.withExtension extension).Climbs := by
  rcases p.withExtension_forms plain extension (by rintro rfl; simp at long) with
    ⟨start, starts, same⟩ | ⟨starts, -⟩
  · rw [same]
    exact .inl (starts.extended plain extension whole long)
  · exact starts.cases plain

theorem withExtension_above : (p.withExtension extension).components.dropLast <+: p.components := by
  rcases p.withExtension_forms plain extension (by rintro rfl; simp at long) with
    ⟨start, starts, same⟩ | ⟨starts, -⟩
  · obtain ⟨names, last, above, spelt⟩ := starts.extended_components plain extension whole long
    rw [same, spelt, List.dropLast_concat]
    exact above
  · obtain ⟨names, last, above, spelt⟩ := starts.components plain
    rw [spelt]
    cases named : segmentComponent 1 last with
    | none =>
      simp only [spelled, List.filterMap_cons, named, List.filterMap_nil, List.append_nil]
      exact (List.dropLast_prefix _).trans above
    | some component =>
      simp only [spelled, List.filterMap_cons, named, List.filterMap_nil, List.dropLast_concat]
      exact above

theorem extension_withExtension (dotless : '.' ∉ extension.toList) :
    (p.withExtension extension).extension = extension ∨ (p.withExtension extension).extension = "" := by
  rcases p.withExtension_forms plain extension (by rintro rfl; simp at long) with
    ⟨start, starts, same⟩ | ⟨-, nameless⟩
  · obtain ⟨names, last, -, spelt⟩ := starts.extended_components plain extension whole long
    have named := fileName?_of_components _ _ _ spelt
    rw [same]
    cases ends : Path.extension? ⟨start.text ++ "." ++ extension⟩ with
    | none => exact .inr (by rw [Path.extension, ends]; rfl)
    | some other =>
      obtain ⟨stem, -, dotless', named'⟩ := extension?_eq_some_iff.1 ends
      rw [named, Option.some_inj] at named'
      -- Both are what stands behind the last dot of one name.
      have behind := congrArg (fun chars : List Char => chars.reverse.takeWhile (· ≠ '.'))
        (String.ofList_injective named')
      simp only [List.reverse_append, List.reverse_cons, List.append_assoc, List.singleton_append,
        takeWhile_dot (mt List.mem_reverse.1 dotless), takeWhile_dot (mt List.mem_reverse.1 dotless')] at behind
      rw [Path.extension, ends, Option.getD_some]
      exact .inl (String.toList_injective (List.reverse_inj.1 behind)).symm
  · exact .inr (by simp [Path.extension, extension?, nameless])

end

def Inner (p : Path) : Prop :=
  p.isAbsolute = false ∧ ∃ names : List String, p.components = names.map .name

instance : DecidablePred Inner := fun p =>
  decidable_of_iff (p.isAbsolute = false ∧ ∀ component ∈ p.components, isNamed component = true)
    (and_congr_right' (names_iff p.components).symm)

theorem Inner.forward {p : Path} (inner : p.Inner) : p.components.head? ≠ some .here := by
  obtain ⟨-, names, spelt⟩ := inner
  cases names <;> simp [spelt]

theorem Plain.join {base rest : Path} (plain : base.Plain) (inner : rest.Inner) :
    (base.join rest).components = base.components ++ rest.components :=
  components_join base rest plain.isAbsolute inner.1 inner.forward

theorem Plain.join_plain {base rest : Path} (plain : base.Plain) (inner : rest.Inner) :
    (base.join rest).Plain := by
  have joined := plain.join inner
  obtain ⟨names, spelt⟩ := plain
  obtain ⟨-, others, spelt'⟩ := inner
  refine ⟨names ++ others, ?_⟩
  rw [joined, spelt, spelt', List.map_append, List.cons_append]

theorem unrooted_pieces (p : Path) (relative : p.isAbsolute = false) :
    p.components = (segmentPieces 0 (Text.splitOn separator p.text.toList)).map Piece.component := by
  have unrooted : ¬ p.text.toList.head? = some separator := by
    simpa [isAbsolute] using relative
  simp [components, Path.pieces, unrooted]

theorem Inner.join_components {base : Path} {name : String} (inner : base.Inner) (named : IsName name) :
    (base.join ⟨name⟩).isAbsolute = false ∧ (base.join ⟨name⟩).components = base.components ++ [.name name] := by
  have joined := components_join_name base named
  refine ⟨?_, joined⟩
  obtain ⟨-, names, spelt⟩ := inner
  rw [Bool.eq_false_iff]
  intro absolute
  obtain ⟨rest, rooted⟩ := components_of_isAbsolute absolute
  rw [spelt, rooted] at joined
  cases names <;> simp at joined

theorem Inner.join_name {base : Path} {name : String} (inner : base.Inner) (named : IsName name) :
    (base.join ⟨name⟩).Inner := by
  obtain ⟨relative, spelt⟩ := inner.join_components named
  obtain ⟨-, names, spelt'⟩ := inner
  refine ⟨relative, names ++ [name], ?_⟩
  rw [spelt, spelt', List.map_append]
  rfl

end Stowage.Path

import Stowage.Disk.Basic

set_option autoImplicit false

namespace Stowage

namespace Text

theorem splitOn_append (separator : Char) (before after : List Char) :
    splitOn separator (before ++ separator :: after) =
      splitOn separator before ++ splitOn separator after := by
  induction before with
  | nil =>
    cases pieces : splitOn separator after with
    | nil => exact absurd pieces (splitOn_ne_nil separator after)
    | cons piece rest => simp [splitOn, pieces]
  | cons c before ih =>
    cases pieces : splitOn separator before with
    | nil => exact absurd pieces (splitOn_ne_nil separator before)
    | cons piece rest =>
      rw [List.cons_append, splitOn, ih, pieces, splitOn, pieces]
      simp only [List.cons_append]
      split <;> rfl

theorem splitOn_cons_self (separator : Char) (text : List Char) :
    splitOn separator (separator :: text) = [] :: splitOn separator text :=
  splitOn_append separator [] text

theorem splitOn_of_not_mem (separator : Char) (text : List Char) (free : separator ∉ text) :
    splitOn separator text = [text] := by
  induction text with
  | nil => rfl
  | cons c rest ih =>
    have differs : c ≠ separator := fun same => free (by simp [same])
    have others : separator ∉ rest := fun member => free (List.mem_cons_of_mem c member)
    simp [splitOn, ih others, differs]

theorem not_mem_of_mem_splitOn (separator : Char) (text piece : List Char)
    (member : piece ∈ splitOn separator text) : separator ∉ piece := by
  induction text generalizing piece with
  | nil =>
    simp only [splitOn, List.mem_singleton] at member
    simp [member]
  | cons c rest ih =>
    unfold splitOn at member
    split at member
    next none => exact absurd none (splitOn_ne_nil separator rest)
    next first others pieces =>
      rw [pieces] at ih
      split at member
      · rcases List.mem_cons.1 member with rfl | inside
        · simp
        · exact ih piece inside
      next differs =>
        rcases List.mem_cons.1 member with rfl | inside
        · have kept := ih first (List.mem_cons_self)
          simp [kept, Ne.symm differs]
        · exact ih piece (List.mem_cons_of_mem _ inside)

end Text

namespace Location

def follow (here : Location) : Step -> Location
  | .folder => here
  | .stay => here
  | .up => here.folder
  | .enter name => here ++ [name]

def enter (here : Location) : Component -> Location
  | .root => []
  | .here => here
  | .up => here.folder
  | .name text => here ++ [text]

end Location

deriving instance DecidableEq for Path

namespace Path

def place (home : Location) (p : Path) : Location :=
  p.steps.foldl Location.follow (if p.isAbsolute then [] else home)

def spelled (segments : List (List Char)) : List Component :=
  segments.filterMap (segmentComponent 1)

theorem spelled_append (first second : List (List Char)) :
    spelled (first ++ second) = spelled first ++ spelled second := by
  simp [spelled]

theorem segmentComponent_later (start : Nat) (segment : List Char) (later : start ≠ 0) :
    segmentComponent start segment = segmentComponent 1 segment := by
  simp [segmentComponent, later]

theorem segmentPieces_later (start : Nat) (segments : List (List Char)) (later : start ≠ 0) :
    (segmentPieces start segments).map Piece.component = spelled segments := by
  induction segments generalizing start with
  | nil => rfl
  | cons segment rest ih =>
    have onward := ih (start + segment.length + 1) (Nat.succ_ne_zero _)
    rw [spelled] at onward ⊢
    rw [segmentPieces, segmentComponent_later start segment later]
    cases spelt : segmentComponent 1 segment <;> simp [spelt, onward]

theorem components_absolute (rest : List Char) :
    (Path.mk (String.ofList (separator :: rest))).components =
      .root :: spelled (Text.splitOn separator rest) := by
  have pieces := segmentPieces_later 1 (Text.splitOn separator rest) (by simp)
  simp [components, Path.pieces, Text.splitOn_cons_self, segmentPieces, segmentComponent, pieces]

theorem isAbsolute_iff (p : Path) :
    p.isAbsolute = true ↔ ∃ rest, p.text = String.ofList (separator :: rest) := by
  unfold isAbsolute
  rw [decide_eq_true_eq]
  constructor
  · intro first
    cases chars : p.text.toList with
    | nil => simp [chars] at first
    | cons c rest =>
      have same : c = separator := by simpa [chars] using first
      refine ⟨rest, ?_⟩
      rw [← same, ← chars, String.ofList_toList]
  · rintro ⟨rest, whole⟩
    simp [whole]

theorem segmentComponent_ne_root (start : Nat) (segment : List Char) :
    segmentComponent start segment ≠ some .root := by
  unfold segmentComponent
  split
  · simp
  · split
    · split <;> simp
    · split <;> simp

theorem segmentComponent_eq_name_iff {start : Nat} {segment : List Char} {name : String} :
    segmentComponent start segment = some (.name name) ↔
      name.toList = segment ∧ segment ≠ [] ∧ segment ≠ ['.'] ∧ segment ≠ ['.', '.'] := by
  unfold segmentComponent
  by_cases blank : segment = []
  · simp [blank]
  by_cases dot : segment = ['.']
  · by_cases first : start = 0 <;> simp [dot, first]
  by_cases dots : segment = ['.', '.']
  · simp [dots]
  simp [blank, dot, dots, ← String.toList_inj, eq_comm]

theorem components_relative (p : Path) (relative : p.isAbsolute = false)
    (forward : p.components.head? ≠ some .here) :
    p.components = spelled (Text.splitOn separator p.text.toList) := by
  have unrooted : ¬ p.text.toList.head? = some separator := by
    simpa [isAbsolute] using relative
  unfold components Path.pieces at forward ⊢
  simp only [unrooted, if_false, List.nil_append] at forward ⊢
  cases segments : Text.splitOn separator p.text.toList with
  | nil => rfl
  | cons segment rest =>
    rw [segments] at forward
    have onward := segmentPieces_later (segment.length + 1) rest (Nat.succ_ne_zero _)
    have first : segmentComponent 0 segment = segmentComponent 1 segment := by
      rw [segmentPieces] at forward
      unfold segmentComponent at forward ⊢
      split
      · rfl
      · split
        next dot => simp [dot] at forward
        · rfl
    rw [spelled] at onward ⊢
    rw [segmentPieces, first]
    cases spelt : segmentComponent 1 segment <;> simp [spelt, onward]

def segmentStep (segment : List Char) : Step :=
  if segment = ['.'] then .stay
  else if segment = ['.', '.'] then .up
  else .enter (String.ofList segment)

theorem follow_segments (start : Nat) (here : Location) (segments : List (List Char)) :
    ((segments.filter (· ≠ [])).map segmentStep).foldl Location.follow here =
      ((segmentPieces start segments).map Piece.component).foldl Location.enter here := by
  induction segments generalizing start here with
  | nil => rfl
  | cons segment rest ih =>
    simp only [ne_eq, decide_not] at ih ⊢
    rw [segmentPieces]
    unfold segmentComponent
    by_cases empty : segment = []
    · simpa [empty] using ih (start + 1) here
    by_cases dot : segment = ['.']
    · by_cases first : start = 0
      · simpa [dot, first, segmentStep, Location.follow, Location.enter] using ih 2 here
      · simpa [dot, first, segmentStep, Location.follow, Location.enter] using ih (start + 2) here
    by_cases dots : segment = ['.', '.']
    · simpa [dots, segmentStep, Location.follow, Location.enter] using ih (start + 2 + 1) here.folder
    simpa [empty, dot, dots, segmentStep, Location.follow, Location.enter] using
      ih (start + segment.length + 1) (here ++ [String.ofList segment])

theorem follow_steps (here : Location) (p : Path) :
    p.steps.foldl Location.follow here =
      (((Text.splitOn separator p.text.toList).filter (· ≠ [])).map segmentStep).foldl
        Location.follow here := by
  unfold steps
  simp only
  split
  · rw [List.foldl_append]
    rfl
  · rfl

theorem place_eq (home : Location) (p : Path) :
    p.place home = p.components.foldl Location.enter home := by
  rw [place, follow_steps, follow_segments 0]
  unfold components Path.pieces isAbsolute
  by_cases rooted : p.text.toList.head? = some separator <;> simp [rooted, Location.enter]

theorem place_of_same (home : Location) (p q : Path) (same : p.same q = true) :
    p.place home = q.place home := by
  rw [place_eq, place_eq, eq_of_beq same]

/-- An absolute path without detours. -/
def Plain (p : Path) : Prop := ∃ names : List String, p.components = .root :: names.map .name

def isNamed : Component -> Bool
  | .name _ => true
  | _ => false

theorem names_iff (components : List Component) :
    (∃ names : List String, components = names.map .name) ↔
      ∀ component ∈ components, isNamed component = true := by
  constructor
  · rintro ⟨names, rfl⟩ component inside
    obtain ⟨name, -, rfl⟩ := List.mem_map.1 inside
    rfl
  · intro named
    induction components with
    | nil => exact ⟨[], rfl⟩
    | cons first rest ih =>
      obtain ⟨names, spelt⟩ := ih fun other inside => named other (List.mem_cons_of_mem _ inside)
      cases first with
      | name name => exact ⟨name :: names, by rw [spelt, List.map_cons]⟩
      | _ => exact absurd (named _ List.mem_cons_self) (by simp [isNamed])

theorem plain_iff (p : Path) : p.Plain ↔ p.components.head? = some .root ∧
    ∀ component ∈ p.components.tail, isNamed component = true := by
  rw [← names_iff]
  constructor
  · rintro ⟨names, spelt⟩
    exact ⟨by rw [spelt]; rfl, names, by rw [spelt]; rfl⟩
  · rintro ⟨rooted, names, spelt⟩
    obtain ⟨rest, whole⟩ := List.head?_eq_some_iff.1 rooted
    exact ⟨names, by rw [← spelt, whole, List.tail_cons]⟩

instance : DecidablePred Plain := fun p => decidable_of_iff _ (plain_iff p).symm

theorem enter_names (here : Location) (names : List String) :
    (names.map Component.name).foldl Location.enter here = here ++ names := by
  induction names generalizing here with
  | nil => simp
  | cons name rest ih => simp [Location.enter, ih]

theorem place_of_components (home : Location) (p : Path) (names : List String)
    (plain : p.components = .root :: names.map .name) : p.place home = names := by
  rw [place_eq, plain, List.foldl_cons, enter_names]
  rfl

theorem Plain.components {p : Path} (plain : p.Plain) (home : Location) :
    p.components = .root :: (p.place home).map .name := by
  obtain ⟨names, spelt⟩ := plain
  rw [place_of_components home p names spelt, spelt]

theorem Plain.same_of_place {p q : Path} (plain : p.Plain) (plain' : q.Plain) (home : Location)
    (equal : p.place home = q.place home) : p.same q = true := by
  unfold Path.same
  rw [plain.components home, plain'.components home, equal, beq_self_eq_true]

theorem isAbsolute_of_components {p : Path} {rest : List Component}
    (rooted : p.components = .root :: rest) : p.isAbsolute = true := by
  cases absolute : p.isAbsolute with
  | true => rfl
  | false =>
    have forward : p.components.head? ≠ some .here := by simp [rooted]
    rw [components_relative p absolute forward] at rooted
    have member : Component.root ∈ spelled (Text.splitOn separator p.text.toList) := by
      simp [rooted]
    obtain ⟨segment, -, spelt⟩ := List.mem_filterMap.1 member
    exact absurd spelt (segmentComponent_ne_root 1 segment)

theorem components_of_isAbsolute {p : Path} (absolute : p.isAbsolute = true) :
    ∃ rest, p.components = .root :: rest := by
  obtain ⟨chars, whole⟩ := (isAbsolute_iff p).1 absolute
  cases p
  cases whole
  exact ⟨_, components_absolute chars⟩

theorem isAbsolute_congr {p q : Path} (same : p.components = q.components) : p.isAbsolute = q.isAbsolute := by
  rw [Bool.eq_iff_iff]
  constructor
  · intro absolute
    obtain ⟨rest, spelt⟩ := components_of_isAbsolute absolute
    exact isAbsolute_of_components (same.symm.trans spelt)
  · intro absolute
    obtain ⟨rest, spelt⟩ := components_of_isAbsolute absolute
    exact isAbsolute_of_components (same.trans spelt)

theorem Plain.isAbsolute {p : Path} (plain : p.Plain) : p.isAbsolute = true := by
  obtain ⟨names, spelt⟩ := plain
  exact isAbsolute_of_components spelt

theorem components_eq (p : Path) : p.components =
    (if p.text.toList.head? = some separator then [.root] else []) ++
      (segmentPieces 0 (Text.splitOn separator p.text.toList)).map Piece.component := by
  unfold components Path.pieces
  rw [List.map_append]
  congr 1
  split <;> rfl

theorem segmentPieces_append (start : Nat) (first second : List (List Char)) (filled : first ≠ []) :
    (segmentPieces start (first ++ second)).map Piece.component =
      (segmentPieces start first).map Piece.component ++ spelled second := by
  induction first generalizing start with
  | nil => exact absurd rfl filled
  | cons segment rest ih =>
    have onward : (segmentPieces (start + segment.length + 1) (rest ++ second)).map Piece.component =
        (segmentPieces (start + segment.length + 1) rest).map Piece.component ++ spelled second := by
      cases rest with
      | nil => exact segmentPieces_later _ second (Nat.succ_ne_zero _)
      | cons next more => exact ih _ (by simp)
    rw [List.cons_append, segmentPieces, segmentPieces]
    cases segmentComponent start segment with
    | none => exact onward
    | some component => rw [List.map_cons, onward, List.map_cons, List.cons_append]

theorem join_eq {base rest : Path} (filled : base.text ≠ "") (relative : rest.isAbsolute = false) :
    base.join rest = ⟨(if base.endsInSeparator then base.text else base.text ++ "/") ++ rest.text⟩ := by
  unfold join endsInSeparator
  rw [relative, if_neg Bool.false_ne_true]
  cases ending : base.text.toList.getLast? with
  | none => exact absurd (String.toList_inj.1 (List.getLast?_eq_none_iff.1 ending)) filled
  | some last => by_cases cut : last = separator <;> simp [cut]

theorem components_join_spelled {base rest : Path} (filled : base.text ≠ "") (relative : rest.isAbsolute = false) :
    (base.join rest).components = base.components ++ spelled (Text.splitOn separator rest.text.toList) := by
  have pieces : ∀ front after : List Char,
      (segmentPieces 0 (Text.splitOn separator (front ++ separator :: after))).map Piece.component =
        (segmentPieces 0 (Text.splitOn separator front)).map Piece.component ++
          spelled (Text.splitOn separator after) := by
    intro front after
    rw [Text.splitOn_append, segmentPieces_append 0 _ _ (Text.splitOn_ne_nil separator front)]
  rw [join_eq filled relative, components_eq, components_eq base]
  cases ended : base.endsInSeparator with
  | true =>
    obtain ⟨front, split⟩ := List.getLast?_eq_some_iff.1 (of_decide_eq_true ended)
    have own : (segmentPieces 0 (Text.splitOn separator base.text.toList)).map Piece.component =
        (segmentPieces 0 (Text.splitOn separator front)).map Piece.component := by
      rw [split, pieces front []]
      exact List.append_nil _
    have first : (front ++ separator :: rest.text.toList).head? = (front ++ [separator]).head? := by
      cases front <;> rfl
    rw [own]
    simp [split, pieces front, first]
  | false =>
    have joined := pieces base.text.toList rest.text.toList
    obtain ⟨c, more, split⟩ := List.exists_cons_of_ne_nil fun empty => filled (String.toList_inj.1 empty)
    rw [split, List.cons_append] at joined
    simp only [Bool.false_eq_true, if_false, String.toList_append, split]
    simpa [separator] using joined

theorem filled_of_isAbsolute {p : Path} (absolute : p.isAbsolute = true) : p.text ≠ "" := by
  intro empty
  simp [isAbsolute, empty] at absolute

theorem components_join (base rest : Path) (absolute : base.isAbsolute = true)
    (relative : rest.isAbsolute = false) (forward : rest.components.head? ≠ some .here) :
    (base.join rest).components = base.components ++ rest.components := by
  rw [components_join_spelled (filled_of_isAbsolute absolute) relative, ← components_relative rest relative forward]

theorem isAbsolute_of_whole {name : String} (whole : separator ∉ name.toList) :
    (Path.mk name).isAbsolute = false := by
  rw [isAbsolute, decide_eq_false_iff_not]
  exact fun first => whole (List.mem_of_mem_head? first)

section

variable {name : String} {last : Component} (whole : separator ∉ name.toList) (spelt : spelled [name.toList] = [last])

include whole spelt

theorem components_alone : (Path.mk name).components = [last] := by
  have unrooted : ¬ name.toList.head? = some separator := fun first => whole (List.mem_of_mem_head? first)
  rw [components_eq, if_neg unrooted, List.nil_append, Text.splitOn_of_not_mem _ _ whole]
  -- Only a dot is read otherwise at the start of a path, and it spells nothing elsewhere.
  have first : segmentComponent 0 name.toList = some last := by
    have dotless : name.toList ≠ ['.'] := by
      intro dot
      simp [spelled, segmentComponent, dot] at spelt
    have alike : segmentComponent 0 name.toList = segmentComponent 1 name.toList := by
      simp [segmentComponent, dotless]
    rw [alike]
    cases own : segmentComponent 1 name.toList with
    | none => simp [spelled, own] at spelt
    | some component => simpa [spelled, own] using spelt
  simp [segmentPieces, first]

theorem components_join_last (base : Path) : (base.join ⟨name⟩).components = base.components ++ [last] := by
  have relative := isAbsolute_of_whole whole
  by_cases filled : base.text = ""
  · have empty : base = ⟨""⟩ := by rw [← filled]
    have alone : base.join ⟨name⟩ = ⟨name⟩ := by
      simp [join, relative, filled]
    rw [alone, components_alone whole spelt, empty]
    rfl
  · rw [components_join_spelled filled relative, Text.splitOn_of_not_mem _ _ whole, spelt]

end

/-- What a single entry of a directory may be called. -/
def IsName (name : String) : Prop :=
  name ≠ "" ∧ name ≠ "." ∧ name ≠ ".." ∧ separator ∉ name.toList

theorem isName_of_segment (segment : List Char) (filled : segment ≠ []) (dot : segment ≠ ['.'])
    (dots : segment ≠ ['.', '.']) (whole : separator ∉ segment) : IsName (String.ofList segment) := by
  have plain : ∀ text : String, segment ≠ text.toList -> String.ofList segment ≠ text := by
    rintro text differs rfl
    exact differs (by simp)
  exact ⟨plain "" filled, plain "." dot, plain ".." dots, by simpa using whole⟩

theorem isName_of_long {name : String} (whole : separator ∉ name.toList) (long : 2 < name.toList.length) :
    IsName name := by
  have differs : ∀ short : String, short.toList.length ≤ 2 -> name ≠ short := by
    rintro short few rfl
    omega
  exact ⟨differs "" (by decide), differs "." (by decide), differs ".." (by decide), whole⟩

theorem IsName.segment {name : String} (named : IsName name) :
    name.toList ≠ [] ∧ name.toList ≠ ['.'] ∧ name.toList ≠ ['.', '.'] := by
  obtain ⟨filled, dot, dots, -⟩ := named
  exact ⟨fun equal => filled (String.toList_inj.1 equal), fun equal => dot (String.toList_inj.1 equal),
    fun equal => dots (String.toList_inj.1 equal)⟩

theorem spelled_name {name : String} (named : IsName name) : spelled [name.toList] = [.name name] := by
  simp [spelled, segmentComponent, named.segment]

theorem components_name (name : String) (named : IsName name) :
    (Path.mk name).isAbsolute = false ∧ (Path.mk name).components = [.name name] :=
  ⟨isAbsolute_of_whole named.2.2.2, components_alone named.2.2.2 (spelled_name named)⟩

theorem components_join_name (base : Path) {name : String} (named : IsName name) :
    (base.join ⟨name⟩).components = base.components ++ [.name name] :=
  components_join_last named.2.2.2 (spelled_name named) base

theorem components_foldl_join (base : Path) {names : List String} (named : ∀ name ∈ names, IsName name) :
    (names.foldl (fun path name => path.join ⟨name⟩) base).components = base.components ++ names.map .name := by
  induction names generalizing base with
  | nil => simp
  | cons name names ih =>
    obtain ⟨own, others⟩ := List.forall_mem_cons.1 named
    rw [List.foldl_cons, ih _ others, components_join_name base own, List.append_assoc, List.map_cons,
      List.singleton_append]

theorem isName_of_enter (p : Path) (name : String) (member : .enter name ∈ p.steps) :
    IsName name := by
  have stepped : .enter name ∈
      ((Text.splitOn separator p.text.toList).filter (· ≠ [])).map segmentStep := by
    unfold steps at member
    simp only at member
    split at member
    · rcases List.mem_append.1 member with inside | ended
      · exact inside
      · simp at ended
    · exact member
  obtain ⟨segment, inside, spelt⟩ := List.mem_map.1 stepped
  obtain ⟨piece, filled⟩ := List.mem_filter.1 inside
  unfold segmentStep at spelt
  split at spelt
  · cases spelt
  next dot =>
    split at spelt
    · cases spelt
    next dots =>
      cases spelt
      exact isName_of_segment segment (by simpa using filled) dot dots
        (Text.not_mem_of_mem_splitOn _ _ _ piece)

end Path

end Stowage

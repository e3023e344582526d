import Stowage.Proofs.Path.Below

set_option autoImplicit false

namespace Stowage.Path

theorem spelled_take {text : List Char} (blank : spelled (Text.splitOn separator text) = []) (length : Nat) :
    spelled (Text.splitOn separator (text.take length)) = [] := by
  obtain ⟨pieces, piece, more, short, whole, start⟩ := Text.splitOn_take separator text length
  rw [whole, spelled_append, List.append_eq_nil_iff] at blank
  rw [start, spelled_append, blank.1, List.nil_append]
  have last : segmentComponent 1 piece = none := (List.filterMap_eq_nil_iff.1 blank.2) piece List.mem_cons_self
  have dot : piece = [] ∨ piece = ['.'] := by
    unfold segmentComponent at last
    split_ifs at last <;> simp_all
  rcases dot with rfl | rfl
  · rw [List.take_nil]
    rfl
  · cases short with
    | zero => rfl
    | succ short => simp [spelled, segmentComponent]

theorem segmentPieces_take (start : Nat) (text : List Char) (front : List Piece) {piece : Piece} {name : String}
    (split : segmentPieces start (Text.splitOn separator text) = front ++ [piece])
    (named : piece.component = .name name) {stop : Nat} (later : piece.start < stop) :
    segmentPieces start (Text.splitOn separator (text.take (stop - start))) =
      front ++ segmentPieces piece.start [name.toList.take (stop - piece.start)] := by
  generalize segments : Text.splitOn separator text = all at split
  induction all generalizing start text front with
  | nil => simp [segmentPieces] at split
  | cons segment more ih =>
    have whole := Text.not_mem_of_mem_splitOn separator text segment (by simp [segments])
    -- Where the piece lies behind this segment, the cut leaves the segment whole and is made in the rest.
    have onward : ∀ front, segmentPieces (start + segment.length + 1) more = front ++ [piece] ->
        ∃ after, Text.splitOn separator (text.take (stop - start)) = segment :: after ∧
          segmentPieces (start + segment.length + 1) after =
            front ++ segmentPieces piece.start [name.toList.take (stop - piece.start)] := by
      intro front split
      have further := start_le_of_mem (start + segment.length + 1) more piece (by simp [split])
      rcases Text.splitOn_cons segments with ⟨rfl, -⟩ | ⟨rest, rfl, below⟩
      · simp [segmentPieces] at split
      · have count : stop - start = segment.length + (stop - (start + segment.length + 1) + 1) := by omega
        refine ⟨_, ?_, ih (start + segment.length + 1) rest front below split⟩
        rw [count, List.take_length_add_append, List.take_succ_cons, Text.splitOn_append,
          Text.splitOn_of_not_mem _ _ whole]
        rfl
    rw [segmentPieces] at split
    cases spelt : segmentComponent start segment with
    | none =>
      simp only [spelt] at split
      obtain ⟨after, cut, pieces⟩ := onward front split
      rw [cut, segmentPieces, spelt, pieces]
    | some component =>
      simp only [spelt] at split
      cases front with
      | cons first front =>
        obtain ⟨rfl, below⟩ := List.cons.inj split
        obtain ⟨after, cut, pieces⟩ := onward front below
        rw [cut, segmentPieces, spelt, pieces]
        rfl
      | nil =>
        obtain ⟨rfl, none⟩ := List.cons.inj split
        -- The piece is this segment, which is cut unless it ends first.
        rw [List.nil_append, (segmentComponent_eq_name_iff.1 (spelt.trans (congrArg some named))).1]
        rcases Text.splitOn_cons segments with ⟨rfl, rfl⟩ | ⟨rest, rfl, below⟩
        · rw [Text.splitOn_of_not_mem _ _ fun inside => whole (List.mem_of_mem_take inside)]
        · rcases Nat.lt_or_ge segment.length (stop - start) with long | short
          · -- The name is left whole, and nothing behind it is read.
            have blank : segmentPieces (start + segment.length + 1)
                (Text.splitOn separator (rest.take (stop - (start + segment.length + 1)))) = [] := by
              rw [← List.map_eq_nil_iff, segmentPieces_later _ _ (Nat.succ_ne_zero _)]
              refine spelled_take ?_ _
              rw [below, ← segmentPieces_later _ _ (Nat.succ_ne_zero (start + segment.length)), none, List.map_nil]
            have count : stop - start = segment.length + (stop - (start + segment.length + 1) + 1) := by omega
            rw [List.take_of_length_le (Nat.le_of_lt long), count, List.take_length_add_append, List.take_succ_cons,
              Text.splitOn_append, Text.splitOn_of_not_mem _ _ whole, List.singleton_append, segmentPieces, blank]
            rfl
          · rw [List.take_append_of_le_length short,
              Text.splitOn_of_not_mem _ _ fun inside => whole (List.mem_of_mem_take inside)]

theorem end_le_of_mem (start : Nat) (text : List Char) {piece : Piece} {name : String}
    (inside : piece ∈ segmentPieces start (Text.splitOn separator text)) (named : piece.component = .name name) :
    piece.start + name.toList.length ≤ start + text.length := by
  have least := start_le_of_mem start _ piece inside
  obtain ⟨front, after, split⟩ := List.append_of_mem inside
  obtain ⟨segment, more, cut, spelt, -⟩ := segmentPieces_drop start text front after piece split
  have short := Text.length_le_of_mem_splitOn separator _ segment (cut ▸ List.mem_cons_self)
  have filled : segment ≠ [] := by
    rintro rfl
    cases spelt
  have long := List.length_pos_iff.2 filled
  rw [named] at spelt
  rw [(segmentComponent_eq_name_iff.1 spelt).1]
  rw [List.length_drop] at short
  omega

theorem isName_longer {stem more : List Char} (filled : stem ≠ []) (dot : stem ≠ ['.']) (whole : separator ∉ stem)
    (whole' : separator ∉ more) : IsName (String.ofList (stem ++ '.' :: more)) := by
  have long := List.length_pos_iff.2 filled
  refine isName_of_segment _ (by simp) ?_ ?_ ?_
  · intro same
    have length := congrArg List.length same
    rw [List.length_append, List.length_cons, List.length_singleton] at length
    omega
  · intro same
    have length := congrArg List.length same
    rw [List.length_append, List.length_cons, List.length_cons, List.length_singleton] at length
    obtain ⟨c, rfl⟩ := List.length_eq_one_iff.1 (by omega : stem.length = 1)
    exact dot (by rw [(List.cons.inj same).1])
  · rw [List.mem_append, List.mem_cons, not_or, not_or]
    exact ⟨whole, by decide, whole'⟩

theorem segmentPieces_named {start : Nat} {segment : List Char} (named : IsName (String.ofList segment)) :
    segmentPieces start [segment] = [⟨.name (String.ofList segment), start, start + segment.length⟩] := by
  have parts := named.segment
  rw [String.toList_ofList] at parts
  simp [segmentPieces, segmentComponent, parts]

theorem pieces_eq (p : Path) : p.pieces = (if p.text.toList.head? = some separator then [⟨.root, 0, 1⟩] else []) ++
    segmentPieces 0 (Text.splitOn separator p.text.toList) := rfl

section

variable {p : Path} {front : List Piece} {piece : Piece} {name : String} (split : p.pieces = front ++ [piece])
  (named : piece.component = .name name)

include split named

theorem pieces_take {stop : Nat} (later : piece.start < stop) :
    (p.slice 0 stop).pieces = front ++ segmentPieces piece.start [name.toList.take (stop - piece.start)] := by
  have cut := fun front split => segmentPieces_take 0 p.text.toList front split named later
  have first : (p.text.toList.take stop).head? = p.text.toList.head? := by
    rw [List.head?_take, if_neg (Nat.ne_of_gt (Nat.zero_lt_of_lt later))]
  simp only [Nat.sub_zero] at cut
  rw [pieces_eq] at split ⊢
  rw [slice_start, first]
  by_cases rooted : p.text.toList.head? = some separator
  · rw [if_pos rooted, List.singleton_append] at split
    rw [if_pos rooted, List.singleton_append]
    cases front with
    | nil =>
      obtain ⟨rfl, -⟩ := List.cons.inj split
      cases named
    | cons root front =>
      obtain ⟨rfl, below⟩ := List.cons.inj split
      rw [cut front below]
      rfl
  · rw [if_neg rooted, List.nil_append] at split
    rw [if_neg rooted, List.nil_append]
    exact cut front split

theorem fileName?_of_pieces : p.fileName? = some name := by
  refine fileName?_of_components p (front.map Piece.component) name ?_
  rw [components, split, List.map_append, ← named]
  rfl

theorem components_stemThen {stem : List Char} (cut : (cutName name.toList).1 = stem) (start : stem <+: name.toList)
    (whole : IsName (String.ofList stem)) :
    (p.stemThen "").components = front.map Piece.component ++ [.name (String.ofList stem)] := by
  have last : p.pieces.getLast? = some piece := by rw [split, List.getLast?_concat]
  have stems : p.stem? = some (String.ofList stem) := by
    rw [stem?, fileName?_of_pieces split named, Option.map_some, cut]
  have filled := whole.segment.1
  rw [String.toList_ofList] at filled
  have taken : name.toList.take (piece.start + stem.length - piece.start) = stem := by
    rw [Nat.add_sub_cancel_left, ← List.prefix_iff_eq_take.1 start]
  have later : piece.start < piece.start + stem.length := Nat.lt_add_of_pos_right (List.length_pos_iff.2 filled)
  have pieces := pieces_take split named later
  rw [taken, segmentPieces_named whole] at pieces
  rw [stemThen, last, stems]
  simp only [if_true, String.length_ofList]
  rw [components, pieces, List.map_append]
  rfl

theorem stop_le : piece.start + name.toList.length ≤ p.text.toList.length := by
  have inside : piece ∈ p.pieces := by simp [split]
  rw [pieces_eq] at inside
  rcases List.mem_append.1 inside with root | below
  · split at root
    · obtain rfl := List.mem_singleton.1 root
      cases named
    · cases root
  · have within := end_le_of_mem 0 p.text.toList below named
    rwa [Nat.zero_add] at within

end

theorem components_withoutExtension {p : Path} {front : List Component} {name stem : String}
    (spelt : p.components = front ++ [.name name]) (stems : p.stem? = some stem) (dot : stem ≠ ".")
    (dots : stem ≠ "..") : (p.withExtension "").components = front ++ [.name stem] := by
  obtain ⟨above, last, split, rfl, single⟩ := List.map_eq_append_iff.1 spelt
  obtain ⟨piece, rfl, named⟩ := List.map_eq_singleton_iff.1 single
  have own : IsName name := isName_of_component p name (by rw [spelt]; simp)
  have known := fileName?_of_pieces split named
  rw [stem?, known, Option.map_some] at stems
  cases stems
  unfold withExtension extension?
  rw [known]
  rcases cutName_cases name.toList with whole | ⟨stem, ending, filled, dotless, cut, parts⟩
  · simp only [Option.bind_some, whole, Option.map_none]
    refine components_stemThen split named (by rw [whole]) List.prefix_rfl ?_
    rwa [String.ofList_toList]
  · simp only [Option.bind_some, parts, Option.map_some] at dot dots ⊢
    have whole : separator ∉ stem := fun inside => own.2.2.2 (by rw [cut]; exact List.mem_append_left _ inside)
    have whole' : separator ∉ ending := fun inside => own.2.2.2 (by rw [cut]; simp [inside])
    have apart : ∀ chars : List Char, String.ofList stem ≠ String.ofList chars -> stem ≠ chars := by
      rintro chars differs rfl
      exact differs rfl
    have dot' := apart ['.'] dot
    have left : IsName (String.ofList stem) := isName_of_segment stem filled dot' (apart ['.', '.'] dots) whole
    -- Cutting the extension off leaves the stem with a dot behind it, and perhaps more where the path goes on behind
    -- the name.
    have within := stop_le split named
    rw [cut, List.length_append, List.length_cons] at within
    have total : p.text.toList.length = p.text.length := String.length_toList
    generalize ended : p.text.length - (String.ofList ending).length = stop
    rw [String.length_ofList] at ended
    have later : piece.start < stop := by omega
    have pieces := pieces_take split named later
    have count : stop - piece.start = stem.length + ((stop - piece.start - stem.length - 1) + 1) := by omega
    rw [cut, count, List.take_length_add_append, List.take_succ_cons] at pieces
    generalize rest : ending.take (stop - piece.start - stem.length - 1) = more at pieces
    have dotless' : '.' ∉ more := fun inside => dotless (List.mem_of_mem_take (rest ▸ inside))
    have shorter : IsName (String.ofList (stem ++ '.' :: more)) :=
      isName_longer filled dot' whole fun inside => whole' (List.mem_of_mem_take (rest ▸ inside))
    rw [segmentPieces_named shorter] at pieces
    simp only [fileName?_of_pieces pieces rfl]
    refine components_stemThen pieces rfl ?_ ?_ left
    · rw [String.toList_ofList, cutName_append filled dotless']
    · rw [String.toList_ofList]
      exact List.prefix_append _ _

end Stowage.Path

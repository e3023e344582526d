import Stowage.Path.Normal
import Stowage.Proofs.Path.Parents

set_option autoImplicit false

namespace Stowage

theorem cancelUps_down (passed names : List String) (rest : List Component) :
    cancelUps passed (names.map .name ++ rest) = cancelUps (names.reverse ++ passed) rest := by
  induction names generalizing passed with
  | nil => rfl
  | cons name names ih => simp [cancelUps, ih]

theorem cancelUps_up (passed : List String) (count : Nat) (rest : List Component) (within : count ≤ passed.length) :
    cancelUps passed (List.replicate count .up ++ rest) = cancelUps (passed.drop count) rest := by
  induction count generalizing passed with
  | zero => rfl
  | succ count ih =>
    cases passed with
    | nil => cases within
    | cons name passed => exact ih passed (Nat.le_of_succ_le_succ within)

theorem cancelUps_around (names others : List String) (count : Nat) (within : count ≤ names.length) :
    cancelUps [] (names.map .name ++ (List.replicate count .up ++ others.map .name)) =
      some (names.take (names.length - count) ++ others) := by
  rw [cancelUps_down, cancelUps_up _ _ _ (by simpa using within), cancelUps_names, List.append_nil,
    List.drop_reverse, List.reverse_reverse]

namespace Path

theorem start_le_of_mem (start : Nat) (segments : List (List Char)) (piece : Piece)
    (inside : piece ∈ segmentPieces start segments) : start ≤ piece.start := by
  induction segments generalizing start with
  | nil => cases inside
  | cons segment more ih =>
    have onward : piece ∈ segmentPieces (start + segment.length + 1) more -> start ≤ piece.start := by
      intro later
      have further := ih _ later
      omega
    rw [segmentPieces] at inside
    split at inside
    · exact onward inside
    · rcases List.mem_cons.1 inside with rfl | later
      · exact Nat.le_refl _
      · exact onward later

theorem segmentPieces_drop (start : Nat) (text : List Char) (front after : List Piece) (piece : Piece)
    (split : segmentPieces start (Text.splitOn separator text) = front ++ piece :: after) :
    ∃ segment more, Text.splitOn separator (text.drop (piece.start - start)) = segment :: more ∧
      segmentComponent piece.start segment = some piece.component ∧
      segmentPieces (piece.start + segment.length + 1) more = after := by
  generalize segments : Text.splitOn separator text = all at split
  -- On the segments, with the text that they come from: it is cut behind each segment that lies before the piece.
  induction all generalizing start text front with
  | nil => simp [segmentPieces] at split
  | cons segment more ih =>
    have onward : ∀ front, segmentPieces (start + segment.length + 1) more = front ++ piece :: after ->
        ∃ segment more, Text.splitOn separator (text.drop (piece.start - start)) = segment :: more ∧
          segmentComponent piece.start segment = some piece.component ∧
          segmentPieces (piece.start + segment.length + 1) more = after := by
      intro front split
      have further := start_le_of_mem (start + segment.length + 1) more piece (by simp [split])
      rcases Text.splitOn_cons segments with ⟨rfl, -⟩ | ⟨rest, rfl, later⟩
      · simp [segmentPieces] at split
      · have cut : (segment ++ separator :: rest).drop (piece.start - start) =
            rest.drop (piece.start - (start + segment.length + 1)) := by
          have count : piece.start - start = (segment ++ [separator]).length +
              (piece.start - (start + segment.length + 1)) := by
            rw [List.length_append, List.length_singleton]
            omega
          have apart : segment ++ separator :: rest = (segment ++ [separator]) ++ rest := by simp
          rw [count, apart, List.drop_length_add_append]
        rw [cut]
        exact ih _ rest front later split
    rw [segmentPieces] at split
    cases spelt : segmentComponent start segment with
    | none =>
      simp only [spelt] at split
      exact onward front split
    | some component =>
      simp only [spelt] at split
      cases front with
      | nil =>
        obtain ⟨rfl, rfl⟩ := List.cons.inj split
        exact ⟨segment, more, by rw [Nat.sub_self, List.drop_zero, segments], spelt, rfl⟩
      | cons first front =>
        obtain ⟨-, later⟩ := List.cons.inj split
        exact onward front later

theorem rooted_of_pieces {p : Path} {front : List Piece} {piece : Piece} (split : p.pieces = piece :: front)
    (root : piece.component = .root) : ∃ chars, p.text.toList = separator :: chars ∧
      segmentPieces 1 (Text.splitOn separator chars) = front := by
  have spelt : p.components = .root :: front.map Piece.component := by rw [components, split, List.map_cons, root]
  obtain ⟨chars, whole⟩ := (isAbsolute_iff p).1 (isAbsolute_of_components spelt)
  refine ⟨chars, by simp [whole], ?_⟩
  have own : p.pieces = ⟨.root, 0, 1⟩ :: segmentPieces 1 (Text.splitOn separator chars) := by
    simp [pieces, whole, Text.splitOn_cons_self, segmentPieces, segmentComponent]
  exact (List.cons.inj (own.symm.trans split)).2

theorem segmentComponent_first {start : Nat} {segment : List Char} {component : Component} (later : start ≠ 0)
    (spelt : segmentComponent start segment = some component) :
    segment ≠ [] ∧ segmentComponent 0 segment = some component := by
  unfold segmentComponent at spelt ⊢
  split_ifs at spelt ⊢ <;> simp_all

theorem isAbsolute_of_splitOn {p : Path} {segment : List Char} {more : List (List Char)}
    (split : Text.splitOn separator p.text.toList = segment :: more) (filled : segment ≠ []) :
    p.isAbsolute = false := by
  have whole := Text.not_mem_of_mem_splitOn separator _ segment (split ▸ List.mem_cons_self)
  obtain ⟨c, rest, rfl⟩ := List.exists_cons_of_ne_nil filled
  unfold isAbsolute
  rcases Text.splitOn_cons split with ⟨-, text⟩ | ⟨after, text, -⟩ <;>
    · rw [text]
      simpa using fun same : c = separator => whole (by simp [same])

theorem components_slice {p : Path} {front rest : List Piece} {root first last : Piece}
    (split : p.pieces = root :: (front ++ first :: rest)) (rooted : root.component = .root)
    (final : (first :: rest).getLast? = some last) :
    (p.slice first.start last.stop).components = (first :: rest).map Piece.component := by
  obtain ⟨most, ends⟩ := List.getLast?_eq_some_iff.1 final
  have pieces := pieces_slice p (root :: (front ++ most)) [] last (by rw [split, ends]; simp)
  have text : (p.slice first.start last.stop).text.toList =
      (p.slice 0 last.stop).text.toList.drop first.start := by simp [slice]
  generalize p.slice 0 last.stop = q at pieces text
  rw [List.cons_append, List.append_assoc, ← ends] at pieces
  obtain ⟨chars, whole, later⟩ := rooted_of_pieces pieces rooted
  have further := start_le_of_mem 1 _ first (by rw [later]; simp)
  obtain ⟨segment, more, cut, own, others⟩ := segmentPieces_drop 1 chars front rest first later
  have dropped : (separator :: chars).drop first.start = chars.drop (first.start - 1) := by
    obtain ⟨start, count⟩ := Nat.exists_eq_add_one_of_ne_zero (Nat.ne_of_gt further)
    rw [count, List.drop_succ_cons, Nat.add_sub_cancel]
  rw [whole, dropped] at text
  -- What the rest starts with is neither a separator nor a dot.
  obtain ⟨filled, start⟩ := segmentComponent_first (Nat.ne_of_gt further) own
  rw [← text] at cut
  rw [unrooted_pieces _ (isAbsolute_of_splitOn cut filled), cut, segmentPieces, start, List.map_cons, List.map_cons,
    ← others, segmentPieces_later _ _ (Nat.succ_ne_zero _), segmentPieces_later _ _ (Nat.succ_ne_zero _)]

theorem piecesAfter_eq_some (components : List Component) (pieces rest : List Piece) :
    piecesAfter components pieces = some rest ↔
      ∃ front, pieces = front ++ rest ∧ front.map Piece.component = components := by
  induction components generalizing pieces with
  | nil => simp [piecesAfter]
  | cons component components ih =>
    cases pieces with
    | nil => simp [piecesAfter]
    | cons piece pieces =>
      unfold piecesAfter
      split
      next same =>
        rw [ih]
        constructor
        · rintro ⟨front, rfl, spelt⟩
          exact ⟨piece :: front, rfl, by rw [List.map_cons, same, spelt]⟩
        · rintro ⟨front, split, spelt⟩
          obtain ⟨first, front, rfl, -, spelt⟩ := List.map_eq_cons_iff.1 spelt
          exact ⟨front, (List.cons.inj split).2, spelt⟩
      next other =>
        refine ⟨fun impossible => (nomatch impossible), ?_⟩
        rintro ⟨front, split, spelt⟩
        obtain ⟨first, front, rfl, same, -⟩ := List.map_eq_cons_iff.1 spelt
        obtain ⟨rfl, -⟩ := List.cons.inj split
        exact absurd same other

theorem components_joinNames (base : Path) {names : List String} (named : ∀ name ∈ names, IsName name) :
    (base.joinNames names).components = base.components ++ names.map .name :=
  components_foldl_join base named

section

variable {base p : Path} (absolute : base.isAbsolute = true)

include absolute

theorem isAbsolute_of_append {more : List Component} (spelt : p.components = base.components ++ more) :
    p.isAbsolute = true := by
  obtain ⟨after, rooted⟩ := components_of_isAbsolute absolute
  rw [rooted, List.cons_append] at spelt
  exact isAbsolute_of_components spelt

theorem below?_of_components {more : List Component} (spelt : p.components = base.components ++ more) :
    ∃ rest, base.below? p = some rest ∧ rest.components = more := by
  obtain ⟨after, own⟩ := components_of_isAbsolute absolute
  obtain ⟨front, rest, split, above, below⟩ := List.map_eq_append_iff.1 spelt
  have found := (piecesAfter_eq_some base.components p.pieces rest).2 ⟨front, split, above⟩
  refine ⟨_, by rw [below?, found, Option.map_some], ?_⟩
  cases rest with
  | nil =>
    rw [← below]
    rfl
  | cons first rest =>
    have final := List.getLast?_eq_some_getLast (List.cons_ne_nil first rest)
    rw [own] at above
    obtain ⟨root, front, rfl, rooted, -⟩ := List.map_eq_cons_iff.1 above
    simp only [List.head?_cons, final]
    rw [← below]
    exact components_slice split rooted final

theorem components_of_below? {rest : Path} (known : base.below? p = some rest) :
    p.components = base.components ++ rest.components := by
  obtain ⟨pieces, found, -⟩ := Option.map_eq_some_iff.1 known
  obtain ⟨front, split, above⟩ := (piecesAfter_eq_some _ _ _).1 found
  have spelt : p.components = base.components ++ pieces.map Piece.component := by
    rw [components, split, List.map_append, above]
  obtain ⟨rest', known', below⟩ := below?_of_components absolute spelt
  rw [known] at known'
  cases known'
  rw [spelt, below]

theorem normalizeWithin_around {names others : List String} {count : Nat}
    (spelt : p.components = base.components ++ (names.map .name ++ (List.replicate count .up ++ others.map .name)))
    (within : count ≤ names.length) : ∃ found, base.normalizeWithin p = some found ∧
      found.components = base.components ++ (names.take (names.length - count) ++ others).map .name := by
  obtain ⟨rest, known, below⟩ := below?_of_components absolute spelt
  -- What is left has been read out of a path, and so it can be joined again name by name.
  have named : ∀ name ∈ names.take (names.length - count) ++ others, IsName name := by
    intro name inside
    refine isName_of_component p name ?_
    rw [spelt]
    rcases List.mem_append.1 inside with early | late
    · simp [List.mem_of_mem_take early]
    · simp [late]
  refine ⟨_, ?_, components_joinNames base named⟩
  rw [normalizeWithin, known, Option.bind_some, below, cancelUps_around _ _ _ within, Option.map_some]

end

end Path

end Stowage

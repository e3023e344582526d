import Stowage.Proofs.Imports.Finding

set_option autoImplicit false

namespace Stowage

namespace Imports

open Pattern (Meets literal blanks)

def Pointed (specifier : List Char) : Prop :=
  specifier.head? = some '.' ∨ specifier.head? = some '/'

instance : DecidablePred Pointed := fun _ => instDecidableOr

theorem lined_or_called {form : Form} (known : form ∈ forms) :
    (∃ rest, form.opening = .lineStart :: rest ∧ form.closing = []) ∨
      ∃ letter rest, form.opening = .wordStart :: .one (· == letter) :: rest ∧
        form.closing = blanks ++ literal ")" ∧ Text.isBlank letter = false ∧ letter ≠ ')' := by
  simp only [forms, List.mem_cons, List.not_mem_nil, or_false] at known
  rcases known with rfl | rfl | rfl | rfl | rfl
  · exact .inl ⟨_, rfl, rfl⟩
  · exact .inl ⟨_, rfl, rfl⟩
  · exact .inl ⟨_, rfl, rfl⟩
  · exact .inr ⟨'i', _, rfl, rfl, by decide, by decide⟩
  · exact .inr ⟨'r', _, rfl, rfl, by decide, by decide⟩

theorem closed_by {last after : Place} (closed : Meets (quote ++ (blanks ++ literal ")")) last after) {index : Nat}
    (behind : last.index < index) (before : index < after.index) :
    ∃ c, last.text[index]? = some c ∧ (Text.isBlank c = true ∨ c = ')') := by
  obtain ⟨mid, first, onward⟩ := closed.split _ _ rfl
  have next : mid.index = last.index + 1 := by
    cases first with
    | one _ done =>
      cases done
      rfl
  obtain ⟨c, found, item, member, takes⟩ := onward.passed (by omega) before
  refine ⟨c, first.text_eq ▸ found, ?_⟩
  simp only [blanks, literal, List.cons_append, List.nil_append, List.mem_cons] at member
  rcases member with rfl | member
  · exact .inl takes
  · obtain rfl : item = .one (· == ')') := by simpa using member
    exact .inr (eq_of_beq takes)

theorem closed_room {last after : Place} (closed : Meets (quote ++ (blanks ++ literal ")")) last after) :
    last.index + 1 < after.index := by
  obtain ⟨mid, first, onward⟩ := closed.split _ _ rfl
  obtain ⟨mid', between, final⟩ := onward.split _ _ rfl
  have least := between.index_le
  cases first with
  | one _ done =>
    cases done
    cases final with
    | one _ done =>
      cases done
      simp only [Place.index, List.length_cons] at least ⊢
      omega

theorem Pointed.filled {specifier : List Char} (pointed : Pointed specifier) : specifier ≠ [] := by
  rintro rfl
  simp [Pointed] at pointed

theorem Pointed.not_closing {specifier : List Char} (pointed : Pointed specifier) {c : Char}
    (first : specifier.head? = some c) : ¬ (Text.isBlank c = true ∨ c = ')') := by
  unfold Pointed at pointed
  rw [first] at pointed
  rcases pointed with dot | slash
  · cases dot
    decide
  · cases slash
    decide

theorem Occurrence.Spans.first_char {m : Occurrence} {text : List Char} (spans : m.Spans text) :
    text[m.first.index]? = m.specifier.head? := by
  rw [← spans.whole, Place.text, spans.first_ahead, List.getElem?_append_right (by simp [Place.index])]
  obtain ⟨c, rest, own⟩ := List.exists_cons_of_ne_nil spans.filled
  simp [own, Place.index]

theorem Occurrence.Spans.last_char {m : Occurrence} {text : List Char} (spans : m.Spans text) :
    ∃ c, text[m.last.index]? = some c ∧ isQuote c = true := by
  obtain ⟨c, rest, ahead, quoted⟩ := spans.closing
  refine ⟨c, ?_, quoted⟩
  rw [← spans.last_whole, Place.text, ahead]
  simp [Place.index]

theorem Occurrence.Spans.inner_char {m : Occurrence} {text : List Char} (spans : m.Spans text) {index : Nat} {c : Char}
    (after : m.first.index ≤ index) (before : index < m.last.index) (here : text[index]? = some c) :
    isSpecifierChar c = true := by
  rw [spans.last_index] at before
  have length : m.first.behind.reverse.length = m.first.index := by simp [Place.index]
  rw [← spans.whole, Place.text, spans.first_ahead, List.getElem?_append_right (by omega),
    List.getElem?_append_left (by omega)] at here
  exact spans.inside c (List.mem_of_getElem? here)

theorem toldOnce_of_matches {form : Form} (known : form ∈ forms) {text : String} {p : Place} {m : Occurrence}
    (whole : p.text = text.toList) (matched : form.Matches p m) (pointed : Pointed m.specifier) :
    m.ToldOnce text := by
  have proper := proper_of_mem form known
  rcases proper.found_or_inside matched text.toList 0 [] whole (Nat.zero_le _) with
    found | ⟨q, m', found, whole', matched', before, within⟩
  · exact toldOnce_of_found known found rfl rfl
  rcases lined_or_called known with ⟨rest, opening, closing⟩ | ⟨letter, rest, opening, closing, solid, other⟩
  · obtain ⟨first, last⟩ := proper.swallowed opening closing matched matched' whole' before within
    exact toldOnce_of_found known found first last
  · have spans := proper.matches_spans matched
    have spans' := proper.matches_spans matched'
    rw [whole'] at spans'
    have closed := matched'.closed
    rw [closing] at closed
    -- A call cannot begin behind the opening of another one: what comes there closes this one.
    have clear : ∀ index, m'.last.index < index -> index < m'.after.index ->
        ∃ c, p.text[index]? = some c ∧ (Text.isBlank c = true ∨ c = ')') := by
      rw [← spans'.last_whole]
      exact fun index => closed_by closed
    have early : p.index < m'.first.index := by
      by_contra late
      by_cases inside : p.index ≤ m'.last.index
      · -- The quote before the one specifier would be the quote after the other.
        obtain ⟨front, opening', unquoted, -⟩ := proper.opening
        have opened := matched.opened
        rw [opening'] at opened
        obtain ⟨index, c, stop, begun, here, quoted, passed⟩ := opened.stops
        obtain ⟨c', here', quoted'⟩ := spans'.last_char
        have most : index ≤ m'.last.index := by
          by_contra beyond
          obtain ⟨d, here'', item, member, takes⟩ := passed m'.last.index inside (by omega)
          obtain rfl := Option.some.inj (here'.symm.trans here'')
          rw [unquoted item member c' quoted'] at takes
          cases takes
        have least : m'.last.index ≤ index := by
          by_contra short
          have known := spans'.inner_char (by omega) (by omega) here
          rw [stops_of_isQuote quoted] at known
          cases known
        have room := closed_room closed
        obtain ⟨d, there, closes⟩ := clear m.first.index (by omega) (by omega)
        exact pointed.not_closing (spans.first_char.symm.trans there) closes
      · obtain ⟨d, there, closes⟩ := clear p.index (by omega) within
        have opened := matched.opened
        rw [opening] at opened
        obtain ⟨behind, ahead⟩ := p
        cases opened with
        | wordStart _ opened =>
          cases opened with
          | one own _ =>
            have same : d = letter := by
              rw [← eq_of_beq own]
              simpa [Place.text, Place.index] using there.symm
            rw [same] at closes
            rcases closes with blank | paren
            · rw [solid] at blank
              cases blank
            · exact other paren
    have first := proper.first_unique proper matched'.opened matched.opened whole' (Nat.le_of_lt before) early
    have last := spans'.last_eq spans first
    exact toldOnce_of_found known found first last

end Imports

end Stowage

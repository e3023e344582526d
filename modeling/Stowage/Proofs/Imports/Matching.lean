import Stowage.Proofs.Imports.Splicing

set_option autoImplicit false

namespace Stowage

namespace Pattern

theorem Meets.stops {front : Pattern} {set : Char -> Bool} {p q : Place} (met : Meets (front ++ [.one set]) p q) :
    ∃ index c, q.index = index + 1 ∧ p.index ≤ index ∧ p.text[index]? = some c ∧ set c = true ∧
      ∀ i, p.index ≤ i -> i < index -> ∃ d, p.text[i]? = some d ∧ ∃ item ∈ front, item.takes d = true := by
  obtain ⟨mid, onward, last⟩ := met.split _ _ rfl
  cases last with
  | @one _ _ behind ahead c _ inside ended =>
    cases ended
    refine ⟨behind.length, c, rfl, onward.index_le, ?_, inside, fun i after before => onward.passed after before⟩
    rw [← onward.text_eq]
    simp [Place.text]

theorem Meets.stop_unique {front front' : Pattern} {set : Char -> Bool} {p p' q q' : Place}
    (free : ∀ item ∈ front, ∀ c, set c = true -> item.takes c = false)
    (free' : ∀ item ∈ front', ∀ c, set c = true -> item.takes c = false)
    (met : Meets (front ++ [.one set]) p q) (met' : Meets (front' ++ [.one set]) p' q') (whole : p.text = p'.text)
    (level : p.index ≤ p'.index) (within : p'.index < q.index) : q = q' := by
  obtain ⟨index, c, stop, -, found, inside, passed⟩ := met.stops
  obtain ⟨index', c', stop', begun', found', inside', passed'⟩ := met'.stops
  rcases Nat.lt_trichotomy index index' with early | same | late
  · -- The other way would have to pass the character at which this one stops.
    obtain ⟨d, here, item, member, takes⟩ := passed' index (by omega) early
    rw [← whole, found] at here
    cases here
    rw [free' item member c inside] at takes
    cases takes
  · refine Place.eq_of_index (by rw [met.text_eq, met'.text_eq, whole]) ?_
    rw [stop, stop', same]
  · obtain ⟨d, here, item, member, takes⟩ := passed index' (by omega) late
    rw [whole, found'] at here
    cases here
    rw [free item member c' inside'] at takes
    cases takes

end Pattern

namespace Imports

open Pattern (Meets literal blanks meet_eq_some meet_isSome)

def specifierText : Pattern := [.one isSpecifierChar, .many isSpecifierChar]

/-- From `p` on the text meets the form in the way that `m` marks: its opening, a specifier, a quote and what
closes it. -/
structure Form.Matches (form : Form) (p : Place) (m : Occurrence) : Prop where
  opened : Meets form.opening p m.first
  spelt : Meets specifierText m.first m.last
  closed : Meets (quote ++ form.closing) m.last m.after

theorem Form.Matches.met {form : Form} {p : Place} {m : Occurrence} (matched : form.Matches p m) :
    Meets (form.opening ++ (specifierText ++ (quote ++ form.closing))) p m.after :=
  matched.opened.append (matched.spelt.append matched.closed)

theorem meets_specifierEnd {p : Place} (starts : startsSpecifier p = true) :
    Meets specifierText p (specifierEnd p.behind p.ahead) := by
  have onward : ∀ behind ahead, Meets [.many isSpecifierChar] ⟨behind, ahead⟩ (specifierEnd behind ahead) := by
    intro behind ahead
    induction ahead generalizing behind with
    | nil => exact .manyNone (.done _)
    | cons c rest ih =>
      unfold specifierEnd
      split
      next inside => exact .manyMore inside (ih _)
      · exact .manyNone (.done _)
  obtain ⟨behind, ahead⟩ := p
  cases ahead with
  | nil => cases starts
  | cons c rest =>
    have inside : isSpecifierChar c = true := starts
    unfold specifierEnd
    rw [if_pos inside]
    exact .one inside (onward _ _)

theorem specifierEnd_of_meets {p q : Place} (met : Meets specifierText p q) {tail : Pattern} {after : Place}
    (closed : Meets (quote ++ tail) q after) :
    startsSpecifier p = true ∧ specifierEnd p.behind p.ahead = q := by
  constructor
  · cases met with
    | one inside _ => exact inside
  · obtain ⟨specifier, ahead, behind, taken⟩ := met.taken
    have inside : ∀ c ∈ specifier, isSpecifierChar c = true := by
      intro c member
      obtain ⟨item, known, takes⟩ := taken c member
      simp only [specifierText, List.mem_cons, List.not_mem_nil, or_false] at known
      rcases known with rfl | rfl <;> exact takes
    obtain ⟨behind', ahead'⟩ := q
    cases closed with
    | one quoted _ =>
      rw [ahead, specifierEnd_append _ _ _ _ inside (stops_of_isQuote quoted), ← behind]

theorem Form.matches_of_matchAt {form : Form} {p : Place} {m : Occurrence} (matched : form.matchAt p = some m) :
    form.Matches p m := by
  obtain ⟨first, opened, closed⟩ := meet_eq_some _ _ matched
  unfold Form.close at closed
  split at closed
  next starts =>
    obtain ⟨after, met, made⟩ := meet_eq_some _ _ closed
    cases made
    exact ⟨opened, meets_specifierEnd starts, met⟩
  · cases closed

namespace Form.Proper

variable {form : Form} (proper : form.Proper)

include proper

theorem closing_stops : ∃ front set, quote ++ form.closing = front ++ [.one set] ∧
    ∀ item ∈ front, ∀ c, set c = true -> item.takes c = false := by
  rcases proper.closing with none | call
  · exact ⟨[], isQuote, by rw [none]; rfl, fun item impossible => (nomatch impossible)⟩
  · refine ⟨quote ++ blanks, (· == ')'), by rw [call, ← List.append_assoc]; rfl, ?_⟩
    intro item member c paren
    obtain rfl := eq_of_beq paren
    simp only [quote, blanks, List.cons_append, List.nil_append, List.mem_cons, List.not_mem_nil, or_false] at member
    rcases member with rfl | rfl <;> decide

theorem first_unique {other : Form} (proper' : other.Proper) {p p' first first' : Place}
    (opened : Meets form.opening p first) (opened' : Meets other.opening p' first') (whole : p.text = p'.text)
    (level : p.index ≤ p'.index) (within : p'.index < first.index) : first = first' := by
  obtain ⟨front, opening, unquoted, -⟩ := proper.opening
  obtain ⟨front', opening', unquoted', -⟩ := proper'.opening
  rw [opening] at opened
  rw [opening'] at opened'
  exact opened.stop_unique unquoted unquoted' opened' whole level within

theorem opening_lt {p first : Place} (opened : Meets form.opening p first) : p.index < first.index := by
  obtain ⟨front, opening, -⟩ := proper.opening
  rw [opening] at opened
  obtain ⟨index, c, stop, begun, -⟩ := Pattern.Meets.stops opened
  omega

theorem closing_lt {last after : Place} (closed : Meets (quote ++ form.closing) last after) :
    last.index < after.index := by
  obtain ⟨front, set, closing, -⟩ := proper.closing_stops
  rw [closing] at closed
  obtain ⟨index, c, stop, begun, -⟩ := closed.stops
  omega

theorem matches_index_le {p : Place} {m : Occurrence} (matched : form.Matches p m) : p.index < m.first.index ∧
    m.first.index ≤ m.last.index ∧ m.last.index < m.after.index ∧ m.after.index ≤ p.text.length := by
  refine ⟨proper.opening_lt matched.opened, matched.spelt.index_le, proper.closing_lt matched.closed, ?_⟩
  rw [← matched.met.text_eq]
  simp [Place.text, Place.index]

theorem matches_unique {p : Place} {m m' : Occurrence} (matched : form.Matches p m) (matched' : form.Matches p m') :
    m = m' := by
  have first := proper.first_unique proper matched.opened matched'.opened rfl (Nat.le_refl _)
    (proper.opening_lt matched.opened)
  have last : m.last = m'.last := by
    rw [← (specifierEnd_of_meets matched.spelt matched.closed).2,
      ← (specifierEnd_of_meets matched'.spelt matched'.closed).2, first]
  have after : m.after = m'.after := by
    obtain ⟨front, set, closing, free⟩ := proper.closing_stops
    have closed := matched.closed
    have closed' := matched'.closed
    have within := proper.closing_lt closed
    rw [← last] at closed'
    rw [closing] at closed closed'
    exact closed.stop_unique free free closed' rfl (Nat.le_refl _) within
  cases m
  cases m'
  simp_all

theorem matchAt_iff {p : Place} {m : Occurrence} : form.matchAt p = some m ↔ form.Matches p m := by
  refine ⟨matches_of_matchAt, fun matched => ?_⟩
  obtain ⟨starts, ended⟩ := specifierEnd_of_meets matched.spelt matched.closed
  have closes : (form.close m.first).isSome = true := by
    unfold Form.close
    rw [if_pos starts, ended]
    exact (meet_isSome _ _ _).2 ⟨m.after, matched.closed, rfl⟩
  obtain ⟨m', found⟩ := Option.isSome_iff_exists.1 ((meet_isSome _ _ _).2 ⟨m.first, matched.opened, closes⟩)
  have same := proper.matches_unique matched (matches_of_matchAt found)
  rw [same]
  exact found

theorem matches_spans {p : Place} {m : Occurrence} (matched : form.Matches p m) : m.Spans p.text :=
  form.matchAt_spans proper p m (proper.matchAt_iff.2 matched)

end Form.Proper

end Imports

end Stowage

import Stowage.Proofs.Imports.Gathering
import Stowage.Proofs.Imports.Matching

set_option autoImplicit false

namespace Stowage

namespace Text

def returned (c : Char) : List Char := if c = '\n' then ['\r', '\n'] else [c]

def withReturns (text : List Char) : List Char := text.flatMap returned

theorem returned_newline : returned '\n' = ['\r', '\n'] := rfl

theorem returned_other {c : Char} (other : c ≠ '\n') : returned c = [c] := if_neg other

@[simp] theorem withReturns_nil : withReturns [] = [] := rfl

@[simp] theorem withReturns_cons (c : Char) (rest : List Char) :
    withReturns (c :: rest) = returned c ++ withReturns rest := rfl

@[simp] theorem withReturns_append (first second : List Char) :
    withReturns (first ++ second) = withReturns first ++ withReturns second :=
  List.flatMap_append

theorem returned_pos (c : Char) : 0 < (returned c).length := by
  unfold returned
  split <;> simp

theorem withReturns_length_pos {text : List Char} (filled : text ≠ []) : 0 < (withReturns text).length := by
  obtain ⟨c, rest, rfl⟩ := List.exists_cons_of_ne_nil filled
  have first := returned_pos c
  rw [withReturns_cons, List.length_append]
  omega

theorem withReturns_level {text : List Char} (level : '\n' ∉ text) : withReturns text = text := by
  induction text with
  | nil => rfl
  | cons c rest ih =>
    rw [List.mem_cons, not_or] at level
    rw [withReturns_cons, returned_other (Ne.symm level.1), ih level.2, List.singleton_append]

theorem count_withReturns (text : List Char) : (withReturns text).count '\n' = text.count '\n' := by
  induction text with
  | nil => rfl
  | cons c rest ih =>
    rw [withReturns_cons, List.count_append, ih, List.count_cons]
    by_cases newline : c = '\n'
    · rw [newline, returned_newline]
      simp [Nat.add_comm]
    · rw [returned_other newline]
      simp [newline]

theorem take_withReturns (text : List Char) (count : Nat) :
    (withReturns text).take (withReturns (text.take count)).length = withReturns (text.take count) := by
  have whole := withReturns_append (text.take count) (text.drop count)
  rw [List.take_append_drop] at whole
  rw [whole, List.take_left' rfl]

theorem drop_withReturns (text : List Char) (count : Nat) :
    (withReturns text).drop (withReturns (text.take count)).length = withReturns (text.drop count) := by
  have whole := withReturns_append (text.take count) (text.drop count)
  rw [List.take_append_drop] at whole
  rw [whole, List.drop_left' rfl]

end Text

namespace Place

def withReturns (p : Place) : Place := ⟨(Text.withReturns p.behind.reverse).reverse, Text.withReturns p.ahead⟩

theorem withReturns_before (behind ahead : List Char) {c : Char} (other : c ≠ '\n') :
    withReturns ⟨behind, c :: ahead⟩ = ⟨(Text.withReturns behind.reverse).reverse, c :: Text.withReturns ahead⟩ := by
  simp [withReturns, Text.returned_other other]

theorem withReturns_after (behind ahead : List Char) {c : Char} (other : c ≠ '\n') :
    withReturns ⟨c :: behind, ahead⟩ = ⟨c :: (Text.withReturns behind.reverse).reverse, Text.withReturns ahead⟩ := by
  simp [withReturns, Text.returned_other other]

theorem withReturns_before_newline (behind ahead : List Char) : withReturns ⟨behind, '\n' :: ahead⟩ =
    ⟨(Text.withReturns behind.reverse).reverse, '\r' :: '\n' :: Text.withReturns ahead⟩ := rfl

theorem withReturns_after_newline (behind ahead : List Char) : withReturns ⟨'\n' :: behind, ahead⟩ =
    ⟨'\n' :: '\r' :: (Text.withReturns behind.reverse).reverse, Text.withReturns ahead⟩ := by
  simp [withReturns, Text.returned_newline]

theorem index_withReturns (p : Place) : p.withReturns.index = (Text.withReturns (p.text.take p.index)).length := by
  rw [take_index]
  simp [index, withReturns]

theorem line_withReturns (p : Place) : p.withReturns.line = p.line := by
  simp [line, withReturns, Text.count_withReturns]

theorem head?_withReturns (p : Place) : p.withReturns.behind.head? = p.behind.head? := by
  obtain ⟨behind, ahead⟩ := p
  cases behind with
  | nil => rfl
  | cons c behind =>
    by_cases newline : c = '\n'
    · rw [newline, withReturns_after_newline]
      rfl
    · rw [withReturns_after _ _ newline]
      rfl

end Place

namespace Pattern

def takesNewlines : Pattern -> Bool
  | .many set :: _ => set '\n'
  | _ => false

def admitsReturns : Pattern -> Bool
  | [] => true
  | .one set :: rest => (!set '\n' || (set '\r' && takesNewlines rest)) && admitsReturns rest
  | .many set :: rest => (!set '\n' || set '\r') && admitsReturns rest
  | .lineStart :: rest => admitsReturns rest
  | .wordStart :: rest => admitsReturns rest

/-- Whether a pattern cannot go on from behind a return but by taking the newline, with items that could as well go on
from behind that. `took` tells whether the item that came before takes newlines. -/
def catchesUp (took : Bool) : Pattern -> Bool
  | [] => false
  | .one set :: _ => !set '\n'
  | .many set :: rest => (took || !set '\n') && catchesUp took rest
  | .lineStart :: _ => true
  | .wordStart :: rest => catchesUp took rest

/-- Whether a pattern never stops between a return and a newline, nor needs a return. -/
def needsNoReturns : Pattern -> Bool
  | [] => true
  | .one set :: rest => (!set '\r' || catchesUp (set '\n') rest) && needsNoReturns rest
  | .many set :: rest => (!set '\r' || catchesUp (set '\n') rest) && needsNoReturns rest
  | .lineStart :: rest => needsNoReturns rest
  | .wordStart :: rest => needsNoReturns rest

theorem Meets.newline {pattern : Pattern} (takes : takesNewlines pattern = true) {behind ahead : List Char} {q : Place}
    (met : Meets pattern ⟨'\n' :: behind, ahead⟩ q) : Meets pattern ⟨behind, '\n' :: ahead⟩ q := by
  match pattern, takes with
  | .many set :: _, inside => exact .manyMore inside met

theorem Meets.withReturns {pattern : Pattern} {p q : Place} (met : Meets pattern p q)
    (admits : admitsReturns pattern = true) : Meets pattern p.withReturns q.withReturns := by
  induction met with
  | done => exact .done _
  | @one set rest behind ahead c q inside onward ih =>
    simp only [admitsReturns, Bool.and_eq_true, Bool.or_eq_true, Bool.not_eq_true'] at admits
    have later := ih admits.2
    by_cases newline : c = '\n'
    · subst newline
      rw [Place.withReturns_after_newline] at later
      -- The character of the set is the return now, and the newline is left to the item behind.
      rcases admits.1 with without | ⟨return', more⟩
      · rw [inside] at without
        cases without
      · exact .one return' (later.newline more)
    · rw [Place.withReturns_after _ _ newline] at later
      rw [Place.withReturns_before _ _ newline]
      exact .one inside later
  | manyNone _ ih =>
    simp only [admitsReturns, Bool.and_eq_true] at admits
    exact .manyNone (ih admits.2)
  | @manyMore set rest behind ahead c q inside onward ih =>
    have later := ih admits
    simp only [admitsReturns, Bool.and_eq_true, Bool.or_eq_true, Bool.not_eq_true'] at admits
    by_cases newline : c = '\n'
    · subst newline
      rw [Place.withReturns_after_newline] at later
      rcases admits.1 with without | return'
      · rw [inside] at without
        cases without
      · exact .manyMore return' (.manyMore inside later)
    · rw [Place.withReturns_after _ _ newline] at later
      rw [Place.withReturns_before _ _ newline]
      exact .manyMore inside later
  | @lineStart rest p q starts _ ih =>
    rw [atLineStart_eq, ← Place.head?_withReturns, ← atLineStart_eq] at starts
    exact .lineStart starts (ih admits)
  | @wordStart rest p q starts _ ih =>
    rw [atWordStart_eq, ← Place.head?_withReturns, ← atWordStart_eq] at starts
    exact .wordStart starts (ih admits)

theorem Meets.caught {pattern : Pattern} {took : Bool} {behind ahead : List Char} {q : Place}
    (met : Meets pattern ⟨'\r' :: behind, '\n' :: ahead⟩ q) (catches : catchesUp took pattern = true) :
    took = true ∧ Meets pattern ⟨'\n' :: '\r' :: behind, ahead⟩ q := by
  induction pattern with
  | nil => cases catches
  | cons item rest ih =>
    cases item with
    | one set =>
      cases met with
      | one inside _ =>
        simp only [catchesUp, inside] at catches
        cases catches
    | many set =>
      simp only [catchesUp, Bool.and_eq_true, Bool.or_eq_true, Bool.not_eq_true'] at catches
      cases met with
      | manyNone onward =>
        obtain ⟨took, later⟩ := ih onward catches.2
        exact ⟨took, .manyNone later⟩
      | manyMore inside onward =>
        rcases catches.1 with took | without
        · exact ⟨took, onward⟩
        · rw [inside] at without
          cases without
    | lineStart =>
      -- Behind a return no line starts.
      cases met with
      | lineStart starts _ => cases starts
    | wordStart =>
      cases met with
      | wordStart _ onward =>
        obtain ⟨took, later⟩ := ih onward catches
        have starts : (!Text.isWord '\n') = true := by decide
        exact ⟨took, .wordStart starts later⟩

theorem Meets.many_withoutReturns {set : Char -> Bool} {rest : Pattern} {q' : Place}
    (catches : set '\r' = true -> catchesUp (set '\n') rest = true)
    (later : ∀ p : Place, Meets rest p.withReturns q' -> ∃ q, q.withReturns = q' ∧ Meets rest p q)
    (ahead : List Char) : ∀ behind, Meets (.many set :: rest) (Place.withReturns ⟨behind, ahead⟩) q' ->
      ∃ q, q.withReturns = q' ∧ Meets (.many set :: rest) ⟨behind, ahead⟩ q := by
  have none : ∀ p : Place, Meets rest p.withReturns q' ->
      ∃ q, q.withReturns = q' ∧ Meets (.many set :: rest) p q := by
    intro p onward
    obtain ⟨q, same, met⟩ := later p onward
    exact ⟨q, same, .manyNone met⟩
  induction ahead with
  | nil =>
    intro behind met
    cases met with
    | manyNone onward => exact none _ onward
  | cons c ahead ih =>
    intro behind met
    have onward := ih (c :: behind)
    by_cases newline : c = '\n'
    · subst newline
      rw [Place.withReturns_after_newline] at onward
      rw [Place.withReturns_before_newline] at met
      cases met with
      | manyNone met => exact none ⟨behind, '\n' :: ahead⟩ met
      | manyMore return' met =>
        -- The way stands between the return and the newline, and goes on as if it had taken both.
        have catches' : catchesUp (set '\n') (.many set :: rest) = true := by
          simp [catchesUp, catches return']
        obtain ⟨inside, met⟩ := met.caught catches'
        obtain ⟨q, same, met⟩ := onward met
        exact ⟨q, same, .manyMore inside met⟩
    · rw [Place.withReturns_after _ _ newline] at onward
      rw [Place.withReturns_before _ _ newline] at met
      cases met with
      | manyNone met =>
        rw [← Place.withReturns_before _ _ newline] at met
        exact none _ met
      | manyMore inside met =>
        obtain ⟨q, same, met⟩ := onward met
        exact ⟨q, same, .manyMore inside met⟩

theorem Meets.withoutReturns {pattern : Pattern} {p q' : Place} (met : Meets pattern p.withReturns q')
    (needs : needsNoReturns pattern = true) : ∃ q, q.withReturns = q' ∧ Meets pattern p q := by
  induction pattern generalizing p with
  | nil =>
    cases met
    exact ⟨p, rfl, .done p⟩
  | cons item rest ih =>
    obtain ⟨behind, ahead⟩ := p
    -- A returned newline is two characters: an item that takes the first has to take the second as well.
    cases item with
    | one set =>
      simp only [needsNoReturns, Bool.and_eq_true, Bool.or_eq_true, Bool.not_eq_true'] at needs
      cases ahead with
      | nil => cases met
      | cons c ahead =>
        have later := fun met => ih (p := ⟨c :: behind, ahead⟩) met needs.2
        by_cases newline : c = '\n'
        · subst newline
          rw [Place.withReturns_after_newline] at later
          rw [Place.withReturns_before_newline] at met
          cases met with
          | one return' met =>
            have catches := needs.1.resolve_left (by simp [return'])
            obtain ⟨inside, met⟩ := met.caught catches
            obtain ⟨q, same, met⟩ := later met
            exact ⟨q, same, .one inside met⟩
        · rw [Place.withReturns_after _ _ newline] at later
          rw [Place.withReturns_before _ _ newline] at met
          cases met with
          | one inside met =>
            obtain ⟨q, same, met⟩ := later met
            exact ⟨q, same, .one inside met⟩
    | many set =>
      simp only [needsNoReturns, Bool.and_eq_true, Bool.or_eq_true, Bool.not_eq_true'] at needs
      refine Meets.many_withoutReturns (fun return' => ?_) (fun p met => ih met needs.2) ahead behind met
      exact needs.1.resolve_left (by simp [return'])
    | lineStart =>
      cases met with
      | lineStart starts met =>
        obtain ⟨q, same, met⟩ := ih met needs
        rw [atLineStart_eq, Place.head?_withReturns, ← atLineStart_eq] at starts
        exact ⟨q, same, .lineStart starts met⟩
    | wordStart =>
      cases met with
      | wordStart starts met =>
        obtain ⟨q, same, met⟩ := ih met needs
        rw [atWordStart_eq, Place.head?_withReturns, ← atWordStart_eq] at starts
        exact ⟨q, same, .wordStart starts met⟩

end Pattern

end Stowage

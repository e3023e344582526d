import Stowage.Text.Blank
import Stowage.Text.Word

/-!
Patterns of text: a row of items, each of which takes one character, any number of characters, or
only looks at the place it stands at. `Meets` relates the two ends of a part of a text that meets a
pattern, and `meet` goes from one to the other.
-/

set_option autoImplicit false

namespace Stowage

/-- A place in a text: what was read before it, latest first, and what lies ahead. -/
structure Place where
  behind : List Char
  ahead : List Char
  deriving Repr

namespace Place

def start (text : List Char) : Place := ⟨[], text⟩

def all : List Char -> List Char -> List Place
  | behind, [] => [⟨behind, []⟩]
  | behind, c :: rest => ⟨behind, c :: rest⟩ :: Place.all (c :: behind) rest

def text (p : Place) : List Char := p.behind.reverse ++ p.ahead

def index (p : Place) : Nat := p.behind.length

def byteCount : List Char -> Nat
  | [] => 0
  | c :: rest => c.utf8Size + byteCount rest

def offset (p : Place) : Nat := byteCount p.behind

def line (p : Place) : Nat := p.behind.count '\n' + 1

def upTo (p q : Place) : List Char := p.ahead.take (q.index - p.index)

theorem byteCount_append (a b : List Char) : byteCount (a ++ b) = byteCount a + byteCount b := by
  induction a with
  | nil => simp [byteCount]
  | cons c rest ih => simp [byteCount, ih, Nat.add_assoc]

end Place

inductive Item
  | one (set : Char -> Bool)
  | many (set : Char -> Bool)
  | lineStart
  | wordStart

abbrev Pattern := List Item

namespace Pattern

def literal (word : String) : Pattern :=
  word.toList.map fun letter => .one (· == letter)

def blanks : Pattern := [.many Text.isBlank]

def someBlanks : Pattern := [.one Text.isBlank, .many Text.isBlank]

def atLineStart (behind : List Char) : Bool :=
  match behind with
  | [] => true
  | c :: _ => c == '\n'

def atWordStart (behind : List Char) : Bool :=
  match behind with
  | [] => true
  | c :: _ => !Text.isWord c

def takeMany {Result : Type} (set : Char -> Bool) (next : Place -> Option Result) :
    List Char -> List Char -> Option Result
  | behind, [] => next ⟨behind, []⟩
  | behind, c :: rest =>
    match next ⟨behind, c :: rest⟩ with
    | some result => some result
    | none => if set c then takeMany set next (c :: behind) rest else none

def takeItem {Result : Type} (item : Item) (next : Place -> Option Result) (p : Place) :
    Option Result :=
  match item with
  | .one set =>
    match p.ahead with
    | [] => none
    | c :: rest => if set c then next ⟨c :: p.behind, rest⟩ else none
  | .many set => takeMany set next p.behind p.ahead
  | .lineStart => if atLineStart p.behind then next p else none
  | .wordStart => if atWordStart p.behind then next p else none

def meet {Result : Type} (pattern : Pattern) (next : Place -> Option Result) :
    Place -> Option Result :=
  pattern.foldr takeItem next

/-- `p` and `q` are the two ends of a part of the text that meets the pattern. -/
inductive Meets : Pattern -> Place -> Place -> Prop
  | done (p : Place) : Meets [] p p
  | one {set : Char -> Bool} {rest : Pattern} {behind ahead : List Char} {c : Char} {q : Place} :
      set c = true -> Meets rest ⟨c :: behind, ahead⟩ q ->
      Meets (.one set :: rest) ⟨behind, c :: ahead⟩ q
  | manyNone {set : Char -> Bool} {rest : Pattern} {p q : Place} :
      Meets rest p q -> Meets (.many set :: rest) p q
  | manyMore {set : Char -> Bool} {rest : Pattern} {behind ahead : List Char} {c : Char}
      {q : Place} :
      set c = true -> Meets (.many set :: rest) ⟨c :: behind, ahead⟩ q ->
      Meets (.many set :: rest) ⟨behind, c :: ahead⟩ q
  | lineStart {rest : Pattern} {p q : Place} :
      atLineStart p.behind = true -> Meets rest p q -> Meets (.lineStart :: rest) p q
  | wordStart {rest : Pattern} {p q : Place} :
      atWordStart p.behind = true -> Meets rest p q -> Meets (.wordStart :: rest) p q

theorem meets_one_iff {set : Char -> Bool} {rest : Pattern} {behind ahead : List Char} {c : Char} {q : Place} :
    Meets (.one set :: rest) ⟨behind, c :: ahead⟩ q ↔ set c = true ∧ Meets rest ⟨c :: behind, ahead⟩ q := by
  constructor
  · intro met
    cases met with
    | one inside met => exact ⟨inside, met⟩
  · rintro ⟨inside, met⟩
    exact .one inside met

theorem not_meets_one {set : Char -> Bool} {rest : Pattern} {behind : List Char} {q : Place} :
    ¬ Meets (.one set :: rest) ⟨behind, []⟩ q := by
  intro met
  cases met

theorem meets_lineStart_iff {rest : Pattern} {p q : Place} :
    Meets (.lineStart :: rest) p q ↔ atLineStart p.behind = true ∧ Meets rest p q := by
  constructor
  · intro met
    cases met with
    | lineStart starts met => exact ⟨starts, met⟩
  · rintro ⟨starts, met⟩
    exact .lineStart starts met

theorem meets_wordStart_iff {rest : Pattern} {p q : Place} :
    Meets (.wordStart :: rest) p q ↔ atWordStart p.behind = true ∧ Meets rest p q := by
  constructor
  · intro met
    cases met with
    | wordStart starts met => exact ⟨starts, met⟩
  · rintro ⟨starts, met⟩
    exact .wordStart starts met

theorem meets_many_iff {set : Char -> Bool} {rest : Pattern} {behind ahead : List Char} {c : Char} {q : Place} :
    Meets (.many set :: rest) ⟨behind, c :: ahead⟩ q ↔
      Meets rest ⟨behind, c :: ahead⟩ q ∨ set c = true ∧ Meets (.many set :: rest) ⟨c :: behind, ahead⟩ q := by
  constructor
  · intro met
    cases met with
    | manyNone met => exact .inl met
    | manyMore inside met => exact .inr ⟨inside, met⟩
  · rintro (met | ⟨inside, met⟩)
    · exact .manyNone met
    · exact .manyMore inside met

theorem meets_many_end_iff {set : Char -> Bool} {rest : Pattern} {behind : List Char} {q : Place} :
    Meets (.many set :: rest) ⟨behind, []⟩ q ↔ Meets rest ⟨behind, []⟩ q := by
  constructor
  · intro met
    cases met with
    | manyNone met => exact met
  · exact .manyNone

theorem takeMany_isSome {Result : Type} {set : Char -> Bool} {rest : Pattern}
    {next : Place -> Option Result} {goal : Place -> Prop}
    (sound : ∀ p, (next p).isSome = true ↔ ∃ q, Meets rest p q ∧ goal q)
    (behind ahead : List Char) :
    (takeMany set next behind ahead).isSome = true ↔
      ∃ q, Meets (.many set :: rest) ⟨behind, ahead⟩ q ∧ goal q := by
  induction ahead generalizing behind with
  | nil => simp only [takeMany, sound, meets_many_end_iff]
  | cons c ahead ih =>
    simp only [meets_many_iff, or_and_right, exists_or, ← sound]
    unfold takeMany
    split
    next result found => simp [found]
    next failed =>
      -- The run goes on only because what follows it fails here, so no way ends the run here.
      by_cases inside : set c = true
      · simp [failed, inside, ih]
      · simp [failed, inside]

/-- A pattern can be met from a place on the way to a success of `next` exactly if some part of the
text meets it and `next` succeeds at its end. -/
theorem meet_isSome {Result : Type} (pattern : Pattern) (next : Place -> Option Result)
    (p : Place) :
    (meet pattern next p).isSome = true ↔
      ∃ q, Meets pattern p q ∧ (next q).isSome = true := by
  induction pattern generalizing p with
  | nil =>
    constructor
    · exact fun reached => ⟨p, .done p, reached⟩
    · rintro ⟨q, met, reached⟩
      cases met
      exact reached
  | cons item rest ih =>
    obtain ⟨behind, ahead⟩ := p
    change (takeItem item (meet rest next) ⟨behind, ahead⟩).isSome = true ↔ _
    -- An item either passes to the rest of the pattern at a known place, or fails for every continuation.
    cases item with
    | many set => exact takeMany_isSome ih behind ahead
    | one set =>
      cases ahead with
      | nil => simp [takeItem, not_meets_one]
      | cons c ahead => by_cases inside : set c = true <;> simp [takeItem, meets_one_iff, inside, ih]
    | lineStart =>
      by_cases starts : atLineStart behind = true <;> simp [takeItem, meets_lineStart_iff, starts, ih]
    | wordStart =>
      by_cases starts : atWordStart behind = true <;> simp [takeItem, meets_wordStart_iff, starts, ih]

theorem meet_cons {Result : Type} (item : Item) (rest : Pattern) (next : Place -> Option Result)
    (p : Place) : meet (item :: rest) next p = takeItem item (meet rest next) p := rfl

end Pattern

end Stowage

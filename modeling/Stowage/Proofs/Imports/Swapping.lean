import Stowage.Proofs.Imports.Gathering

set_option autoImplicit false

namespace Stowage.Imports

open Pattern (literal blanks meet meet_append meet_inStep meet_none InStep)

/-- A specifier that neither starts by closing a call nor ends by opening one. Between two such specifiers
nothing else is read as a specifier. -/
structure Bare (specifier : List Char) : Prop where
  filled : specifier ≠ []
  inside : ∀ c ∈ specifier, isSpecifierChar c = true
  starts : (specifier.dropWhile Text.isBlank).head? ≠ some ')'
  ends : (specifier.reverse.dropWhile Text.isBlank).head? ≠ some '('

instance (specifier : List Char) : Decidable (Bare specifier) :=
  decidable_of_iff
    (specifier ≠ [] ∧ specifier.all isSpecifierChar = true ∧
      (specifier.dropWhile Text.isBlank).head? ≠ some ')' ∧
      (specifier.reverse.dropWhile Text.isBlank).head? ≠ some '(')
    ⟨fun ⟨filled, inside, starts, ends⟩ => ⟨filled, List.all_eq_true.1 inside, starts, ends⟩,
      fun bare => ⟨bare.filled, List.all_eq_true.2 bare.inside, bare.starts, bare.ends⟩⟩

theorem Bare.opened {read start more : List Char} (bare : Bare (read ++ (start ++ '(' :: more))) :
    ∃ c ∈ more, Text.isBlank c = false := by
  cases blank : more.all Text.isBlank with
  | false => simpa using blank
  | true =>
    refine absurd ?_ bare.ends
    have all : ∀ c ∈ more.reverse, Text.isBlank c = true := by
      intro c member
      exact List.all_eq_true.1 blank c (List.mem_reverse.1 member)
    have paren : Text.isBlank '(' = false := by decide
    simp [List.dropWhile_append_of_pos all, paren]

/-- A text in which `old` stands between quotes, and what is to stand there. -/
structure Swap where
  front : List Char
  opening : Char
  old : List Char
  new : List Char
  closing : Char
  rest : List Char
  opens : isQuote opening = true
  closes : isQuote closing = true
  bare : Bare old
  bare' : Bare new

namespace Swap

variable (w : Swap)

def before : List Char := w.front ++ [w.opening]

def after : List Char := w.closing :: w.rest

def source : List Char := w.before ++ (w.old ++ w.after)

def target : List Char := w.before ++ (w.new ++ w.after)

/-- A place of the one text and the same place of the other. -/
inductive Alike : Place -> Place -> Prop
  | early (behind left : List Char) (whole : behind.reverse ++ left = w.before) :
    Alike ⟨behind, left ++ (w.old ++ w.after)⟩ ⟨behind, left ++ (w.new ++ w.after)⟩
  | late (read left : List Char) (whole : read.reverse ++ left = w.after) :
    Alike ⟨read ++ (w.old.reverse ++ w.before.reverse), left⟩
      ⟨read ++ (w.new.reverse ++ w.before.reverse), left⟩

inductive Early : Place -> Place -> Prop
  | mk (behind : List Char) (c : Char) (left : List Char) (whole : behind.reverse ++ c :: left = w.before) :
    Early ⟨behind, c :: (left ++ (w.old ++ w.after))⟩ ⟨behind, c :: (left ++ (w.new ++ w.after))⟩

inductive Late : Place -> Place -> Prop
  | mk (c : Char) (read left : List Char) (whole : (c :: read).reverse ++ left = w.after) :
    Late ⟨c :: (read ++ (w.old.reverse ++ w.before.reverse)), left⟩
      ⟨c :: (read ++ (w.new.reverse ++ w.before.reverse)), left⟩

structure Same (m m' : Occurrence) : Prop where
  first : w.Alike m.first m'.first
  last : w.Alike m.last m'.last
  after : w.Alike m.after m'.after
  specifier : (m.first.index = w.before.length ∧ m.specifier = w.old ∧ m'.specifier = w.new) ∨
    (m.first.index ≠ w.before.length ∧ m'.specifier = m.specifier)

variable {w}

theorem Early.alike {p p' : Place} (early : w.Early p p') : w.Alike p p' := by
  cases early with
  | mk behind c left whole => exact .early behind (c :: left) whole

theorem Late.alike {p p' : Place} (late : w.Late p p') : w.Alike p p' := by
  cases late with
  | mk c read left whole => exact .late (c :: read) left whole

theorem opening_of_whole {behind : List Char} {c : Char} (whole : behind.reverse ++ [c] = w.before) :
    c = w.opening ∧ c :: behind = w.before.reverse := by
  refine ⟨?_, ?_⟩
  · have ends := congrArg List.getLast? whole
    simpa [before] using ends
  · rw [← whole]
    simp

theorem early_inStep (pattern : Pattern) (unquoted : Unquoted pattern) : InStep pattern w.Early := by
  refine ⟨?_, ?_⟩
  · rintro _ _ ⟨behind, c, left, whole⟩
    rfl
  · rintro _ _ ⟨behind, c, left, whole⟩
    refine .inr ⟨c, _, _, rfl, rfl, fun taken => ?_⟩
    obtain ⟨item, member, takes⟩ := taken
    cases left with
    | nil =>
      obtain ⟨rfl, -⟩ := opening_of_whole whole
      rw [unquoted item member _ w.opens] at takes
      cases takes
    | cons next left => exact .mk (c :: behind) next left (by simpa using whole)

theorem late_inStep (pattern : Pattern) : InStep pattern w.Late := by
  refine ⟨?_, ?_⟩
  · rintro _ _ ⟨c, read, left, whole⟩
    rfl
  · rintro _ _ ⟨c, read, left, whole⟩
    cases left with
    | nil => exact .inl ⟨rfl, rfl⟩
    | cons next left =>
      exact .inr ⟨next, _, _, rfl, rfl, fun _ => .mk next (c :: read) left (by simpa using whole)⟩

theorem meet_closing_none (specifier : List Char)
    (starts : (specifier.dropWhile Text.isBlank).head? ≠ some ')') (quoted : Char)
    (closes : isQuote quoted = true) (rest behind : List Char) (next : Place -> Option Occurrence) :
    meet (blanks ++ literal ")") next ⟨behind, specifier ++ quoted :: rest⟩ = none := by
  have closed : ∀ c, c ≠ ')' -> ∀ behind rest, meet (literal ")") next ⟨behind, c :: rest⟩ = none := by
    intro c differs behind rest
    change Pattern.takeItem (.one (· == ')')) next ⟨behind, c :: rest⟩ = none
    simp [Pattern.takeItem, differs]
  -- Only blanks may stand before the bracket, and the first character that is none is not the bracket.
  have other : quoted ≠ ')' ∧ Text.isBlank quoted = false := by
    rcases (isQuote_iff quoted).1 closes with rfl | rfl <;> decide
  rw [meet_append]
  change Pattern.takeMany Text.isBlank (meet (literal ")") next) behind (specifier ++ quoted :: rest) = none
  induction specifier generalizing behind with
  | nil => simp [Pattern.takeMany, closed quoted other.1, other.2]
  | cons c more ih =>
    cases blank : Text.isBlank c with
    | false =>
      have differs : c ≠ ')' := by
        rintro rfl
        simp [blank] at starts
      simp [Pattern.takeMany, closed c differs, blank]
    | true =>
      have differs : c ≠ ')' := by
        rintro rfl
        exact absurd blank (by decide)
      rw [List.dropWhile_cons_of_pos blank] at starts
      have later := ih starts (c :: behind)
      simp [Pattern.takeMany, closed c differs, blank, later]

theorem meet_opening_none (left : List Char) (inside : ∀ c ∈ left, isQuote c = false)
    (solid : ∃ c ∈ left, Text.isBlank c = false) (next : Place -> Option Occurrence)
    (behind rest : List Char) : meet (blanks ++ quote) next ⟨behind, left ++ rest⟩ = none := by
  rw [meet_append]
  change Pattern.takeMany Text.isBlank (meet quote next) behind (left ++ rest) = none
  induction left generalizing behind with
  | nil =>
    obtain ⟨c, impossible, -⟩ := solid
    cases impossible
  | cons c more ih =>
    have closed : meet quote next ⟨behind, c :: (more ++ rest)⟩ = none := by
      change (if isQuote c = true then _ else none) = none
      simp [inside c List.mem_cons_self]
    rw [List.cons_append, Pattern.takeMany, closed]
    cases blank : Text.isBlank c with
    | false => rfl
    | true =>
      refine ih (fun d member => inside d (List.mem_cons_of_mem _ member)) ?_ (c :: behind)
      obtain ⟨d, member, other⟩ := solid
      rcases List.mem_cons.1 member with rfl | later
      · rw [blank] at other
        cases other
      · exact ⟨d, later, other⟩

section

variable {form : Form} (proper : form.Proper)

include proper

theorem unquoted_closing : Unquoted form.closing := by
  rcases proper.closing with none | call
  · rw [none]
    exact fun item impossible => (nomatch impossible)
  · rw [call]
    exact unquoted_append unquoted_blanks (unquoted_literal ")" (by simp [isQuote]))

theorem close_early {p p' : Place} (early : w.Early p p') :
    Option.Rel w.Same (form.close p) (form.close p') := by
  obtain ⟨behind, c, left, whole⟩ := early
  have short : behind.length ≠ w.before.length := by
    rw [← whole]
    simp
  unfold Form.close
  change Option.Rel w.Same (if isSpecifierChar c = true then _ else none)
    (if isSpecifierChar c = true then _ else none)
  split
  case isFalse => exact .none
  simp only
  rcases specifier_split (c :: left) with all | ⟨specifier, stop, later, split, inside, stops⟩
  · -- The opening quote is on the way.
    have ends : w.opening ∈ c :: left := by
      have last := congrArg List.getLast? whole
      simp only [before, List.getLast?_append, List.getLast?_singleton, Option.some_or] at last
      exact List.mem_of_getLast? (by simpa [List.getLast?_cons] using last)
    have known := all _ ends
    rw [stops_of_isQuote w.opens] at known
    cases known
  · have reached : ∀ tail : List Char, specifierEnd behind (c :: (left ++ tail)) =
        ⟨specifier.reverse ++ behind, stop :: (later ++ tail)⟩ := by
      intro tail
      rw [← List.cons_append, split, List.append_assoc, List.cons_append]
      exact specifierEnd_append _ _ _ _ inside stops
    have spelt : ∀ tail : List Char, (Place.mk behind (c :: (left ++ tail))).upTo
        ⟨specifier.reverse ++ behind, stop :: (later ++ tail)⟩ = specifier := by
      intro tail
      rw [← List.cons_append, split, List.append_assoc, List.cons_append]
      exact upTo_append _ _ _
    have same : ∀ q q', w.Alike q q' -> w.Same
        ⟨⟨behind, c :: (left ++ (w.old ++ w.after))⟩,
          ⟨specifier.reverse ++ behind, stop :: (later ++ (w.old ++ w.after))⟩, q⟩
        ⟨⟨behind, c :: (left ++ (w.new ++ w.after))⟩,
          ⟨specifier.reverse ++ behind, stop :: (later ++ (w.new ++ w.after))⟩, q'⟩ := by
      intro q q' alike
      refine ⟨.early behind (c :: left) whole, .early _ (stop :: later) ?_, alike, .inr ⟨short, ?_⟩⟩
      · rw [← whole, split]
        simp
      · exact (spelt (w.new ++ w.after)).trans (spelt (w.old ++ w.after)).symm
    have onward : (stop :: (specifier.reverse ++ behind)).reverse ++ later = w.before := by
      rw [← whole, split]
      simp
    simp only [reached, meet_quote]
    split
    case isFalse => exact .none
    -- Unless the specifier ends at the opening quote, its end is met before that.
    cases later with
    | cons next later =>
      exact meet_inStep form.closing (early_inStep form.closing (unquoted_closing proper))
        (fun q q' here => .some (same q q' here.alike)) _ _ (.mk _ next later onward)
    | nil =>
      rcases proper.closing with none | call
      · rw [none]
        exact .some (same _ _ (.early _ [] onward))
      · have closed := meet_closing_none w.old w.bare.starts w.closing w.closes
        have closed' := meet_closing_none w.new w.bare'.starts w.closing w.closes
        rw [call]
        simp only [List.nil_append, after, closed, closed']
        exact .none

omit proper in
theorem close_start : Option.Rel w.Same (form.close ⟨w.before.reverse, w.old ++ w.after⟩)
    (form.close ⟨w.before.reverse, w.new ++ w.after⟩) := by
  have reached : ∀ specifier, Bare specifier -> specifierEnd w.before.reverse (specifier ++ w.after) =
      ⟨specifier.reverse ++ w.before.reverse, w.closing :: w.rest⟩ := fun specifier bare =>
    specifierEnd_append _ _ _ _ bare.inside (stops_of_isQuote w.closes)
  have starts : ∀ specifier, Bare specifier ->
      startsSpecifier ⟨w.before.reverse, specifier ++ w.after⟩ = true := by
    rintro (_ | ⟨c, specifier⟩) bare
    · exact absurd rfl bare.filled
    · exact bare.inside c List.mem_cons_self
  unfold Form.close
  simp only [starts _ w.bare, starts _ w.bare', reached _ w.bare, reached _ w.bare', meet_quote, w.closes,
    if_true]
  refine meet_inStep form.closing (late_inStep form.closing) ?_ _ _ (.mk w.closing [] w.rest rfl)
  intro q q' here
  refine .some ⟨.early _ [] (by simp), .late [] _ rfl, here.alike, .inl ⟨?_, ?_, ?_⟩⟩
  · simp [Place.index]
  · exact upTo_append _ _ _
  · exact upTo_append _ _ _

omit proper in
theorem close_late {p p' : Place} (late : w.Late p p') :
    Option.Rel w.Same (form.close p) (form.close p') := by
  obtain ⟨c, read, left, whole⟩ := late
  unfold Form.close
  change Option.Rel w.Same (if startsSpecifier ⟨[], left⟩ = true then _ else none)
    (if startsSpecifier ⟨[], left⟩ = true then _ else none)
  split
  case isFalse => exact .none
  simp only
  rcases specifier_split left with all | ⟨specifier, stop, later, rfl, inside, stops⟩
  · rw [specifierEnd_all _ _ all, specifierEnd_all _ _ all]
    exact .none
  · simp only [specifierEnd_append _ _ _ _ inside stops, meet_quote]
    split
    case isFalse => exact .none
    have onward : (stop :: (specifier.reverse ++ c :: read)).reverse ++ later = w.after := by
      rw [← whole]
      simp
    -- The closing goes on behind the swapped text too, where every meeting is in step.
    have ends : w.Late
        ⟨stop :: (specifier.reverse ++ c :: (read ++ (w.old.reverse ++ w.before.reverse))), later⟩
        ⟨stop :: (specifier.reverse ++ c :: (read ++ (w.new.reverse ++ w.before.reverse))), later⟩ := by
      simpa using Late.mk stop (specifier.reverse ++ c :: read) later onward
    refine meet_inStep form.closing (late_inStep form.closing) ?_ _ _ ends
    intro q q' here
    have last : w.Alike
        ⟨specifier.reverse ++ c :: (read ++ (w.old.reverse ++ w.before.reverse)), stop :: later⟩
        ⟨specifier.reverse ++ c :: (read ++ (w.new.reverse ++ w.before.reverse)), stop :: later⟩ := by
      have spelt : (specifier.reverse ++ c :: read).reverse ++ stop :: later = w.after := by
        rw [← onward]
        simp
      simpa using Alike.late (specifier.reverse ++ c :: read) (stop :: later) spelt
    refine .some ⟨.late (c :: read) _ whole, last, here.alike, .inr ⟨?_, ?_⟩⟩
    · simp only [Place.index, List.length_cons, List.length_append, List.length_reverse]
      omega
    · exact (upTo_append _ _ _).trans (upTo_append _ _ _).symm

theorem matchAt_early {p p' : Place} (early : w.Early p p') :
    Option.Rel w.Same (form.matchAt p) (form.matchAt p') := by
  obtain ⟨front, opening, unquoted, -⟩ := proper.opening
  unfold Form.matchAt
  rw [opening, meet_append]
  refine meet_inStep front (early_inStep front unquoted) ?_ p p' early
  rintro _ _ ⟨behind, c, left, whole⟩
  change Option.Rel w.Same (if isQuote c = true then form.close _ else none)
    (if isQuote c = true then form.close _ else none)
  split
  case isFalse => exact .none
  cases left with
  | nil =>
    rw [(opening_of_whole whole).2]
    exact close_start
  | cons next left => exact close_early proper (.mk (c :: behind) next left (by simpa using whole))

omit proper in
theorem matchAt_late {p p' : Place} (late : w.Late p p') :
    Option.Rel w.Same (form.matchAt p) (form.matchAt p') :=
  meet_inStep form.opening (late_inStep form.opening) (fun _ _ here => close_late here) p p' late

theorem matchAt_inside (read left : List Char) (bare : Bare (read ++ left)) :
    form.matchAt ⟨read.reverse ++ w.before.reverse, left ++ w.after⟩ = none := by
  obtain ⟨front, opening, unquoted, begins⟩ := proper.opening
  unfold Form.matchAt
  rw [opening, meet_append]
  have unquoted' : ∀ c ∈ left, isQuote c = false := by
    intro c member
    have plain := bare.inside c (List.mem_append_right _ member)
    cases quoted : isQuote c with
    | false => rfl
    | true =>
      rw [stops_of_isQuote quoted] at plain
      cases plain
  rcases begins with lined | ⟨start, rfl⟩
  · obtain ⟨rest, rfl⟩ := List.head?_eq_some_iff.1 lined
    have within : Pattern.atLineStart (read.reverse ++ w.before.reverse) = false := by
      rw [Pattern.atLineStart_eq]
      rcases List.eq_nil_or_concat read with rfl | ⟨more, c, rfl⟩
      · rcases (isQuote_iff _).1 w.opens with quote | quote <;> simp [before, quote]
      · have plain := bare.inside c (by simp)
        have differs : c ≠ '\n' := by
          rintro rfl
          cases plain
        simp [differs]
    change Pattern.takeItem .lineStart _ _ = none
    simp [Pattern.takeItem, within]
  · rw [meet_append]
    -- A call would open with the quote that closes the specifier, after its last parenthesis.
    refine meet_none start
      (fun p => ∃ left, p.ahead = left ++ w.after ∧ (∀ c ∈ left, isQuote c = false) ∧
        ∀ front more, left = front ++ '(' :: more -> ∃ c ∈ more, Text.isBlank c = false) _ ?_ ?_ _
      ⟨left, rfl, unquoted', fun front more split => Bare.opened (by rwa [← split])⟩
    · rintro p c more ⟨left, ahead, plain, solid⟩ next ⟨item, member, takes⟩
      rw [ahead] at next
      cases left with
      | nil =>
        cases next
        rw [unquoted item (List.mem_append_left _ member) _ w.closes] at takes
        cases takes
      | cons first left =>
        cases next
        refine ⟨left, rfl, fun d inside => plain d (List.mem_cons_of_mem _ inside), ?_⟩
        rintro front more rfl
        exact solid (c :: front) more rfl
    · rintro ⟨behind, ahead⟩ ⟨left, rfl, plain, solid⟩
      cases left with
      | nil =>
        change (if (w.closing == '(') = true then _ else none) = none
        rcases (isQuote_iff _).1 w.closes with quote | quote <;> simp [quote]
      | cons first left =>
        change (if (first == '(') = true then meet (blanks ++ quote) _ ⟨_, left ++ w.after⟩ else none) = none
        split
        next same =>
          obtain rfl := beq_iff_eq.1 same
          exact meet_opening_none left (fun d inside => plain d (List.mem_cons_of_mem _ inside))
            (solid [] left rfl) _ _ _
        · rfl

theorem occurrencesFrom_inside (specifier : List Char) (bare : Bare specifier) (read left : List Char)
    (split : specifier = read ++ left) :
    form.occurrencesFrom 0 (read.reverse ++ w.before.reverse) (left ++ w.after) =
      form.occurrencesFrom 0 (w.closing :: (specifier.reverse ++ w.before.reverse)) w.rest := by
  induction left generalizing read with
  | nil =>
    rw [List.append_nil] at split
    have none : form.matchAt ⟨specifier.reverse ++ w.before.reverse, w.closing :: w.rest⟩ = .none :=
      matchAt_inside proper specifier [] (by rwa [List.append_nil])
    change form.occurrencesFrom 0 _ (w.closing :: w.rest) = _
    rw [← split, Form.occurrencesFrom]
    simp only [none]
  | cons c left ih =>
    have none := matchAt_inside proper (w := w) read (c :: left) (by rwa [← split])
    have onward := ih (read ++ [c]) (by rw [split, List.append_assoc, List.singleton_append])
    rw [List.reverse_append, List.reverse_singleton, List.singleton_append, List.cons_append] at onward
    rw [List.cons_append] at none ⊢
    rw [Form.occurrencesFrom]
    simp only [none]
    exact onward

end

theorem Alike.index {p p' : Place} (alike : w.Alike p p') :
    (p.index = p'.index ∧ p.index ≤ w.before.length) ∨
      ∃ steps, p.index = steps + (w.old.length + w.before.length) ∧
        p'.index = steps + (w.new.length + w.before.length) := by
  cases alike with
  | early behind left whole =>
    refine .inl ⟨rfl, ?_⟩
    rw [← whole]
    simp [Place.index]
  | late read left whole => exact .inr ⟨read.length, by simp [Place.index], by simp [Place.index]⟩

section

variable {form : Form} (proper : form.Proper)

include proper

omit proper in
theorem occurrencesFrom_late (left : List Char) : ∀ (skip : Nat) (c : Char) (read : List Char),
    (c :: read).reverse ++ left = w.after ->
      List.Forall₂ w.Same
        (form.occurrencesFrom skip (c :: (read ++ (w.old.reverse ++ w.before.reverse))) left)
        (form.occurrencesFrom skip (c :: (read ++ (w.new.reverse ++ w.before.reverse))) left) := by
  induction left with
  | nil =>
    intro skip c read _
    cases skip <;> exact .nil
  | cons next left ih =>
    intro skip c read whole
    have onward := fun skip => ih skip next (c :: read) (by simpa using whole)
    cases skip with
    | succ skip => exact onward skip
    | zero =>
      have matched : Option.Rel w.Same
          (form.matchAt ⟨c :: (read ++ (w.old.reverse ++ w.before.reverse)), next :: left⟩)
          (form.matchAt ⟨c :: (read ++ (w.new.reverse ++ w.before.reverse)), next :: left⟩) :=
        matchAt_late (.mk c read (next :: left) whole)
      rw [Form.occurrencesFrom, Form.occurrencesFrom]
      generalize form.matchAt ⟨c :: (read ++ (w.old.reverse ++ w.before.reverse)), next :: left⟩ = found
        at matched ⊢
      generalize form.matchAt ⟨c :: (read ++ (w.new.reverse ++ w.before.reverse)), next :: left⟩ = found'
        at matched ⊢
      cases matched with
      | none => exact onward 0
      | @some m m' same =>
        -- What a match leaves to pass over is counted from alike places, and so is the same.
        have skips : m.after.index - (c :: (read ++ (w.old.reverse ++ w.before.reverse))).length - 1 =
            m'.after.index - (c :: (read ++ (w.new.reverse ++ w.before.reverse))).length - 1 := by
          simp only [List.length_cons, List.length_append, List.length_reverse]
          rcases same.after.index with ⟨one, two⟩ | ⟨steps, one, two⟩ <;> omega
        refine .cons same ?_
        rw [skips]
        exact onward _

def Skips (left : List Char) (skip skip' : Nat) : Prop :=
  (skip = skip' ∧ skip ≤ left.length) ∨
    ∃ more, skip = left.length + (w.old.length + more) ∧ skip' = left.length + (w.new.length + more)

theorem occurrencesFrom_start (skip skip' : Nat) (skips : w.Skips [] skip skip') :
    List.Forall₂ w.Same (form.occurrencesFrom skip w.before.reverse (w.old ++ w.after))
      (form.occurrencesFrom skip' w.before.reverse (w.new ++ w.after)) := by
  have later : ∀ skip, List.Forall₂ w.Same
      (form.occurrencesFrom skip (w.closing :: (w.old.reverse ++ w.before.reverse)) w.rest)
      (form.occurrencesFrom skip (w.closing :: (w.new.reverse ++ w.before.reverse)) w.rest) :=
    fun skip => occurrencesFrom_late w.rest skip w.closing [] rfl
  -- Within a bare specifier nothing is found, so that both searches come to the same closing quote.
  have none : form.occurrencesFrom 0 (w.old.reverse ++ w.before.reverse) w.after =
      form.occurrencesFrom 0 (w.closing :: (w.old.reverse ++ w.before.reverse)) w.rest :=
    occurrencesFrom_inside proper w.old w.bare w.old [] (List.append_nil _).symm
  have none' : form.occurrencesFrom 0 (w.new.reverse ++ w.before.reverse) w.after =
      form.occurrencesFrom 0 (w.closing :: (w.new.reverse ++ w.before.reverse)) w.rest :=
    occurrencesFrom_inside proper w.new w.bare' w.new [] (List.append_nil _).symm
  rcases skips with ⟨rfl, short⟩ | ⟨more, rfl, rfl⟩
  · obtain rfl := Nat.le_zero.1 short
    have inside : form.occurrencesFrom 0 w.before.reverse (w.old ++ w.after) =
        form.occurrencesFrom 0 (w.closing :: (w.old.reverse ++ w.before.reverse)) w.rest :=
      occurrencesFrom_inside proper w.old w.bare [] w.old rfl
    have inside' : form.occurrencesFrom 0 w.before.reverse (w.new ++ w.after) =
        form.occurrencesFrom 0 (w.closing :: (w.new.reverse ++ w.before.reverse)) w.rest :=
      occurrencesFrom_inside proper w.new w.bare' [] w.new rfl
    rw [inside, inside']
    exact later 0
  · rw [List.length_nil, Nat.zero_add, Nat.zero_add, Form.occurrencesFrom_skip, Form.occurrencesFrom_skip]
    cases more with
    | zero =>
      rw [none, none']
      exact later 0
    | succ more => exact later more

theorem occurrencesFrom_early (left : List Char) : ∀ (behind : List Char) (skip skip' : Nat),
    behind.reverse ++ left = w.before -> w.Skips left skip skip' ->
      List.Forall₂ w.Same (form.occurrencesFrom skip behind (left ++ (w.old ++ w.after)))
        (form.occurrencesFrom skip' behind (left ++ (w.new ++ w.after))) := by
  induction left with
  | nil =>
    intro behind skip skip' whole skips
    have start := occurrencesFrom_start proper skip skip' skips
    rw [← whole] at start
    simpa using start
  | cons c left ih =>
    intro behind skip skip' whole skips
    have onward := fun skip skip' => ih (c :: behind) skip skip' (by simpa using whole)
    have long : w.before.length = behind.length + (left.length + 1) := by
      rw [← whole]
      simp
    cases skip with
    | succ skip =>
      cases skip' with
      | zero =>
        rcases skips with ⟨impossible, -⟩ | ⟨more, -, impossible⟩
        · cases impossible
        · simp only [List.length_cons] at impossible
          omega
      | succ skip' =>
        refine onward skip skip' ?_
        rcases skips with ⟨same, short⟩ | ⟨more, one, two⟩
        · exact .inl ⟨Nat.succ.inj same, Nat.le_of_succ_le_succ short⟩
        · refine .inr ⟨more, ?_, ?_⟩ <;> simp only [List.length_cons] at one two <;> omega
    | zero =>
      obtain rfl : skip' = 0 := by
        rcases skips with ⟨same, -⟩ | ⟨more, impossible, -⟩
        · exact same.symm
        · simp only [List.length_cons] at impossible
          omega
      -- A match of the one text is a match of the other, and leaves as much to pass over.
      have matched := matchAt_early proper (.mk behind c left whole)
      rw [List.cons_append, List.cons_append, Form.occurrencesFrom, Form.occurrencesFrom]
      generalize form.matchAt ⟨behind, c :: (left ++ (w.old ++ w.after))⟩ = found at matched ⊢
      generalize form.matchAt ⟨behind, c :: (left ++ (w.new ++ w.after))⟩ = found' at matched ⊢
      cases matched with
      | none => exact onward 0 0 (.inl ⟨rfl, Nat.zero_le _⟩)
      | @some m m' same =>
        refine .cons same (onward _ _ ?_)
        rcases same.after.index with ⟨one, two⟩ | ⟨steps, one, two⟩
        · exact .inl (by omega)
        · exact .inr ⟨steps, by omega, by omega⟩

theorem occurrences_swap :
    List.Forall₂ w.Same (form.occurrences w.source) (form.occurrences w.target) :=
  occurrencesFrom_early proper w.before [] 0 0 rfl (.inl ⟨rfl, Nat.zero_le _⟩)

end

theorem Alike.index_le_iff {p p' q q' : Place} (first : w.Alike p p') (second : w.Alike q q') :
    p.index ≤ q.index ↔ p'.index ≤ q'.index := by
  have filled := List.length_pos_iff.2 w.bare.filled
  have filled' := List.length_pos_iff.2 w.bare'.filled
  rcases first.index with ⟨one, two⟩ | ⟨steps, one, two⟩ <;>
    rcases second.index with ⟨three, four⟩ | ⟨more, three, four⟩ <;> omega

end Swap

end Stowage.Imports

import Mathlib.Data.List.TakeWhile
import Stowage.Proofs.Imports.Matching
import Stowage.Proofs.Imports.Parts

set_option autoImplicit false

namespace Stowage.Imports

open Pattern (Meets literal blanks someBlanks)

structure Line where
  before : List Char
  chars : List Char
  after : List Char
  starts : ∀ c ∈ before.getLast?, c = '\n'
  ends : ∀ c ∈ after.head?, c = '\n'
  single : '\n' ∉ chars

namespace Line

def text (l : Line) : List Char := l.before ++ (l.chars ++ l.after)

def start (l : Line) : Nat := l.before.length

def stop (l : Line) : Nat := l.before.length + l.chars.length

def becomes (edits : List Edit) (l : Line) : List Char := part edits l.text l.start l.stop

def found (l : Line) : List Occurrence := (occurrences l.text).filter (Occurrence.startsIn l.start l.stop)

/-- The first characters that are not blank are two slashes. -/
def IsComment (l : Line) : Prop := ['/', '/'] <+: l.chars.dropWhile Text.isBlank

instance (l : Line) : Decidable l.IsComment := inferInstanceAs (Decidable (_ <+: _))

/-- What makes a specifier in a line of comment pass for that of an import: a call in the line, or a statement that
began on a line before. -/
inductive Mistaken (l : Line) (m : Occurrence) : Prop
  | called (function : String) (p : Place) (known : function ∈ ["import", "require"]) (whole : p.text = l.text)
    (inside : l.start < p.index) (met : Meets (call function).opening p m.first)
  | continued (form : Form) (p : Place) (known : form = importFrom ∨ form = exportFrom) (whole : p.text = l.text)
    (earlier : p.index < l.start) (met : Meets form.opening p m.first)

end Line

theorem boundary_of_newline {text : List Char} {index : Nat} (newline : text[index]? = some '\n') :
    Boundary text index ∧ Boundary text (index + 1) := by
  refine ⟨fun m member before => ?_, fun m member before => ?_⟩ <;> by_contra past
  · exact (occurrences_spans text m member).level (by omega) (by omega) newline
  · exact (occurrences_spans text m member).level (by omega) (by omega) newline

namespace Line

variable (l : Line)

theorem start_le_stop : l.start ≤ l.stop := Nat.le_add_right _ _

theorem stop_le_length : l.stop ≤ l.text.length := by
  simp only [stop, text, List.length_append]
  omega

theorem chars_eq : (l.text.take l.stop).drop l.start = l.chars := by
  have whole : l.text = l.before ++ l.chars ++ l.after := (List.append_assoc _ _ _).symm
  rw [whole, List.take_left' (by simp [stop]), List.drop_left' (show l.before.length = l.start from rfl)]

theorem newline_at {index : Nat} (next : index + 1 = l.start) : l.text[index]? = some '\n' := by
  rcases List.eq_nil_or_concat' l.before with none | ⟨front, c, own⟩
  · simp [start, none] at next
  · have newline : c = '\n' := l.starts c (by simp [own])
    have length : index = front.length := by simpa [start, own] using next
    simp [text, own, newline, length]

theorem boundary_start : Boundary l.text l.start := by
  rcases Nat.eq_zero_or_eq_succ_pred l.start with first | next
  · intro m _ before
    rw [first] at before
    cases before
  · rw [next]
    exact (boundary_of_newline (l.newline_at next.symm)).2

theorem boundary_stop : Boundary l.text l.stop := by
  cases own : l.after with
  | nil =>
    intro m member _
    have within := last_index_lt l.text member
    simp only [text, own, List.length_append, List.length_nil] at within
    exact within
  | cons c rest =>
    have newline : c = '\n' := l.ends c (by simp [own])
    have found : l.text[l.stop]? = some '\n' := by
      rw [text, stop, own, ← List.append_assoc, List.getElem?_append_right (by simp)]
      simp [newline]
    exact (boundary_of_newline found).1

theorem text_at {index : Nat} (within : index < l.chars.length) : l.text[l.start + index]? = l.chars[index]? := by
  rw [text, start, List.getElem?_append_right (Nat.le_add_right _ _), Nat.add_sub_cancel_left,
    List.getElem?_append_left within]

theorem at_start {p : Place} (whole : p.text = l.text) (starts : Pattern.atLineStart p.behind = true)
    (before : p.index ≤ l.stop) : p.index ≤ l.start := by
  by_contra after
  obtain ⟨index, next⟩ : ∃ index, p.index = l.start + index + 1 := ⟨p.index - l.start - 1, by omega⟩
  have found := Pattern.newline_behind starts next
  simp only [stop, start] at next before
  rw [whole] at found
  rw [l.text_at (by omega)] at found
  exact l.single (List.mem_of_getElem? found)

end Line

def Slashless (pattern : Pattern) : Prop := ∀ item ∈ pattern, item.takes '/' = false

instance (pattern : Pattern) : Decidable (Slashless pattern) := inferInstanceAs (Decidable (∀ item ∈ pattern, _))

theorem Slashless.past {pattern : Pattern} (slashless : Slashless pattern) {p q : Place} (met : Meets pattern p q)
    {slash : Nat} (found : p.text[slash]? = some '/') (before : slash < q.index) : slash < p.index := by
  by_contra after
  obtain ⟨c, here, item, member, takes⟩ := met.passed (Nat.le_of_not_lt after) before
  obtain rfl : '/' = c := Option.some.inj (found.symm.trans here)
  rw [slashless item member] at takes
  cases takes

theorem Occurrence.Spans.quote_at {m : Occurrence} {text : List Char} (spans : m.Spans text) :
    ∃ quote index, m.first.index = index + 1 ∧ text[index]? = some quote ∧ isQuote quote = true := by
  obtain ⟨quote, front, behind, quoted⟩ := spans.opening
  refine ⟨quote, front.length, by simp [Place.index, behind], ?_, quoted⟩
  rw [← spans.whole, Place.text, behind]
  simp

theorem Meets.letter {set : Char -> Bool} {tail : Pattern} {p q : Place} (met : Meets (.one set :: tail) p q) :
    ∃ c, p.text[p.index]? = some c ∧ set c = true ∧ p.index < q.index := by
  cases met with
  | one taken onward =>
    refine ⟨_, by simp [Place.text, Place.index], taken, ?_⟩
    have passed := onward.index_le
    simp only [Place.index, List.length_cons] at passed ⊢
    omega

namespace Line

variable {l : Line} {blank rest : List Char}

theorem IsComment.slashes (comment : l.IsComment) :
    ∃ blank rest, l.chars = blank ++ '/' :: '/' :: rest ∧ ∀ c ∈ blank, Text.isBlank c = true := by
  obtain ⟨rest, split⟩ := comment
  refine ⟨l.chars.takeWhile Text.isBlank, rest, ?_, fun c member => List.mem_takeWhile_imp member⟩
  conv_lhs => rw [← List.takeWhile_append_dropWhile (p := Text.isBlank) (l := l.chars), ← split]
  rfl

section

variable (split : l.chars = blank ++ '/' :: '/' :: rest) (blanks : ∀ c ∈ blank, Text.isBlank c = true)

include split

theorem slash_at : l.text[l.start + blank.length]? = some '/' := by
  rw [l.text_at (by simp [split]), split]
  simp

include blanks

theorem blank_at {index : Nat} (after : l.start ≤ index) (before : index < l.start + blank.length) :
    ∃ c, l.text[index]? = some c ∧ Text.isBlank c = true := by
  have inside : index - l.start < blank.length := by omega
  refine ⟨blank[index - l.start], ?_, blanks _ (List.getElem_mem inside)⟩
  have within : index - l.start < l.chars.length := by
    rw [split, List.length_append]
    exact Nat.lt_add_right _ inside
  have found := l.text_at within
  rw [Nat.add_sub_cancel' after] at found
  rw [found, split, List.getElem?_append_left inside, List.getElem?_eq_getElem inside]

theorem slash_lt_first {m : Occurrence} (spans : m.Spans l.text) (starts : l.start ≤ m.first.index) :
    l.start + blank.length < m.first.index := by
  obtain ⟨quote, index, first, found, quoted⟩ := spans.quote_at
  have plain : ∀ c, isQuote c = true -> Text.isBlank c = false := by
    intro c quoted
    rcases (isQuote_iff c).1 quoted with rfl | rfl <;> decide
  by_contra before
  rcases Nat.lt_or_ge index l.start with early | inside
  · -- The quote would be the newline that ends the line before.
    have length := spans.last_index
    have next : index + 1 = l.start := by omega
    exact spans.level (Nat.le_of_eq first) (by omega) (l.newline_at next)
  · obtain ⟨c, here, isBlank⟩ := blank_at split blanks inside (by omega)
    obtain rfl : quote = c := Option.some.inj (found.symm.trans here)
    rw [plain quote quoted] at isBlank
    cases isBlank

theorem statement_early {word : String} {tail : Pattern} {p q : Place} (whole : p.text = l.text)
    (before : p.index ≤ l.stop) (solid : ∃ c ∈ word.toList.head?, Text.isBlank c = false)
    (slashless : Slashless ([.lineStart] ++ indent ++ literal word))
    (met : Meets ([.lineStart] ++ indent ++ literal word ++ tail) p q) : p.index < l.start := by
  obtain ⟨keyword, met, -⟩ := met.split _ _ rfl
  obtain ⟨first, indented, spelt⟩ := met.split _ _ rfl
  have level : p.index ≤ l.start := by
    cases indented with
    | lineStart starts onward => exact l.at_start whole starts before
  -- From the start of the line, all that is before the slashes is blank, and the keyword cannot be past them.
  refine Nat.lt_of_le_of_ne level fun starts => ?_
  have early : keyword.index ≤ l.start + blank.length := by
    by_contra past
    have later := slashless.past met (whole ▸ slash_at split) (Nat.lt_of_not_le past)
    omega
  obtain ⟨c, head, solid⟩ := solid
  obtain ⟨more, letters⟩ : ∃ more, literal word = .one (· == c) :: more := by
    obtain ⟨rest, own⟩ := List.head?_eq_some_iff.1 head
    exact ⟨rest.map fun letter => .one (· == letter), by rw [literal, own, List.map_cons]⟩
  obtain ⟨d, here, same, within⟩ := Meets.letter (letters ▸ spelt)
  have onward := indented.index_le
  have before : first.index < l.start + blank.length := by omega
  obtain ⟨d', here', isBlank⟩ := blank_at split blanks (by omega) before
  rw [indented.text_eq, whole, here'] at here
  obtain rfl := Option.some.inj here
  rw [eq_of_beq same, solid] at isBlank
  cases isBlank

end

theorem IsComment.mistaken (comment : l.IsComment) {m : Occurrence} (member : m ∈ occurrences l.text)
    (starts : l.start ≤ m.first.index) (ends : m.first.index < l.stop) : l.Mistaken m := by
  obtain ⟨front, rest, split, blank⟩ := comment.slashes
  have passed := slash_lt_first split blank (occurrences_spans l.text m member) starts
  obtain ⟨form, known, p, whole, matched⟩ := mem_occurrences l.text m member
  have met := (Form.matches_of_matchAt matched).opened
  have slash : p.text[l.start + front.length]? = some '/' := whole ▸ slash_at split
  have before : p.index ≤ l.stop := Nat.le_trans met.index_le (Nat.le_of_lt ends)
  -- The slashes are before the specifier, so an opening that takes no slash begins after them.
  have behind : Slashless form.opening -> l.start < p.index := by
    intro slashless
    have later := slashless.past met slash passed
    omega
  have early : ∀ word tail, form.opening = [.lineStart] ++ indent ++ literal word ++ tail ->
      (∃ c ∈ word.toList.head?, Text.isBlank c = false) -> Slashless ([.lineStart] ++ indent ++ literal word) ->
      p.index < l.start := by
    intro word tail opening solid slashless
    exact statement_early split blank whole before solid slashless (opening ▸ met)
  -- A bare import would have to begin both before the line and after the slashes.
  simp only [forms, List.mem_cons, List.not_mem_nil, or_false] at known
  rcases known with rfl | rfl | rfl | rfl | rfl
  · exact .continued importFrom p (.inl rfl) whole
      (early "import" (someBlanks ++ fromClause) (by simp [importFrom]) ⟨'i', rfl, by decide⟩ (by decide)) met
  · have first := early "import" (blanks ++ quote) (by simp [importOnly]) ⟨'i', rfl, by decide⟩ (by decide)
    have last := behind (by decide)
    omega
  · exact .continued exportFrom p (.inr rfl) whole
      (early "export" (someBlanks ++ fromClause) (by simp [exportFrom]) ⟨'e', rfl, by decide⟩ (by decide)) met
  · exact .called "import" p (by simp) whole (behind (by decide)) met
  · exact .called "require" p (by simp) whole (behind (by decide)) met

theorem mem_found {m : Occurrence} :
    m ∈ l.found ↔ m ∈ occurrences l.text ∧ l.start ≤ m.first.index ∧ m.first.index < l.stop := by
  rw [found, List.mem_filter, Occurrence.startsIn_iff]

theorem rewritten (edits : List Edit) (l : Line) :
    rewriteChars edits l.text =
      part edits l.text 0 l.start ++ (l.becomes edits ++ part edits l.text l.stop l.text.length) := by
  rw [rewriteChars_eq_part, part_append edits l.text (Nat.zero_le _) (Nat.le_trans l.start_le_stop l.stop_le_length)
    l.boundary_start, part_append edits l.text l.start_le_stop l.stop_le_length l.boundary_stop, becomes]

theorem becomes_eq_iff (edits : List Edit) (l : Line) :
    l.becomes edits = l.chars ↔ ∀ m ∈ l.found, respelled edits m.specifier = m.specifier := by
  have kept : l.becomes edits = (l.text.take l.stop).drop l.start ↔ _ := part_eq_iff edits l.text l.boundary_stop
  rw [l.chars_eq] at kept
  rw [kept]
  exact ⟨fun all m member => all m (mem_found.1 member).1 (mem_found.1 member).2.1 (mem_found.1 member).2.2,
    fun all m member starts ends => all m (mem_found.2 ⟨member, starts, ends⟩)⟩

/-- A line of comment is kept exactly if the edits keep every specifier found in it, and each of these is there by
mistake, of a call in the comment or of a statement that runs on into it. -/
theorem comment_kept_iff (edits : List Edit) (l : Line) (comment : l.IsComment) :
    (rewriteImports edits (String.ofList l.text)).toList =
      part edits l.text 0 l.start ++ (l.becomes edits ++ part edits l.text l.stop l.text.length) ∧
    (l.becomes edits = l.chars ↔ ∀ m ∈ l.found, respelled edits m.specifier = m.specifier) ∧
    ∀ m ∈ l.found, l.Mistaken m := by
  refine ⟨?_, l.becomes_eq_iff edits, fun m member => ?_⟩
  · rw [rewriteImports, String.toList_ofList, String.toList_ofList, rewritten]
  · obtain ⟨found, starts, ends⟩ := mem_found.1 member
    exact comment.mistaken found starts ends

def naming : Line where
  before := []
  chars := "// moved from './auth'".toList
  after := "\nimport { login } from './auth';\n".toList
  starts := by simp
  ends := by simp
  single := by decide

theorem naming_kept : naming.IsComment ∧ naming.becomes [⟨"./auth", "./authService"⟩] = naming.chars := by
  have none : naming.found = [] := List.isEmpty_iff.1 (by decide +kernel)
  have comment : naming.IsComment := by decide
  exact ⟨comment, (comment_kept_iff [⟨"./auth", "./authService"⟩] naming comment).2.1.2 (by simp [none])⟩

def calling : Line where
  before := []
  chars := "// require('./a')".toList
  after := []
  starts := by simp
  ends := by simp
  single := by decide

theorem not_comments_always_kept : ¬ ∀ (edits : List Edit) (l : Line), l.IsComment ->
    ∃ before after, (rewriteImports edits (String.ofList l.text)).toList = before ++ (l.chars ++ after) := by
  intro kept
  obtain ⟨before, after, same⟩ := kept [⟨"./a", "./b"⟩] calling (by decide)
  have changed : (rewriteImports [⟨"./a", "./b"⟩] (String.ofList calling.text)).toList =
      "// require('./b')".toList := by
    decide +kernel
  rw [changed] at same
  have length := congrArg List.length same
  simp only [List.length_append] at length
  have size : "// require('./b')".toList.length = calling.chars.length := by decide
  obtain rfl : before = [] := List.length_eq_zero_iff.1 (by omega)
  obtain rfl : after = [] := List.length_eq_zero_iff.1 (by omega)
  exact absurd same (by decide)

end Line

end Stowage.Imports

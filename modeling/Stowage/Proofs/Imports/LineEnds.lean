import Stowage.Proofs.Imports.Returns

set_option autoImplicit false

namespace Stowage

namespace Place

theorem index_withReturns_lt {p q : Place} (same : p.text = q.text) (later : p.index < q.index) :
    p.withReturns.index < q.withReturns.index := by
  obtain ⟨between, filled, split⟩ := behind_split same later
  have long := Text.withReturns_length_pos filled
  rw [index_withReturns, index_withReturns q, take_index, take_index, split, Text.withReturns_append,
    List.length_append]
  omega

theorem index_le_iff_withReturns {p q : Place} (same : p.text = q.text) :
    p.index ≤ q.index ↔ p.withReturns.index ≤ q.withReturns.index := by
  rcases Nat.lt_trichotomy p.index q.index with less | level | more
  · have later := index_withReturns_lt same less
    omega
  · rw [eq_of_index same level]
    simp
  · have later := index_withReturns_lt same.symm more
    omega

end Place

namespace Imports

open Pattern (Meets admitsReturns catchesUp needsNoReturns)

structure Form.EndsLines (form : Form) : Prop where
  opening : admitsReturns form.opening = true
  closing : admitsReturns (quote ++ form.closing) = true
  opening' : needsNoReturns form.opening = true
  closing' : needsNoReturns (specifierText ++ (quote ++ form.closing)) = true
  between : catchesUp false form.opening = true

theorem endsLines_of_mem (form : Form) (member : form ∈ forms) : form.EndsLines := by
  have checked : ∀ form ∈ forms, (admitsReturns form.opening && admitsReturns (quote ++ form.closing) &&
      needsNoReturns form.opening && needsNoReturns (specifierText ++ (quote ++ form.closing)) &&
      catchesUp false form.opening) = true := by decide +kernel
  have here := checked form member
  simp only [Bool.and_eq_true] at here
  exact ⟨here.1.1.1.1, here.1.1.1.2, here.1.1.2, here.1.2, here.2⟩

def Occurrence.withReturns (m : Occurrence) : Occurrence :=
  ⟨m.first.withReturns, m.last.withReturns, m.after.withReturns⟩

namespace Form

variable {form : Form}

theorem Proper.occurrencesFrom_found (proper : form.Proper) {p : Place} {m : Occurrence}
    (matched : form.matchAt p = some m) :
    form.occurrencesFrom 0 p.behind p.ahead = m :: form.occurrencesFrom 0 m.after.behind m.after.ahead := by
  have found := matches_of_matchAt matched
  have further := proper.matches_index_le found
  obtain ⟨taken, ahead, passed, -⟩ := found.met.taken
  cases taken with
  | nil =>
    have level : m.after.index = p.index := congrArg List.length passed
    omega
  | cons c taken =>
    obtain ⟨behind, _⟩ := p
    subst ahead
    have skip : m.after.index - behind.length - 1 = taken.length + 0 := by
      simp only [Place.index, passed, List.length_append, List.length_reverse, List.length_cons]
      omega
    have onward := form.occurrencesFrom_skip taken 0 (c :: behind) m.after.ahead
    rw [List.cons_append] at matched
    rw [List.cons_append, occurrencesFrom, matched]
    simp only [skip, onward, passed]
    simp

variable (proper : form.Proper) (ends : form.EndsLines)

include ends

theorem Matches.withReturns {p : Place} {m : Occurrence} (matched : form.Matches p m) :
    form.Matches p.withReturns m.withReturns where
  opened := matched.opened.withReturns ends.opening
  spelt := matched.spelt.withReturns (by decide)
  closed := matched.closed.withReturns ends.closing

theorem Matches.withoutReturns {p : Place} {m' : Occurrence} (matched : form.Matches p.withReturns m') :
    ∃ m, form.Matches p m := by
  obtain ⟨first, same, opened⟩ := matched.opened.withoutReturns ends.opening'
  have onward := matched.spelt.append matched.closed
  rw [← same] at onward
  obtain ⟨after, -, met⟩ := onward.withoutReturns ends.closing'
  obtain ⟨last, spelt, closed⟩ := met.split _ _ rfl
  exact ⟨⟨first, last, after⟩, opened, spelt, closed⟩

theorem matchAt_between (behind ahead : List Char) : form.matchAt ⟨'\r' :: behind, '\n' :: ahead⟩ = none := by
  cases matched : form.matchAt ⟨'\r' :: behind, '\n' :: ahead⟩ with
  | none => rfl
  | some m =>
    obtain ⟨impossible, -⟩ := (matches_of_matchAt matched).opened.caught ends.between
    cases impossible

include proper

theorem matchAt_withReturns (p : Place) :
    form.matchAt p.withReturns = (form.matchAt p).map Occurrence.withReturns := by
  cases matched : form.matchAt p with
  | some m => exact proper.matchAt_iff.2 ((matches_of_matchAt matched).withReturns ends)
  | none =>
    cases matched' : form.matchAt p.withReturns with
    | none => rfl
    | some m' =>
      obtain ⟨m, found⟩ := (matches_of_matchAt matched').withoutReturns ends
      rw [proper.matchAt_iff.2 found] at matched
      cases matched

theorem occurrencesFrom_withReturns (length : Nat) : ∀ p : Place, p.ahead.length = length ->
    form.occurrencesFrom 0 p.withReturns.behind p.withReturns.ahead =
      (form.occurrencesFrom 0 p.behind p.ahead).map Occurrence.withReturns := by
  induction length using Nat.strongRecOn with
  | ind length ih =>
    rintro ⟨behind, ahead⟩ rfl
    cases ahead with
    | nil => rfl
    | cons c rest =>
      have here := matchAt_withReturns proper ends ⟨behind, c :: rest⟩
      cases matched : form.matchAt ⟨behind, c :: rest⟩ with
      | none =>
        have onward := ih rest.length (Nat.lt_succ_self _) ⟨c :: behind, rest⟩ rfl
        rw [matched, Option.map_none] at here
        rw [occurrencesFrom, matched]
        -- Before a newline there is one place more, and no form is met there.
        by_cases newline : c = '\n'
        · subst newline
          rw [Place.withReturns_after_newline] at onward
          rw [Place.withReturns_before_newline] at here ⊢
          rw [occurrencesFrom, here]
          simp only
          rw [occurrencesFrom, matchAt_between ends]
          exact onward
        · rw [Place.withReturns_after _ _ newline] at onward
          rw [Place.withReturns_before _ _ newline] at here ⊢
          rw [occurrencesFrom, here]
          exact onward
      | some m =>
        have found := matches_of_matchAt matched
        have onward := ih m.after.ahead.length ?_ m.after rfl
        · rw [matched, Option.map_some] at here
          rw [proper.occurrencesFrom_found matched, List.map_cons, ← onward]
          exact proper.occurrencesFrom_found here
        · -- Less of the text is left behind what was found.
          have further := proper.matches_index_le found
          have whole := congrArg List.length found.met.text_eq
          simp only [Place.text, List.length_append, List.length_reverse] at whole
          simp only [Place.index] at further
          change m.after.ahead.length < (c :: rest).length
          omega

end Form

theorem occurrences_withReturns (text : List Char) :
    occurrences (Text.withReturns text) = (occurrences text).map Occurrence.withReturns := by
  have ordered : Ordered fun m m' => m.withReturns = m' ∧ m.first.text = text := by
    rintro m _ n _ ⟨rfl, whole⟩ ⟨rfl, whole'⟩
    exact Place.index_le_iff_withReturns (whole.trans whole'.symm)
  have each : ∀ form ∈ forms, List.Forall₂ (fun m m' => m.withReturns = m' ∧ m.first.text = text)
      (form.occurrences text) (form.occurrences (Text.withReturns text)) := by
    intro form member
    have proper := proper_of_mem form member
    have same : form.occurrences (Text.withReturns text) = (form.occurrences text).map Occurrence.withReturns :=
      form.occurrencesFrom_withReturns proper (endsLines_of_mem form member) text.length ⟨[], text⟩ rfl
    rw [same, List.forall₂_map_right_iff, List.forall₂_same]
    intro m member
    obtain ⟨p, whole, matched⟩ := form.mem_occurrencesFrom 0 [] text m member
    exact ⟨rfl, (form.matchAt_spans proper p m matched).whole.trans whole⟩
  have same : List.Forall₂ (fun m m' => m.withReturns = m') (occurrences text)
      (occurrences (Text.withReturns text)) := (ordered.occurrences each).imp fun _ _ same => same.1
  rw [← List.forall₂_map_left_iff, List.forall₂_eq_eq_eq] at same
  exact same.symm

namespace Occurrence.Spans

variable {m : Occurrence} {text : List Char}

theorem newline_not_mem (spans : m.Spans text) : '\n' ∉ m.specifier := by
  intro member
  have inside := spans.inside _ member
  simp [isSpecifierChar] at inside

theorem specifier_withReturns (spans : m.Spans text) : m.withReturns.specifier = m.specifier := by
  have first : m.first.withReturns =
      ⟨m.first.withReturns.behind, m.specifier ++ Text.withReturns m.last.ahead⟩ := by
    rw [Place.withReturns, spans.first_ahead, Text.withReturns_append, Text.withReturns_level spans.newline_not_mem]
  have last : m.last.withReturns =
      ⟨m.specifier.reverse ++ m.first.withReturns.behind, Text.withReturns m.last.ahead⟩ := by
    simp [Place.withReturns, spans.last_behind, Text.withReturns_level spans.newline_not_mem]
  rw [specifier, withReturns, first, last]
  exact upTo_append _ _ _

end Occurrence.Spans

section

variable {edits : List Edit} (level : ∀ edit ∈ edits, '\n' ∉ edit.replacement.toList)

include level

theorem respelled_withReturns {specifier : List Char} (plain : '\n' ∉ specifier) :
    Text.withReturns (respelled edits specifier) = respelled edits specifier := by
  refine Text.withReturns_level ?_
  unfold respelled
  cases known : replacement? edits specifier with
  | none => exact plain
  | some new =>
    obtain ⟨edit, found, rfl⟩ := Option.map_eq_some_iff.1 known
    exact level edit (List.mem_of_find?_eq_some found)

variable {text : List Char}

theorem splice_withReturns (found : List Occurrence) (spans : ∀ m ∈ found, m.Spans text)
    (apart : found.Pairwise fun m m' => m.last.index < m'.first.index) : ∀ position,
      (∀ m ∈ found, position ≤ m.first.index) ->
      splice edits (Text.withReturns text) (Text.withReturns (text.take position)).length
          (found.map Occurrence.withReturns) =
        Text.withReturns (splice edits text position found) := by
  induction found with
  | nil => exact fun position _ => Text.drop_withReturns text position
  | cons m rest ih =>
    intro position before
    obtain ⟨behind, apart⟩ := List.pairwise_cons.1 apart
    have own := spans m List.mem_cons_self
    have later := ih (fun m' member => spans m' (List.mem_cons_of_mem _ member)) apart m.last.index
      fun m' member => Nat.le_of_lt (behind m' member)
    have first : m.withReturns.first.index = (Text.withReturns (text.take m.first.index)).length := by
      rw [← own.whole]
      exact Place.index_withReturns m.first
    have last : m.withReturns.last.index = (Text.withReturns (text.take m.last.index)).length := by
      rw [← own.last_whole]
      exact Place.index_withReturns m.last
    have gap := Text.drop_withReturns (text.take m.first.index) position
    rw [List.take_take, Nat.min_eq_left (before m List.mem_cons_self)] at gap
    have spelt := respelled_withReturns level own.newline_not_mem
    rw [List.map_cons, splice, splice, first, last, later, Text.take_withReturns, gap, own.specifier_withReturns,
      Text.withReturns_append, Text.withReturns_append]
    unfold respelled at spelt
    rw [spelt]

end

def withReturns (text : String) : String := String.ofList (Text.withReturns text.toList)

/-- With lines that end with a return and a newline a text holds the same imports on the same lines, and is
rewritten to the same. -/
theorem returns_change_nothing (text : String) :
    ((Import.list (withReturns text)).map fun i => (i.specifier, i.line)) =
        (Import.list text).map (fun i => (i.specifier, i.line)) ∧
      ∀ edits : List Edit, (∀ edit ∈ edits, '\n' ∉ edit.replacement.toList) ->
        rewriteImports edits (withReturns text) = withReturns (rewriteImports edits text) := by
  have spans := occurrences_spans text.toList
  constructor
  · rw [withReturns, list_ofList, occurrences_withReturns, Import.list, List.map_map, List.map_map, List.map_map]
    refine List.map_congr_left fun m member => ?_
    have kept := (spans m member).specifier_withReturns
    have line : m.withReturns.first.line = m.first.line := Place.line_withReturns m.first
    simp [Occurrence.toImport, kept, line]
  · intro edits level
    have spliced := splice_withReturns level _ spans (occurrences_apart text.toList) 0 fun _ _ => Nat.zero_le _
    rw [rewriteImports, rewriteImports, withReturns, withReturns, String.toList_ofList, String.toList_ofList,
      rewriteChars_eq_splice, rewriteChars_eq_splice, occurrences_withReturns]
    exact congrArg String.ofList spliced

theorem folded_returns_change_nothing :
    (Import.list "import \x7b\r\n  a\r\n\x7d from './b'\r\n").map (fun i => (i.specifier, i.line)) = [("./b", 3)] ∧
      rewriteImports [⟨"./b", "../c"⟩] "import \x7b\r\n  a\r\n\x7d from './b'\r\n" =
        "import \x7b\r\n  a\r\n\x7d from '../c'\r\n" := by
  have computed : (Import.list "import \x7b\n  a\n\x7d from './b'\n").map (fun i => (i.specifier, i.line)) =
        [("./b", 3)] ∧
      rewriteImports [⟨"./b", "../c"⟩] "import \x7b\n  a\n\x7d from './b'\n" =
        "import \x7b\n  a\n\x7d from '../c'\n" ∧
      (∀ edit ∈ [Edit.mk "./b" "../c"], '\n' ∉ edit.replacement.toList) ∧
      withReturns "import \x7b\n  a\n\x7d from './b'\n" = "import \x7b\r\n  a\r\n\x7d from './b'\r\n" ∧
      withReturns "import \x7b\n  a\n\x7d from '../c'\n" = "import \x7b\r\n  a\r\n\x7d from '../c'\r\n" := by
    decide +kernel
  obtain ⟨found, respelt, level, written, written'⟩ := computed
  obtain ⟨listed, rewritten⟩ := returns_change_nothing "import \x7b\n  a\n\x7d from './b'\n"
  have both := rewritten _ level
  rw [written, found] at listed
  rw [written, respelt, written'] at both
  exact ⟨listed, both⟩

end Imports

end Stowage

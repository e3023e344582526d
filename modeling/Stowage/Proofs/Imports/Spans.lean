import Mathlib.Data.List.Induction
import Mathlib.Data.List.Nodup
import Stowage.Proofs.Imports.Meeting

set_option autoImplicit false

namespace Stowage.Imports

open Pattern (literal blanks meet meet_append meet_good)

def Unquoted (pattern : Pattern) : Prop := ∀ item ∈ pattern, ∀ c, isQuote c = true -> item.takes c = false

theorem unquoted_append {first second : Pattern} (one : Unquoted first) (two : Unquoted second) :
    Unquoted (first ++ second) := by
  intro item member
  rcases List.mem_append.1 member with inside | inside
  · exact one item inside
  · exact two item inside

theorem isQuote_iff (c : Char) : isQuote c = true ↔ c = '"' ∨ c = '\'' := by
  simp [isQuote]

theorem unquoted_literal (word : String) (plain : ∀ c ∈ word.toList, isQuote c = false) :
    Unquoted (literal word) := by
  intro item member c quoted
  obtain ⟨letter, inside, rfl⟩ := List.mem_map.1 member
  have differs : c ≠ letter := by
    rintro rfl
    rw [plain c inside] at quoted
    cases quoted
  simpa [Item.takes] using differs

theorem unquoted_indent : Unquoted indent := by
  intro item member c quoted
  obtain rfl := List.mem_singleton.1 member
  rcases (isQuote_iff c).1 quoted with rfl | rfl <;> rfl

theorem unquoted_blanks : Unquoted blanks := by
  intro item member c quoted
  obtain rfl := List.mem_singleton.1 member
  rcases (isQuote_iff c).1 quoted with rfl | rfl <;> decide

theorem unquoted_someBlanks : Unquoted Pattern.someBlanks := by
  intro item member c quoted
  simp only [Pattern.someBlanks, List.mem_cons, List.not_mem_nil, or_false] at member
  rcases (isQuote_iff c).1 quoted with rfl | rfl <;> rcases member with rfl | rfl <;> decide

theorem unquoted_bindings : Unquoted bindings := by
  intro item member c quoted
  obtain rfl := List.mem_singleton.1 member
  simp [Item.takes, quoted]

theorem unquoted_lineStart : Unquoted [.lineStart] := by
  intro item member c quoted
  obtain rfl := List.mem_singleton.1 member
  rfl

theorem unquoted_wordStart : Unquoted [.wordStart] := by
  intro item member c quoted
  obtain rfl := List.mem_singleton.1 member
  rfl

/-- A form opens with one quote, at the end, and it starts a line or has a parenthesis before the quote;
it closes with nothing or with a parenthesis. -/
structure Form.Proper (form : Form) : Prop where
  opening : ∃ front, form.opening = front ++ quote ∧ Unquoted front ∧
    (front.head? = some .lineStart ∨ ∃ start, front = start ++ (literal "(" ++ blanks))
  closing : form.closing = [] ∨ form.closing = blanks ++ literal ")"

theorem proper_lined (word : String) (bound : Pattern) (plain : ∀ c ∈ word.toList, isQuote c = false)
    (unquoted : Unquoted bound) :
    Form.Proper ⟨[.lineStart] ++ indent ++ literal word ++ (bound ++ quote), []⟩ := by
  refine ⟨⟨[.lineStart] ++ indent ++ literal word ++ bound, by simp, ?_, .inl rfl⟩, .inl rfl⟩
  exact unquoted_append (unquoted_append (unquoted_append unquoted_lineStart unquoted_indent)
    (unquoted_literal word plain)) unquoted

theorem proper_call (function : String) (plain : ∀ c ∈ function.toList, isQuote c = false) :
    (call function).Proper := by
  refine ⟨⟨[.wordStart] ++ literal function ++ blanks ++ (literal "(" ++ blanks), ?_, ?_, ?_⟩, .inr rfl⟩
  · simp [call]
  · exact unquoted_append (unquoted_append (unquoted_append unquoted_wordStart
      (unquoted_literal function plain)) unquoted_blanks)
      (unquoted_append (unquoted_literal "(" (by simp [isQuote])) unquoted_blanks)
  · exact .inr ⟨[.wordStart] ++ literal function ++ blanks, by simp⟩

theorem proper_of_mem (form : Form) (member : form ∈ forms) : form.Proper := by
  have fromClause' : Unquoted (Pattern.someBlanks ++ (bindings ++ [.wordStart] ++ literal "from" ++ blanks)) :=
    unquoted_append unquoted_someBlanks (unquoted_append (unquoted_append (unquoted_append
      unquoted_bindings unquoted_wordStart) (unquoted_literal "from" (by simp [isQuote]))) unquoted_blanks)
  simp only [forms, List.mem_cons, List.not_mem_nil, or_false] at member
  rcases member with rfl | rfl | rfl | rfl | rfl
  · simpa [importFrom, fromClause] using proper_lined "import" _ (by simp [isQuote]) fromClause'
  · simpa [importOnly] using proper_lined "import" blanks (by simp [isQuote]) unquoted_blanks
  · simpa [exportFrom, fromClause] using proper_lined "export" _ (by simp [isQuote]) fromClause'
  · exact proper_call "import" (by simp [isQuote])
  · exact proper_call "require" (by simp [isQuote])

theorem specifierEnd_append (behind specifier : List Char) (c : Char) (rest : List Char)
    (inside : ∀ d ∈ specifier, isSpecifierChar d = true) (stops : isSpecifierChar c = false) :
    specifierEnd behind (specifier ++ c :: rest) = ⟨specifier.reverse ++ behind, c :: rest⟩ := by
  induction specifier generalizing behind with
  | nil => simp [specifierEnd, stops]
  | cons d more ih =>
    have first := inside d List.mem_cons_self
    have later := ih (d :: behind) fun e member => inside e (List.mem_cons_of_mem _ member)
    simp [specifierEnd, first, later]

theorem specifierEnd_all (behind specifier : List Char)
    (inside : ∀ d ∈ specifier, isSpecifierChar d = true) :
    specifierEnd behind specifier = ⟨specifier.reverse ++ behind, []⟩ := by
  induction specifier generalizing behind with
  | nil => rfl
  | cons d more ih =>
    have first := inside d List.mem_cons_self
    have later := ih (d :: behind) fun e member => inside e (List.mem_cons_of_mem _ member)
    simp [specifierEnd, first, later]

theorem specifier_split (chars : List Char) : (∀ c ∈ chars, isSpecifierChar c = true) ∨
    ∃ specifier c rest, chars = specifier ++ c :: rest ∧ (∀ d ∈ specifier, isSpecifierChar d = true) ∧
      isSpecifierChar c = false := by
  induction chars with
  | nil => exact .inl fun c impossible => (nomatch impossible)
  | cons first rest ih =>
    cases known : isSpecifierChar first with
    | false => exact .inr ⟨[], first, rest, rfl, fun d impossible => (nomatch impossible), known⟩
    | true =>
      rcases ih with all | ⟨specifier, c, more, rfl, inside, stops⟩
      · refine .inl fun c member => ?_
        rcases List.mem_cons.1 member with rfl | later
        · exact known
        · exact all c later
      · refine .inr ⟨first :: specifier, c, more, rfl, fun d member => ?_, stops⟩
        rcases List.mem_cons.1 member with rfl | later
        · exact known
        · exact inside d later

theorem upTo_append (behind specifier rest : List Char) :
    (Place.mk behind (specifier ++ rest)).upTo ⟨specifier.reverse ++ behind, rest⟩ = specifier := by
  simp [Place.upTo, Place.index]

/-- What an occurrence holds stands between quotes. -/
structure Occurrence.Spans (m : Occurrence) (text : List Char) : Prop where
  filled : m.specifier ≠ []
  inside : ∀ c ∈ m.specifier, isSpecifierChar c = true
  quoted : ∃ front opening closing rest, isQuote opening = true ∧ isQuote closing = true ∧
    m.first = ⟨opening :: front, m.specifier ++ closing :: rest⟩ ∧
    m.last = ⟨m.specifier.reverse ++ opening :: front, closing :: rest⟩
  whole : m.first.text = text

theorem stops_of_isQuote {c : Char} (quoted : isQuote c = true) : isSpecifierChar c = false := by
  simp [isSpecifierChar, quoted]

theorem meet_quote (tail : Pattern) (next : Place -> Option Occurrence) (behind ahead : List Char) :
    meet (quote ++ tail) next ⟨behind, ahead⟩ =
      match ahead with
      | [] => none
      | c :: rest => if isQuote c then meet tail next ⟨c :: behind, rest⟩ else none := rfl

theorem Form.close_spans (form : Form) (front : List Char) (opening : Char) (ahead : List Char)
    (quoted : isQuote opening = true) (m : Occurrence)
    (closed : form.close ⟨opening :: front, ahead⟩ = some m) :
    m.Spans (front.reverse ++ opening :: ahead) := by
  unfold Form.close at closed
  split at closed
  next starts =>
    simp only at closed
    rcases specifier_split ahead with all | ⟨specifier, c, rest, rfl, inside, stops⟩
    · rw [specifierEnd_all _ _ all] at closed
      cases closed
    · rw [specifierEnd_append _ _ _ _ inside stops, meet_quote] at closed
      simp only at closed
      split at closed
      next ends =>
        -- Both ends of the specifier are set where the closing quote is met, whatever the rest of the closing takes.
        have same : m.first = ⟨opening :: front, specifier ++ c :: rest⟩ ∧
            m.last = ⟨specifier.reverse ++ opening :: front, c :: rest⟩ :=
          meet_good (fun m => m.first = ⟨opening :: front, specifier ++ c :: rest⟩ ∧
            m.last = ⟨specifier.reverse ++ opening :: front, c :: rest⟩) _ _ _
            (fun p _ result made => by
              cases made
              exact ⟨rfl, rfl⟩) _ rfl m closed
        obtain ⟨first, last⟩ := same
        have own : m.specifier = specifier := by
          rw [Occurrence.specifier, first, last, upTo_append]
        have filled : specifier ≠ [] := by
          rintro rfl
          simp [startsSpecifier, stops] at starts
        refine ⟨by rwa [own], by rwa [own], ⟨front, opening, c, rest, quoted, ends, ?_, ?_⟩, ?_⟩
        · rw [own, first]
        · rw [own, last]
        · simp [first, Place.text]
      · cases closed
  · cases closed

theorem Form.matchAt_spans {form : Form} (proper : form.Proper) (p : Place) (m : Occurrence)
    (matched : form.matchAt p = some m) : m.Spans p.text := by
  obtain ⟨front, opening, -⟩ := proper.opening
  rw [Form.matchAt, opening, meet_append] at matched
  refine meet_good (·.Spans p.text) p.text front _ ?_ p rfl m matched
  rintro ⟨behind, ahead⟩ whole result met
  cases ahead with
  | nil => cases met
  | cons c rest =>
    have met' : (if isQuote c then form.close ⟨c :: behind, rest⟩ else none) = some result := met
    split at met'
    next quoted =>
      have spans := form.close_spans behind c rest quoted result met'
      rw [← whole]
      exact spans
    · cases met'

theorem Form.mem_occurrencesFrom (form : Form) (skip : Nat) (behind ahead : List Char) (m : Occurrence)
    (member : m ∈ form.occurrencesFrom skip behind ahead) :
    ∃ p, p.text = behind.reverse ++ ahead ∧ form.matchAt p = some m := by
  induction ahead generalizing skip behind with
  | nil => cases skip <;> cases member
  | cons c rest ih =>
    have onward : ∀ skip, m ∈ form.occurrencesFrom skip (c :: behind) rest ->
        ∃ p, p.text = behind.reverse ++ c :: rest ∧ form.matchAt p = some m := by
      intro skip later
      have found := ih skip (c :: behind) later
      rw [List.reverse_cons, List.append_assoc] at found
      exact found
    cases skip with
    | succ skip => exact onward skip member
    | zero =>
      unfold Form.occurrencesFrom at member
      split at member
      · exact onward 0 member
      next found matched =>
        rcases List.mem_cons.1 member with rfl | later
        · exact ⟨_, rfl, matched⟩
        · exact onward _ later

theorem Form.occurrencesFrom_skip (form : Form) (passed : List Char) (skip : Nat) (behind ahead : List Char) :
    form.occurrencesFrom (passed.length + skip) behind (passed ++ ahead) =
      form.occurrencesFrom skip (passed.reverse ++ behind) ahead := by
  induction passed generalizing behind with
  | nil => simp
  | cons c rest ih =>
    have onward := ih (c :: behind)
    rw [List.length_cons, Nat.add_right_comm, List.cons_append, Form.occurrencesFrom, onward]
    simp

theorem mem_addNew (found new : List (Nat × Occurrence)) (item : Nat × Occurrence)
    (member : item ∈ addNew found new) : item ∈ found ∨ item ∈ new := by
  unfold addNew at member
  induction new generalizing found with
  | nil => exact .inl member
  | cons candidate rest ih =>
    rw [List.foldl_cons] at member
    -- An item is kept unless one of its place was found already.
    rcases ih _ member with early | late
    · split at early
      · exact .inl early
      · rcases List.mem_append.1 early with old | own
        · exact .inl old
        · rw [List.mem_singleton.1 own]
          exact .inr List.mem_cons_self
    · exact .inr (List.mem_cons_of_mem _ late)

theorem nodup_addNew (found new : List (Nat × Occurrence)) (distinct : (found.map Prod.fst).Nodup) :
    ((addNew found new).map Prod.fst).Nodup := by
  unfold addNew
  induction new generalizing found with
  | nil => exact distinct
  | cons candidate rest ih =>
    rw [List.foldl_cons]
    apply ih
    split
    · exact distinct
    next fresh =>
      rw [List.map_append, List.nodup_append]
      refine ⟨distinct, List.nodup_singleton _, ?_⟩
      intro first inside second own
      rw [List.map_singleton, List.mem_singleton] at own
      obtain ⟨item, member, rfl⟩ := List.mem_map.1 inside
      rintro same
      apply fresh
      exact List.any_eq_true.2 ⟨item, member, beq_iff_eq.2 (same.trans own)⟩

def gathered (several : List Form) (text : List Char) : List (Nat × Occurrence) :=
  several.foldl (fun found form => addNew found ((form.occurrences text).map Occurrence.placed)) []

theorem occurrences_eq (text : List Char) : occurrences text =
    ((gathered forms text).mergeSort fun a b => a.1 ≤ b.1).map Prod.snd := rfl

theorem occurrences_of_gathered (text : List Char)
    (sorted : (gathered forms text).Pairwise fun a b => a.1 ≤ b.1) :
    occurrences text = (gathered forms text).map Prod.snd := by
  rw [occurrences_eq, List.mergeSort_of_pairwise (by simpa using sorted)]

theorem gathered_concat (several : List Form) (form : Form) (text : List Char) :
    gathered (several ++ [form]) text =
      addNew (gathered several text) ((form.occurrences text).map Occurrence.placed) := by
  simp [gathered]

theorem mem_gathered (several : List Form) (text : List Char) (item : Nat × Occurrence)
    (member : item ∈ gathered several text) :
    item.1 = item.2.first.index ∧ ∃ form ∈ several, item.2 ∈ form.occurrences text := by
  induction several using List.reverseRecOn with
  | nil => cases member
  | append_singleton several form ih =>
    rw [gathered_concat] at member
    rcases mem_addNew _ _ _ member with old | new
    · obtain ⟨index, other, inside, found⟩ := ih old
      exact ⟨index, other, List.mem_append_left _ inside, found⟩
    · obtain ⟨m, found, rfl⟩ := List.mem_map.1 new
      exact ⟨rfl, form, List.mem_append_right _ (List.mem_singleton_self _), found⟩

theorem nodup_gathered (several : List Form) (text : List Char) :
    ((gathered several text).map Prod.fst).Nodup := by
  induction several using List.reverseRecOn with
  | nil => exact List.nodup_nil
  | append_singleton several form ih =>
    rw [gathered_concat]
    exact nodup_addNew _ _ ih

theorem mem_occurrences (text : List Char) (m : Occurrence) (member : m ∈ occurrences text) :
    ∃ form ∈ forms, ∃ p, p.text = text ∧ form.matchAt p = some m := by
  rw [occurrences_eq] at member
  obtain ⟨item, inside, rfl⟩ := List.mem_map.1 member
  obtain ⟨-, form, isForm, found⟩ := mem_gathered forms text item (List.mem_mergeSort.1 inside)
  exact ⟨form, isForm, form.mem_occurrencesFrom 0 [] text _ found⟩

theorem occurrences_spans (text : List Char) (m : Occurrence) (member : m ∈ occurrences text) :
    m.Spans text := by
  obtain ⟨form, isForm, p, rfl, matched⟩ := mem_occurrences text m member
  exact form.matchAt_spans (proper_of_mem form isForm) p m matched

theorem occurrences_sorted (text : List Char) :
    (occurrences text).Pairwise fun m m' => m.first.index < m'.first.index := by
  rw [occurrences_eq, List.pairwise_map]
  have sorted : ((gathered forms text).mergeSort fun a b => a.1 ≤ b.1).Pairwise fun a b => a.1 ≤ b.1 := by
    have ordered : ((gathered forms text).mergeSort fun a b => a.1 ≤ b.1).Pairwise
        fun a b => decide (a.1 ≤ b.1) = true :=
      List.pairwise_mergeSort (fun a b c => by simpa using Nat.le_trans)
        (fun a b => by simpa using Nat.le_total a.1 b.1) _
    simpa using ordered
  have distinct : ((gathered forms text).mergeSort fun a b => a.1 ≤ b.1).Pairwise fun a b => a.1 ≠ b.1 := by
    have nodup := nodup_gathered forms text
    rw [List.Nodup, List.pairwise_map] at nodup
    exact (List.mergeSort_perm _ _).pairwise_iff (fun differs => Ne.symm differs) |>.2 nodup
  -- Each occurrence is gathered under the place where it starts.
  refine (sorted.and distinct).imp_of_mem ?_
  intro a b inside inside' less
  have first := (mem_gathered forms text a (List.mem_mergeSort.1 inside)).1
  have second := (mem_gathered forms text b (List.mem_mergeSort.1 inside')).1
  rw [← first, ← second]
  exact Nat.lt_of_le_of_ne less.1 less.2

end Stowage.Imports

import Stowage.Proofs.Imports.Matching

set_option autoImplicit false

namespace Stowage

def Import.span (i : Import) : Nat × Nat := (i.start, i.stop)

namespace Imports

theorem Form.Proper.found_or_inside {form : Form} (proper : form.Proper) {p : Place} {m : Occurrence}
    (matched : form.Matches p m) (ahead : List Char) : ∀ (skip : Nat) (behind : List Char),
      p.text = behind.reverse ++ ahead -> behind.length + skip ≤ p.index ->
      m ∈ form.occurrencesFrom skip behind ahead ∨
        ∃ q, ∃ m' ∈ form.occurrencesFrom skip behind ahead, q.text = p.text ∧ form.Matches q m' ∧
          q.index < p.index ∧ p.index < m'.after.index := by
  induction ahead with
  | nil =>
    intro skip behind whole passed
    -- Nothing can be met from the end of the text.
    have room := proper.matches_index_le matched
    have length := congrArg List.length whole
    simp only [List.append_nil, List.length_reverse] at length
    omega
  | cons c rest ih =>
    intro skip behind whole passed
    have whole' : p.text = (c :: behind).reverse ++ rest := by simpa using whole
    cases skip with
    | succ skip => exact ih skip (c :: behind) whole' (by simp only [List.length_cons]; omega)
    | zero =>
      unfold Form.occurrencesFrom
      rcases Nat.eq_or_lt_of_le passed with here | later
      · have same : p = ⟨behind, c :: rest⟩ := Place.eq_of_index whole here.symm
        have found := proper.matchAt_iff.2 matched
        rw [same] at found
        simp only [found]
        exact .inl List.mem_cons_self
      · cases found : form.matchAt ⟨behind, c :: rest⟩ with
        | none => exact ih 0 (c :: behind) whole' later
        | some first =>
          simp only
          by_cases inside : p.index < first.after.index
          · have matched := matches_of_matchAt found
            exact .inr ⟨⟨behind, c :: rest⟩, first, List.mem_cons_self, whole.symm, matched, later, inside⟩
          · refine (ih _ (c :: behind) whole' ?_).imp (List.mem_cons_of_mem _) ?_
            · simp only [List.length_cons]
              omega
            · rintro ⟨q, m', member, text, known, before, within⟩
              exact ⟨q, m', List.mem_cons_of_mem _ member, text, known, before, within⟩

theorem Form.Proper.swallowed {form : Form} (proper : form.Proper) {rest : Pattern}
    (lined : form.opening = .lineStart :: rest) (ended : form.closing = []) {p q : Place} {m m' : Occurrence}
    (matched : form.Matches p m) (matched' : form.Matches q m') (whole : q.text = p.text) (before : q.index < p.index)
    (within : p.index < m'.after.index) : m'.first = m.first ∧ m'.last = m.last := by
  have starts : Pattern.atLineStart p.behind = true := by
    have opened := matched.opened
    rw [lined] at opened
    cases opened with
    | lineStart starts _ => exact starts
  obtain ⟨index, next⟩ : ∃ index, p.index = index + 1 := ⟨p.index - 1, by omega⟩
  have newline := Pattern.newline_behind starts next
  have stop : m'.after.index = m'.last.index + 1 := by
    have closed := matched'.closed
    rw [ended] at closed
    generalize m'.last = last at closed ⊢
    generalize m'.after = after at closed ⊢
    cases closed with
    | one _ done =>
      cases done
      rfl
  -- The newline is not in the specifier of the other one, and so its quote is still to come.
  have early : p.index < m'.first.index := by
    by_contra late
    exact (proper.matches_spans matched').level (by omega) (by omega) (whole ▸ newline)
  have first := proper.first_unique proper matched'.opened matched.opened whole (Nat.le_of_lt before) early
  refine ⟨first, ?_⟩
  rw [← (specifierEnd_of_meets matched'.spelt matched'.closed).2,
    ← (specifierEnd_of_meets matched.spelt matched.closed).2, first]

theorem addNew_covers (found new : List (Nat × Occurrence)) (item : Nat × Occurrence)
    (member : item ∈ found ∨ item ∈ new) : ∃ kept ∈ addNew found new, kept.1 = item.1 := by
  unfold addNew
  induction new generalizing found item with
  | nil => exact ⟨item, member.resolve_right List.not_mem_nil, rfl⟩
  | cons candidate rest ih =>
    rw [List.foldl_cons]
    rcases member with old | new
    · refine ih _ item (.inl ?_)
      split
      · exact old
      · exact List.mem_append_left _ old
    · rcases List.mem_cons.1 new with rfl | later
      · split
        next known =>
          obtain ⟨other, inside, same⟩ := List.any_eq_true.1 known
          obtain ⟨kept, member, place⟩ := ih found other (.inl inside)
          exact ⟨kept, member, place.trans (eq_of_beq same)⟩
        · exact ih _ item (.inl (List.mem_append_right _ List.mem_cons_self))
      · exact ih _ item (.inr later)

theorem gathered_covers (several : List Form) (text : List Char) {form : Form} (known : form ∈ several)
    {m : Occurrence} (member : m ∈ form.occurrences text) :
    ∃ kept ∈ gathered several text, kept.1 = m.first.index := by
  induction several using List.reverseRecOn with
  | nil => cases known
  | append_singleton several other ih =>
    rw [gathered_concat]
    rcases List.mem_append.1 known with early | last
    · obtain ⟨kept, inside, place⟩ := ih early
      obtain ⟨kept', inside', place'⟩ := addNew_covers _ _ kept (.inl inside)
      exact ⟨kept', inside', place'.trans place⟩
    · obtain rfl := List.mem_singleton.1 last
      exact addNew_covers _ _ m.placed (.inr (List.mem_map_of_mem member))

theorem Occurrence.Spans.last_eq {m m' : Occurrence} {text : List Char} (spans : m.Spans text)
    (spans' : m'.Spans text) (first : m.first = m'.first) : m.last = m'.last := by
  have ends : ∀ {m : Occurrence}, m.Spans text -> specifierEnd m.first.behind m.first.ahead = m.last := by
    intro m spans
    obtain ⟨front, opening, closing, rest, -, closes, start, stop⟩ := spans.quoted
    rw [stop, start]
    exact specifierEnd_append _ _ _ _ spans.inside (stops_of_isQuote closes)
  rw [← ends spans, ← ends spans', first]

/-- A specifier is told of once, with its line and its bytes. -/
structure Occurrence.ToldOnce (m : Occurrence) (text : String) : Prop where
  told : m.toImport ∈ Import.list text
  once : ((Import.list text).map Import.span).count m.toImport.span = 1

theorem nodup_spans (text : String) : ((Import.list text).map Import.span).Nodup := by
  rw [List.Nodup, List.pairwise_map]
  refine (list_apart text).imp_of_mem ?_
  intro i j member _ apart same
  have starts : i.start = j.start := congrArg Prod.fst same
  have room := start_le_stop member
  omega

theorem toldOnce_of_found {form : Form} (known : form ∈ forms) {text : String} {m m' : Occurrence}
    (found : m ∈ form.occurrences text.toList) (first : m.first = m'.first) (last : m.last = m'.last) :
    m'.ToldOnce text := by
  obtain ⟨item, gathered, place⟩ := gathered_covers forms text.toList known found
  obtain ⟨index, -⟩ := mem_gathered forms text.toList item gathered
  have kept : item.2 ∈ occurrences text.toList := by
    rw [occurrences_eq]
    exact List.mem_map_of_mem (List.mem_mergeSort.2 gathered)
  obtain ⟨q, whole, matched⟩ := form.mem_occurrencesFrom 0 [] text.toList m found
  have spans := form.matchAt_spans (proper_of_mem form known) q m matched
  rw [whole, List.reverse_nil, List.nil_append] at spans
  have spans' := occurrences_spans text.toList item.2 kept
  have start : item.2.first = m.first :=
    Place.eq_of_index (spans'.whole.trans spans.whole.symm) (index.symm.trans place)
  have same : item.2.toImport = m'.toImport := by
    unfold Occurrence.toImport Occurrence.specifier
    rw [spans'.last_eq spans start, start, first, last]
  have told : m'.toImport ∈ Import.list text := same ▸ List.mem_map_of_mem kept
  exact ⟨told, List.count_eq_one_of_mem (nodup_spans text) (List.mem_map_of_mem told)⟩

/-- Every statement that can be read in a text is told of once, wherever it begins, and so is every call that does
not begin inside another call of the same function. Nothing else is told of. -/
theorem imports_told_once (text : String) :
    (∀ form ∈ [importFrom, importOnly, exportFrom], ∀ p m, p.text = text.toList -> form.Matches p m ->
      m.ToldOnce text) ∧
    (∀ function ∈ ["import", "require"], ∀ p m, p.text = text.toList -> (call function).Matches p m ->
      (¬ ∃ q m', q.text = text.toList ∧ (call function).Matches q m' ∧ q.index < p.index ∧
        p.index < m'.after.index) -> m.ToldOnce text) ∧
    ∀ i ∈ Import.list text, ∃ form ∈ forms, ∃ p m, p.text = text.toList ∧ form.Matches p m ∧ m.toImport = i := by
  refine ⟨?_, ?_, ?_⟩
  · intro form statement p m whole matched
    have known : form ∈ forms := List.subset_append_left _ [call "import", call "require"] statement
    have lined : ∃ rest, form.opening = .lineStart :: rest ∧ form.closing = [] := by
      simp only [List.mem_cons, List.not_mem_nil, or_false] at statement
      rcases statement with rfl | rfl | rfl <;> exact ⟨_, rfl, rfl⟩
    obtain ⟨rest, opening, closing⟩ := lined
    have proper := proper_of_mem form known
    -- The search passes over what it has found; a statement met within that has the same specifier.
    rcases proper.found_or_inside matched text.toList 0 [] whole (Nat.zero_le _) with
      found | ⟨q, m', found, whole', matched', before, within⟩
    · exact toldOnce_of_found known found rfl rfl
    · obtain ⟨first, last⟩ := proper.swallowed opening closing matched matched' whole' before within
      exact toldOnce_of_found known found first last
  · intro function named p m whole matched alone
    have known : call function ∈ forms := by
      simp only [List.mem_cons, List.not_mem_nil, or_false] at named
      rcases named with rfl | rfl <;> simp [forms]
    rcases (proper_of_mem _ known).found_or_inside matched text.toList 0 [] whole (Nat.zero_le _) with
      found | ⟨q, m', -, whole', matched', before, within⟩
    · exact toldOnce_of_found known found rfl rfl
    · exact absurd ⟨q, m', whole'.trans whole, matched', before, within⟩ alone
  · intro i member
    obtain ⟨m, found, -, made⟩ := mem_list text i member
    obtain ⟨form, known, p, whole, matched⟩ := mem_occurrences text.toList m found
    exact ⟨form, known, p, m, whole, Form.matches_of_matchAt matched, made⟩

theorem unfinished_told_once : ∃ statement called : Occurrence,
    importFrom.Matches ⟨"import('./a')\nexport \x7b\n".toList.reverse, "import b from './c'".toList⟩ statement ∧
    (call "import").Matches (Place.start "import('./a')\nexport \x7b\nimport b from './c'".toList) called ∧
    statement.toImport = ⟨"./c", 3, 38, 41⟩ ∧ called.toImport = ⟨"./a", 1, 8, 11⟩ ∧
    statement.ToldOnce "import('./a')\nexport \x7b\nimport b from './c'" ∧
    called.ToldOnce "import('./a')\nexport \x7b\nimport b from './c'" := by
  have computed : (importFrom.matchAt ⟨"import('./a')\nexport \x7b\n".toList.reverse,
        "import b from './c'".toList⟩).map Occurrence.toImport = some ⟨"./c", 3, 38, 41⟩ ∧
      ((call "import").matchAt (Place.start "import('./a')\nexport \x7b\nimport b from './c'".toList)).map
        Occurrence.toImport = some ⟨"./a", 1, 8, 11⟩ := by decide +kernel
  obtain ⟨stated, called⟩ := computed
  obtain ⟨m, found, import'⟩ := Option.map_eq_some_iff.1 stated
  obtain ⟨m', found', import''⟩ := Option.map_eq_some_iff.1 called
  have matched := Form.matches_of_matchAt found
  have matched' := Form.matches_of_matchAt found'
  obtain ⟨statements, calls, -⟩ := imports_told_once "import('./a')\nexport \x7b\nimport b from './c'"
  refine ⟨m, m', matched, matched', import', import'', ?_, ?_⟩
  · exact statements importFrom List.mem_cons_self _ m (by simp [Place.text]) matched
  · refine calls "import" List.mem_cons_self _ m' (by simp [Place.text, Place.start]) matched' ?_
    rintro ⟨q, _, -, -, before, -⟩
    exact absurd before (Nat.not_lt_zero _)

end Imports

end Stowage

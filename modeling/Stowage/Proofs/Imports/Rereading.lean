import Stowage.Proofs.Imports.Around
import Stowage.Proofs.Imports.Leading

set_option autoImplicit false

namespace Stowage.Imports

open Pattern (Meets LeadsTo literal blanks)

/-- Between its quotes a specifier ends as an import begins: the quote that closes the one opens the other. -/
def OpensNext (specifier : List Char) : Prop :=
  ∃ form ∈ forms, LeadsTo form.opening ('\'' :: (specifier ++ ['\'']))

theorem closing_plain {form : Form} (known : form ∈ forms) {last after : Place}
    (closed : Meets (quote ++ form.closing) last after) {index : Nat} (behind : last.index < index)
    (before : index < after.index) : ∃ c, last.text[index]? = some c ∧ (Text.isBlank c = true ∨ c = ')') := by
  rcases lined_or_called known with ⟨_, -, closing⟩ | ⟨_, _, -, closing, -⟩
  · rw [closing] at closed
    cases closed with
    | one _ done =>
      cases done
      simp only [Place.index, List.length_cons] at behind before
      omega
  · rw [closing] at closed
    exact closed_by closed behind before

theorem called_of_next {form : Form} (known : form ∈ forms) {p : Place} {m before : Occurrence}
    (matched : form.Matches p m) (spans' : before.Spans p.text) (next : before.last.index + 1 = m.first.index) :
    form.closing = blanks ++ literal ")" := by
  rcases lined_or_called known with ⟨rest, opening, -⟩ | ⟨_, _, -, closing, -⟩
  · obtain ⟨front, opening', unquoted, -⟩ := (proper_of_mem form known).opening
    have opened := matched.opened
    rw [opening'] at opened
    obtain ⟨index, _, stop, begun, -, -, passed⟩ := opened.stops
    have length := spans'.last_index
    have filled := List.length_pos_iff.2 spans'.filled
    obtain ⟨quote, front', behind, quoted⟩ := spans'.opening
    have start : before.first.index = front'.length + 1 := by simp [Place.index, behind]
    -- The form begins behind the quote before the other specifier, in the same line.
    have late : before.first.index ≤ p.index := by
      by_contra early
      obtain ⟨d, here, item, member, takes⟩ := passed front'.length (by omega) (by omega)
      have here' : p.text[front'.length]? = some quote := by
        rw [← spans'.whole, Place.text, behind]
        simp
      obtain rfl := Option.some.inj (here.symm.trans here')
      rw [unquoted item member d quoted] at takes
      cases takes
    have starts : Pattern.atLineStart p.behind = true := by
      have opened := matched.opened
      rw [opening] at opened
      cases opened with
      | lineStart starts _ => exact starts
    obtain ⟨above, level⟩ : ∃ above, p.index = above + 1 := ⟨p.index - 1, by omega⟩
    exact absurd (Pattern.newline_behind starts level) (spans'.level (by omega) (by omega))
  · exact closing

section

variable (edits : List Edit) {text : List Char} {early late : List Occurrence} {m : Occurrence}
  (split : occurrences text = early ++ m :: late)

include split

theorem closes_written (raws : ∀ edit ∈ edits, Pointed edit.raw.toList) {form : Form} (known : form ∈ forms)
    {after : Place} (closed : Meets (quote ++ form.closing) m.last after) (behind : List Char) :
    ∃ after', Meets (quote ++ form.closing) ⟨behind, splice edits text m.last.index late⟩ after' := by
  have around := around_of_split split
  have plain : ∀ index, m.last.index < index -> index < after.index ->
      ∃ c, m.last.text[index]? = some c ∧ (Text.isBlank c = true ∨ c = ')') :=
    fun _ => closing_plain known closed
  obtain ⟨mid, first, onward⟩ := closed.split _ _ rfl
  obtain ⟨taken, ahead, passed, carried⟩ := onward.carried
  obtain ⟨c, rest, here, next⟩ : ∃ c rest, m.last.ahead = c :: rest ∧ isQuote c = true ∧
      mid = ⟨c :: m.last.behind, rest⟩ := by
    generalize m.last = last at first
    cases first with
    | one quoted done =>
      cases done
      exact ⟨_, _, rfl, quoted, rfl⟩
  obtain ⟨quoted, rfl⟩ := next
  -- No edit is of a specifier that starts with a blank or a parenthesis.
  have same : ∀ m' ∈ late, m'.first.index < after.index -> respelled edits m'.specifier = m'.specifier := by
    intro m' member within
    unfold respelled replacement?
    cases known : edits.find? fun edit => edit.raw.toList == m'.specifier with
    | none => rfl
    | some edit =>
      have pointed := raws edit (List.mem_of_find?_eq_some known)
      have named : edit.raw.toList = m'.specifier := by simpa using List.find?_some known
      obtain ⟨d, found, closes⟩ := plain m'.first.index (around.later m' member) within
      rw [around.own.last_whole, (around.spans' m' member).first_char, ← named] at found
      exact absurd closes (pointed.not_closing found)
  have stop : after.index = m.last.index + (taken.length + 1) := by
    simp only [Place.index, passed, List.length_append, List.length_reverse, List.length_cons]
    omega
  obtain ⟨more, kept⟩ := splice_kept edits late around.spans' around.apart' same m.last.index (by omega)
    fun m' member => Nat.le_of_lt (around.later m' member)
  have copied : (text.take after.index).drop m.last.index = c :: taken := by
    have left : after.index - m.last.index = taken.length + 1 := by omega
    have ahead' : rest = taken ++ after.ahead := ahead
    rw [List.drop_take, left, ← around.own.last_whole, Place.drop_index, here, ahead', List.take_succ_cons,
      List.take_left' rfl]
  rw [kept, copied]
  exact ⟨_, .one quoted (carried (c :: behind) more rfl rfl)⟩

theorem opened_written
    (opens : ∀ before ∈ early, before.last.index + 1 = m.first.index -> OpensNext (respelled edits before.specifier)) :
    ∃ form ∈ forms, LeadsTo form.opening (splice edits (text.take m.first.index) 0 early) ∧
      ∃ after, Meets (quote ++ form.closing) m.last after := by
  have member : m ∈ occurrences text := by simp [split]
  obtain ⟨form, known, p, whole, found⟩ := mem_occurrences text m member
  have matched := Form.matches_of_matchAt found
  have leads := matched.opened.leadsTo
  rw [← (around_of_split split).own.take_first] at leads
  -- Only the import just before can share its quote with this one; any other leaves an unchanged quote between them.
  rcases List.eq_nil_or_concat' early with rfl | ⟨early, before, rfl⟩
  · exact ⟨form, known, leads, m.after, matched.closed⟩
  · rw [List.append_assoc, List.singleton_append] at split
    have around := around_of_split split
    rcases Nat.eq_or_lt_of_le (Nat.succ_le_of_lt (around.later m List.mem_cons_self)) with next | between
    · obtain ⟨form', known', leads'⟩ := opens before (by simp) next
      obtain ⟨front, opening, closing, opens, closes, spliced⟩ := splice_next edits split next
      have spans' := around.own
      rw [← whole] at spans'
      have quoted : isQuote '\'' = true := rfl
      refine ⟨form', known', ?_, ?_⟩
      · rw [spliced]
        exact (proper_of_mem form' known').leadsTo_behind quoted opens closes [] front leads'
      · -- The import is a call, so that it closes as every form does.
        have closed := matched.closed
        rw [called_of_next known matched spans' next] at closed
        rcases (proper_of_mem form' known').closing with none | called
        · obtain ⟨mid, first, -⟩ := closed.split _ _ rfl
          rw [none, List.append_nil]
          exact ⟨mid, first⟩
        · rw [called]
          exact ⟨m.after, closed⟩
    · obtain ⟨front, front', opening, rest, closing, opens, closes, spliced, taken⟩ := splice_apart edits split between
      refine ⟨form, known, ?_, m.after, matched.closed⟩
      rw [taken] at leads
      rw [spliced]
      exact (proper_of_mem form known).leadsTo_behind opens opens closes _ _ leads

theorem opensNext_of_leadsTo {form : Form} (known : form ∈ forms)
    (leads : LeadsTo form.opening (splice edits (text.take m.first.index) 0 early)) {before : Occurrence}
    (member : before ∈ early) (next : before.last.index + 1 = m.first.index) :
    OpensNext (respelled edits before.specifier) := by
  obtain ⟨init, last, rfl⟩ := (List.eq_nil_or_concat' early).resolve_left (List.ne_nil_of_mem member)
  rw [List.append_assoc, List.singleton_append] at split
  have around := around_of_split split
  -- Only the last of those before can end next to the import.
  obtain rfl : before = last := by
    rcases List.mem_append.1 member with earlier | own
    · have less := around.ended before earlier
      have less' := around.later m List.mem_cons_self
      have length := around.own.last_index
      omega
    · exact List.mem_singleton.1 own
  obtain ⟨front, opening, closing, opens, closes, spliced⟩ := splice_next edits split next
  rw [spliced] at leads
  have quoted : isQuote '\'' = true := rfl
  exact ⟨form, known, (proper_of_mem form known).leadsTo_behind opens quoted quoted front [] leads⟩

theorem rewriteChars_split : rewriteChars edits text = splice edits (text.take m.first.index) 0 early ++
    (respelled edits m.specifier ++ splice edits text m.last.index late) := by
  have around := around_of_split split
  rw [rewriteChars_eq_splice, split, splice_middle edits around.within around.beyond]

theorem respelled_told_iff (raws : ∀ edit ∈ edits, Pointed edit.raw.toList)
    (pointed : Pointed (respelled edits m.specifier)) :
    (∃ i ∈ Import.list (String.ofList (rewriteChars edits text)),
      i.start = Place.byteCount (splice edits (text.take m.first.index) 0 early) ∧
      i.specifier = String.ofList (respelled edits m.specifier)) ↔
    (∀ c ∈ respelled edits m.specifier, isSpecifierChar c = true) ∧
      ∀ before ∈ early, before.last.index + 1 = m.first.index -> OpensNext (respelled edits before.specifier) := by
  have whole := rewriteChars_split edits split
  constructor
  · rintro ⟨i, member, start, specifier⟩
    rw [list_ofList] at member
    obtain ⟨m', found, rfl⟩ := List.mem_map.1 member
    have spans := occurrences_spans _ m' found
    have spelt : m'.specifier = respelled edits m.specifier := String.ofList_injective specifier
    -- An import that starts at the same byte starts at the same place.
    have first : m'.first = ⟨(splice edits (text.take m.first.index) 0 early).reverse,
        respelled edits m.specifier ++ splice edits text m.last.index late⟩ := by
      refine Place.eq_of_offset (by rw [spans.whole, whole, Place.text, List.reverse_reverse]) ?_
      exact start.trans (Place.byteCount_reverse _).symm
    refine ⟨spelt ▸ spans.inside, fun before earlier next => ?_⟩
    obtain ⟨form, known, p, -, matched⟩ := mem_occurrences _ m' found
    have leads := (Form.matches_of_matchAt matched).opened.leadsTo
    rw [first, List.reverse_reverse] at leads
    exact opensNext_of_leadsTo edits split known leads earlier next
  · rintro ⟨inside, opens⟩
    obtain ⟨form, known, leads, after, closed⟩ := opened_written edits split opens
    obtain ⟨p, opened⟩ := leads.meets (respelled edits m.specifier ++ splice edits text m.last.index late)
    obtain ⟨after', closed'⟩ := closes_written edits split raws known closed
      ((respelled edits m.specifier).reverse ++ (splice edits (text.take m.first.index) 0 early).reverse)
    -- Conversely the opening is met before the new spelling and the closing after it, so the form matches around it.
    have starts : startsSpecifier ⟨(splice edits (text.take m.first.index) 0 early).reverse,
        respelled edits m.specifier ++ splice edits text m.last.index late⟩ = true := by
      obtain ⟨c, rest, own⟩ := List.exists_cons_of_ne_nil pointed.filled
      rw [own] at inside ⊢
      exact inside c List.mem_cons_self
    have spelt := meets_specifierEnd starts
    have ended : ∃ closing more, splice edits text m.last.index late = closing :: more ∧ isQuote closing = true := by
      generalize splice edits text m.last.index late = rest at closed'
      cases closed' with
      | one quoted _ => exact ⟨_, _, rfl, quoted⟩
    obtain ⟨closing, more, spliced, quoted⟩ := ended
    simp only [spliced, specifierEnd_append _ _ _ _ inside (stops_of_isQuote quoted)] at spelt
    rw [← spliced] at spelt
    have matched : form.Matches p ⟨_, _, after'⟩ := ⟨opened, spelt, closed'⟩
    have told : Occurrence.ToldOnce _ (String.ofList (rewriteChars edits text)) :=
      toldOnce_of_matches known ?_ matched ?_
    · exact ⟨_, told.told, Place.byteCount_reverse _, congrArg String.ofList (upTo_append _ _ _)⟩
    · rw [← opened.text_eq, String.toList_ofList, whole, Place.text, List.reverse_reverse]
    · rw [Occurrence.specifier, upTo_append]
      exact pointed

end

theorem written_told_iff {edits : List Edit} (raws : ∀ edit ∈ edits, Pointed edit.raw.toList) {text : String}
    {early late : List Import} {i : Import} (found : Import.list text = early ++ i :: late)
    (pointed : Pointed (written edits i.specifier).toList) :
    (∃ i' ∈ Import.list (rewriteImports edits text), i'.specifier = written edits i.specifier ∧
      (i'.start : Int) = i.start + drift edits early) ↔
    (∀ c ∈ (written edits i.specifier).toList, isSpecifierChar c = true) ∧
      ∀ j ∈ early, j.stop + 1 = i.start -> OpensNext (written edits j.specifier).toList := by
  obtain ⟨early, _, split, rfl, tail⟩ := List.map_eq_append_iff.1 found
  obtain ⟨m, late, rfl, rfl, -⟩ := List.map_eq_cons_iff.1 tail
  have around := around_of_split split
  have spelt : ∀ m : Occurrence, (written edits m.toImport.specifier).toList = respelled edits m.specifier := by
    intro m
    exact (congrArg String.toList (respelled_eq edits m.specifier)).symm.trans String.toList_ofList
  have start : (Place.byteCount (splice edits (text.toList.take m.first.index) 0 early) : Int) =
      m.toImport.start + drift edits (early.map Occurrence.toImport) := by
    rw [byteCount_splice edits early around.lies around.apart 0 fun _ _ => Nat.zero_le _, around.own.take_first,
      List.drop_zero, Place.byteCount_reverse]
    rfl
  have same : String.ofList (respelled edits m.specifier) = written edits m.toImport.specifier :=
    respelled_eq edits m.specifier
  have known := respelled_told_iff edits split raws (spelt m ▸ pointed)
  rw [same] at known
  -- Imports stand against one another in bytes as their occurrences do in characters.
  have near : (∀ j ∈ early.map Occurrence.toImport, j.stop + 1 = m.toImport.start ->
      OpensNext (written edits j.specifier).toList) ↔
      ∀ before ∈ early, before.last.index + 1 = m.first.index -> OpensNext (respelled edits before.specifier) := by
    rw [List.forall_mem_map]
    refine forall₂_congr fun before member => ?_
    have next := around.own.next_iff (around.spans before member) (around.ended before member)
    rw [← next, spelt]
    rfl
  rw [spelt, near, ← known]
  refine exists_congr fun i' => and_congr_right fun _ => ?_
  rw [and_comm, ← start, Int.ofNat_inj]

end Stowage.Imports

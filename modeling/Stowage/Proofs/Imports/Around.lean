import Stowage.Proofs.Imports.Parts
import Stowage.Proofs.Imports.Pointing
import Stowage.Proofs.Imports.Respelling

set_option autoImplicit false

namespace Stowage.Imports

theorem Occurrence.Spans.next_iff {m before : Occurrence} {text : List Char} (spans : m.Spans text)
    (spans' : before.Spans text) (later : before.last.index < m.first.index) :
    before.last.offset + 1 = m.first.offset ↔ before.last.index + 1 = m.first.index := by
  obtain ⟨between, filled, split⟩ := Place.behind_split (spans'.last_whole.trans spans.whole.symm) later
  obtain ⟨c, rest, rfl⟩ := List.exists_cons_of_ne_nil filled
  have bytes := congrArg Place.byteCount split
  have length := congrArg List.length split
  simp only [Place.byteCount_append, Place.byteCount_reverse, Place.byteCount, List.length_append,
    List.length_reverse, List.length_cons] at bytes length
  have wide := c.utf8Size_pos
  constructor
  · intro near
    have none : rest = [] := by
      by_contra more
      have long := Place.byteCount_pos more
      simp only [Place.offset] at near
      omega
    rw [none, List.length_nil] at length
    exact length.symm
  · intro near
    have none : rest = [] := by
      refine List.eq_nil_of_length_eq_zero ?_
      simp only [Place.index] at near
      omega
    obtain ⟨quote, front, behind, quoted⟩ := spans.opening
    -- What lies between them is the quote that opens this one.
    rw [behind, none, List.reverse_cons] at split
    obtain ⟨-, same⟩ := List.append_inj' split rfl
    obtain rfl : quote = c := by simpa using same
    have narrow : quote.utf8Size = 1 := by
      rcases (isQuote_iff quote).1 quoted with rfl | rfl <;> rfl
    simp only [Place.offset, none, Place.byteCount] at bytes ⊢
    omega

section

variable (edits : List Edit) {text : List Char}

theorem splice_ends {front : List Char} (last : Char) (found : List Occurrence)
    (within : ∀ m ∈ found, m.last.index ≤ front.length) : ∀ position, position ≤ front.length ->
      ∃ early, splice edits (front ++ [last]) position found = early ++ [last] := by
  induction found with
  | nil =>
    intro position before
    exact ⟨front.drop position, List.drop_append_of_le_length before⟩
  | cons m rest ih =>
    intro position _
    rw [List.forall_mem_cons] at within
    obtain ⟨early, ended⟩ := ih within.2 m.last.index within.1
    rw [splice, ended, ← List.append_assoc]
    exact ⟨_, rfl⟩

theorem splice_kept (found : List Occurrence) (spans : ∀ m ∈ found, m.Spans text)
    (apart : found.Pairwise fun m m' => m.last.index < m'.first.index) {cut : Nat}
    (same : ∀ m ∈ found, m.first.index < cut -> respelled edits m.specifier = m.specifier) :
    ∀ position, position ≤ cut -> (∀ m ∈ found, position ≤ m.first.index) ->
      ∃ more, splice edits text position found = (text.take cut).drop position ++ more := by
  -- Text is copied as it stands as long as no specifier before the cut is replaced by another.
  have further : ∀ {position stop : Nat}, position ≤ cut -> cut ≤ stop ->
      ∃ more, (text.take stop).drop position = (text.take cut).drop position ++ more := by
    intro position stop before beyond
    rw [drop_split (text.take stop) before, List.take_take, Nat.min_eq_left beyond]
    exact ⟨_, rfl⟩
  induction found with
  | nil => exact fun position before _ => ⟨_, drop_split text before⟩
  | cons m rest ih =>
    intro position before behind
    rw [List.forall_mem_cons] at spans same behind
    obtain ⟨later, apart⟩ := List.pairwise_cons.1 apart
    by_cases early : m.first.index < cut
    · have whole : splice edits text position (m :: rest) =
          (text.take m.last.index).drop position ++ splice edits text m.last.index rest := by
        have long : position ≤ (text.take m.first.index).length := by
          rw [spans.1.take_first, List.length_reverse]
          exact behind.1
        rw [splice, spans.1.take_last, ← spans.1.take_first, List.drop_append_of_le_length long]
        exact congrArg (_ ++ · ++ _) (same.1 early)
      rw [whole]
      rcases Nat.le_total m.last.index cut with inside | beyond
      · obtain ⟨more, kept⟩ := ih spans.2 apart same.2 m.last.index inside
          fun m' member => Nat.le_of_lt (later m' member)
        have onward : position ≤ m.last.index := by
          have length := spans.1.last_index
          omega
        have split := drop_split (text.take cut) onward
        rw [List.take_take, Nat.min_eq_left inside] at split
        exact ⟨more, by rw [kept, split, List.append_assoc]⟩
      · obtain ⟨more, split⟩ := further before beyond
        rw [split, List.append_assoc]
        exact ⟨_, rfl⟩
    · obtain ⟨more, split⟩ := further before (Nat.not_lt.1 early)
      rw [splice, split, List.append_assoc, List.append_assoc]
      exact ⟨_, rfl⟩

def drift (found : List Import) : Int := found.foldr (fun i more => growth edits i + more) 0

theorem drift_cons (i : Import) (rest : List Import) : drift edits (i :: rest) = growth edits i + drift edits rest :=
  rfl

theorem byteCount_splice (found : List Occurrence) (lies : ∀ m ∈ found, m.Lies text)
    (apart : found.Pairwise fun m m' => m.last.index < m'.first.index) : ∀ position,
      (∀ m ∈ found, position ≤ m.first.index) ->
      (Place.byteCount (splice edits text position found) : Int) =
        Place.byteCount (text.drop position) + drift edits (found.map Occurrence.toImport) := by
  induction found with
  | nil => simp [splice, drift]
  | cons m rest ih =>
    intro position before
    rw [List.forall_mem_cons] at lies before
    obtain ⟨behind, apart⟩ := List.pairwise_cons.1 apart
    have later := ih lies.2 apart m.last.index fun m' member => Nat.le_of_lt (behind m' member)
    have grows : growth edits m.toImport =
        Place.byteCount (respelled edits m.specifier) - Place.byteCount m.specifier := by
      rw [Place.byteCount_eq, Place.byteCount_eq, respelled_eq]
      rfl
    rw [lies.1.drop_eq before.1, splice, List.map_cons, drift_cons, grows]
    change ((Place.byteCount (_ ++ respelled edits m.specifier ++ _) : Nat) : Int) = _
    simp only [Place.byteCount_append]
    omega

theorem splice_middle {early late : List Occurrence} {m : Occurrence}
    (within : ∀ e ∈ early, e.first.index ≤ m.first.index ∧ e.last.index ≤ m.first.index)
    (beyond : ∀ e ∈ late, m.first.index ≤ e.first.index) : splice edits text 0 (early ++ m :: late) =
      splice edits (text.take m.first.index) 0 early ++
        (respelled edits m.specifier ++ splice edits text m.last.index late) := by
  have none : (text.take m.first.index).drop m.first.index = [] := by
    simp
  rw [splice_append edits early (m :: late) m.first.index within (by simpa using beyond) 0 (Nat.zero_le _), splice,
    none, List.nil_append]
  rfl

structure Around (text : List Char) (early : List Occurrence) (m : Occurrence) (late : List Occurrence) : Prop where
  own : m.Spans text
  spans : ∀ e ∈ early, e.Spans text
  spans' : ∀ e ∈ late, e.Spans text
  apart : early.Pairwise fun e e' => e.last.index < e'.first.index
  apart' : late.Pairwise fun e e' => e.last.index < e'.first.index
  ended : ∀ e ∈ early, e.last.index < m.first.index
  later : ∀ e ∈ late, m.last.index < e.first.index

section

variable {early late : List Occurrence} {m : Occurrence}

theorem around_of_split (split : occurrences text = early ++ m :: late) : Around text early m late := by
  have spans := occurrences_spans text
  have apart := occurrences_apart text
  rw [split] at spans apart
  obtain ⟨ordered, ahead, behind⟩ := List.pairwise_append.1 apart
  obtain ⟨later, ordered'⟩ := List.pairwise_cons.1 ahead
  exact ⟨spans m (by simp), fun e member => spans e (by simp [member]), fun e member => spans e (by simp [member]),
    ordered, ordered', fun e member => behind e member m List.mem_cons_self, later⟩

namespace Around

variable (around : Around text early m late)

include around

theorem within : ∀ e ∈ early, e.first.index ≤ m.first.index ∧ e.last.index ≤ m.first.index := by
  intro e member
  have length := (around.spans e member).last_index
  have ended := around.ended e member
  omega

theorem beyond : ∀ e ∈ late, m.first.index ≤ e.first.index := by
  intro e member
  have length := around.own.last_index
  have later := around.later e member
  omega

theorem lies : ∀ e ∈ early, e.Lies (text.take m.first.index) :=
  fun e member => (around.spans e member).lies _ (around.ended e member)

end Around

end

section

variable {early late : List Occurrence} {before m : Occurrence}
  (split : occurrences text = early ++ before :: m :: late)

include split

theorem splice_last : splice edits (text.take m.first.index) 0 (early ++ [before]) =
    splice edits (text.take before.first.index) 0 early ++
      (respelled edits before.specifier ++ (text.take m.first.index).drop before.last.index) := by
  have around := around_of_split split
  have next := around.beyond m List.mem_cons_self
  have whole : splice edits (text.take m.first.index) 0 (early ++ [before]) = _ :=
    splice_middle edits around.within fun _ impossible => (nomatch impossible)
  rw [List.take_take, Nat.min_eq_left next] at whole
  exact whole

theorem splice_next (next : before.last.index + 1 = m.first.index) :
    ∃ front opening closing, isQuote opening = true ∧ isQuote closing = true ∧
      splice edits (text.take m.first.index) 0 (early ++ [before]) =
        front ++ opening :: (respelled edits before.specifier ++ [closing]) := by
  have around := around_of_split split
  have spans := around.spans' m List.mem_cons_self
  obtain ⟨closing, rest, own, closes⟩ := spans.opening
  obtain ⟨opening, front, own', opens⟩ := around.own.opening
  have within : ∀ e ∈ early, e.last.index ≤ front.reverse.length := by
    intro e member
    have less := around.ended e member
    have index : before.first.index = front.length + 1 := by simp [Place.index, own']
    rw [List.length_reverse]
    omega
  obtain ⟨front', ended⟩ := splice_ends edits opening early within 0 (Nat.zero_le _)
  have index : before.last.index = rest.reverse.length := by
    simp only [Place.index, own, List.length_cons] at next
    simpa [Place.index] using next
  refine ⟨front', opening, closing, opens, closes, ?_⟩
  rw [splice_last edits split, spans.take_first, around.own.take_first, own, own', List.reverse_cons, List.reverse_cons,
    ended, List.drop_left' index.symm]
  simp

theorem splice_apart (between : before.last.index + 1 < m.first.index) :
    ∃ front front' opening rest closing, isQuote opening = true ∧ isQuote closing = true ∧
      splice edits (text.take m.first.index) 0 (early ++ [before]) = front ++ opening :: (rest ++ [closing]) ∧
      text.take m.first.index = front' ++ opening :: (rest ++ [closing]) := by
  have around := around_of_split split
  have spans := around.spans' m List.mem_cons_self
  obtain ⟨closing, rest, own, closes⟩ := spans.opening
  obtain ⟨opening, found, opens⟩ := around.own.last_char
  have taken := spans.take_first
  rw [own, List.reverse_cons] at taken
  have index : m.first.index = rest.length + 1 := by simp [Place.index, own]
  have inside : before.last.index < rest.reverse.length := by
    rw [List.length_reverse]
    omega
  -- The quote that closes the specifier before is still to come before the one that opens this one.
  have ahead : (text.take m.first.index).drop before.last.index =
      opening :: (rest.reverse.drop (before.last.index + 1) ++ [closing]) := by
    have here : rest.reverse[before.last.index]? = some opening := by
      rw [← List.getElem?_append_left inside, ← taken, List.getElem?_take_of_lt (by omega), found]
    rw [taken, List.drop_append_of_le_length (Nat.le_of_lt inside), List.drop_eq_getElem_cons inside]
    simp_all
  refine ⟨splice edits (text.take before.first.index) 0 early ++ respelled edits before.specifier,
    (text.take m.first.index).take before.last.index, opening, rest.reverse.drop (before.last.index + 1), closing,
    opens, closes, ?_, ?_⟩
  · rw [splice_last edits split, ahead, ← List.append_assoc]
  · rw [← ahead, List.take_append_drop]

end

end

end Stowage.Imports

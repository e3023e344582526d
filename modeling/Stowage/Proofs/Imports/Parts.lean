import Stowage.Proofs.Imports.Splicing

set_option autoImplicit false

namespace Stowage.Imports

structure Occurrence.Lies (m : Occurrence) (text : List Char) : Prop where
  upTo : text.take m.last.index = text.take m.first.index ++ m.specifier
  inside : ∀ c ∈ m.specifier, isQuote c = false
  closed : ∃ quote rest, text.drop m.last.index = quote :: rest ∧ isQuote quote = true

theorem Occurrence.Spans.lies {m : Occurrence} {text : List Char} (spans : m.Spans text) (stop : Nat)
    (within : m.last.index < stop) : m.Lies (text.take stop) where
  upTo := by
    have length := spans.last_index
    rw [List.take_take, List.take_take, Nat.min_eq_left (Nat.le_of_lt within), Nat.min_eq_left (by omega),
      spans.take_last, spans.take_first]
  inside c member := by
    have known := spans.inside c member
    simp only [isSpecifierChar, Bool.and_eq_true, Bool.not_eq_true'] at known
    exact known.1
  closed := by
    obtain ⟨quote, rest, ahead, quoted⟩ := spans.closing
    refine ⟨quote, rest.take (stop - m.last.index - 1), ?_, quoted⟩
    have left : stop - m.last.index = stop - m.last.index - 1 + 1 := by omega
    rw [List.drop_take, ← spans.last_whole, Place.drop_index, ahead, left, List.take_succ_cons]
    rfl

theorem Occurrence.Lies.drop_eq {m : Occurrence} {text : List Char} (lies : m.Lies text) {position : Nat}
    (before : position ≤ m.first.index) : text.drop position =
      (text.take m.first.index).drop position ++ (m.specifier ++ text.drop m.last.index) := by
  obtain ⟨quote, rest, closed, -⟩ := lies.closed
  have long := congrArg List.length closed
  have length := congrArg List.length lies.upTo
  simp only [List.length_drop, List.length_cons, List.length_append, List.length_take] at long length
  have whole := List.take_append_drop m.last.index text
  rw [lies.upTo, List.append_assoc] at whole
  conv_lhs => rw [← whole]
  rw [List.drop_append_of_le_length]
  rw [List.length_take]
  omega

theorem splice_closes (edits : List Edit) {text rest : List Char} {quote : Char} {position : Nat}
    (ahead : text.drop position = quote :: rest) (found : List Occurrence)
    (behind : ∀ m ∈ found, position < m.first.index) : ∃ more, splice edits text position found = quote :: more := by
  cases found with
  | nil => exact ⟨rest, ahead⟩
  | cons m later =>
    have left : m.first.index - position = m.first.index - position - 1 + 1 := by
      have := behind m List.mem_cons_self
      omega
    rw [splice, List.drop_take, ahead, left, List.take_succ_cons]
    exact ⟨_, rfl⟩

theorem append_quote_inj {first second rest rest' : List Char} {quote : Char} (quoted : isQuote quote = true)
    (free : ∀ c ∈ first, isQuote c = false) (free' : ∀ c ∈ second, isQuote c = false)
    (same : first ++ quote :: rest = second ++ quote :: rest') : first = second ∧ rest = rest' := by
  induction first generalizing second with
  | nil =>
    cases second with
    | nil => exact ⟨rfl, (List.cons.inj same).2⟩
    | cons c second =>
      obtain ⟨rfl, -⟩ := List.cons.inj same
      rw [free' quote List.mem_cons_self] at quoted
      cases quoted
  | cons c first ih =>
    cases second with
    | nil =>
      obtain ⟨rfl, -⟩ := List.cons.inj same
      rw [free c List.mem_cons_self] at quoted
      cases quoted
    | cons d second =>
      obtain ⟨rfl, onward⟩ := List.cons.inj same
      rw [List.forall_mem_cons] at free free'
      obtain ⟨rfl, rest⟩ := ih free.2 free'.2 onward
      exact ⟨rfl, rest⟩

section

variable (edits : List Edit) {text : List Char}

theorem countP_splice (found : List Occurrence) (lies : ∀ m ∈ found, m.Lies text)
    (apart : found.Pairwise fun m m' => m.last.index < m'.first.index) : ∀ position,
      (∀ m ∈ found, position ≤ m.first.index) ->
      (text.drop position).countP isQuote ≤ (splice edits text position found).countP isQuote := by
  induction found with
  | nil => exact fun position _ => Nat.le_refl _
  | cons m rest ih =>
    intro position before
    rw [List.forall_mem_cons] at lies
    obtain ⟨behind, apart⟩ := List.pairwise_cons.1 apart
    have later := ih lies.2 apart m.last.index fun m' member => Nat.le_of_lt (behind m' member)
    have none : m.specifier.countP isQuote = 0 := by
      simpa using lies.1.inside
    rw [lies.1.drop_eq (before m List.mem_cons_self), splice]
    simp only [List.countP_append]
    omega

theorem splice_eq_iff (found : List Occurrence) (lies : ∀ m ∈ found, m.Lies text)
    (apart : found.Pairwise fun m m' => m.last.index < m'.first.index) : ∀ position,
      (∀ m ∈ found, position ≤ m.first.index) ->
      (splice edits text position found = text.drop position ↔
        ∀ m ∈ found, respelled edits m.specifier = m.specifier) := by
  induction found with
  | nil => simp [splice]
  | cons m rest ih =>
    intro position before
    rw [List.forall_mem_cons] at lies
    obtain ⟨behind, apart⟩ := List.pairwise_cons.1 apart
    have onward : ∀ m' ∈ rest, m.last.index ≤ m'.first.index := fun m' member => Nat.le_of_lt (behind m' member)
    have later := ih lies.2 apart m.last.index onward
    rw [lies.1.drop_eq (before m List.mem_cons_self), splice, List.append_assoc, List.append_cancel_left_eq,
      List.forall_mem_cons, ← later]
    change respelled edits m.specifier ++ _ = _ ↔ _
    constructor
    · intro same
      -- The quotes of the text are all after the specifier, so that what is written for it holds none.
      have quotes := congrArg (List.countP isQuote) same
      have kept := countP_splice edits rest lies.2 apart m.last.index onward
      have none : m.specifier.countP isQuote = 0 := by
        simpa using lies.1.inside
      simp only [List.countP_append] at quotes
      have free : (respelled edits m.specifier).countP isQuote = 0 := by omega
      obtain ⟨quote, ahead, closed, quoted⟩ := lies.1.closed
      obtain ⟨more, spliced⟩ := splice_closes edits closed rest behind
      rw [spliced, closed] at same ⊢
      obtain ⟨spelt, rfl⟩ := append_quote_inj quoted (by simpa using free) lies.1.inside same
      exact ⟨spelt, rfl⟩
    · rintro ⟨spelt, same⟩
      rw [spelt, same]

theorem drop_split (chars : List Char) {position cut : Nat} (before : position ≤ cut) :
    chars.drop position = (chars.take cut).drop position ++ chars.drop cut := by
  have split := List.take_append_drop (cut - position) (chars.drop position)
  rw [List.drop_drop, Nat.add_sub_cancel' before, ← List.drop_take] at split
  exact split.symm

theorem splice_append (found later : List Occurrence) (cut : Nat)
    (within : ∀ m ∈ found, m.first.index ≤ cut ∧ m.last.index ≤ cut) (beyond : ∀ m ∈ later, cut ≤ m.first.index) :
    ∀ position, position ≤ cut -> splice edits text position (found ++ later) =
      splice edits (text.take cut) position found ++ splice edits text cut later := by
  induction found with
  | nil =>
    intro position before
    cases later with
    | nil => exact drop_split text before
    | cons m later =>
      have split := drop_split (text.take m.first.index) before
      rw [List.take_take, Nat.min_eq_left (beyond m List.mem_cons_self)] at split
      rw [List.nil_append, splice, splice, splice, split]
      simp only [List.append_assoc]
  | cons m rest ih =>
    intro position before
    rw [List.forall_mem_cons] at within
    have onward := ih within.2 m.last.index within.1.2
    rw [List.cons_append, splice, splice, onward, List.take_take, Nat.min_eq_left within.1.1]
    simp only [List.append_assoc]

end

def Occurrence.startsIn (start stop : Nat) (m : Occurrence) : Bool :=
  start ≤ m.first.index && m.first.index < stop

theorem Occurrence.startsIn_iff {start stop : Nat} {m : Occurrence} :
    m.startsIn start stop = true ↔ start ≤ m.first.index ∧ m.first.index < stop := by
  simp [startsIn]

def part (edits : List Edit) (text : List Char) (start stop : Nat) : List Char :=
  splice edits (text.take stop) start ((occurrences text).filter (Occurrence.startsIn start stop))

def Boundary (text : List Char) (cut : Nat) : Prop :=
  ∀ m ∈ occurrences text, m.first.index < cut -> m.last.index < cut

theorem filter_startsIn (found : List Occurrence)
    (sorted : found.Pairwise fun m m' => m.first.index < m'.first.index) {start cut stop : Nat}
    (early : start ≤ cut) (late : cut ≤ stop) : found.filter (Occurrence.startsIn start stop) =
      found.filter (Occurrence.startsIn start cut) ++ found.filter (Occurrence.startsIn cut stop) := by
  induction found with
  | nil => rfl
  | cons m rest ih =>
    obtain ⟨behind, sorted⟩ := List.pairwise_cons.1 sorted
    by_cases reached : m.first.index < cut
    · have out : m.startsIn cut stop = false := by
        simp only [Occurrence.startsIn, Bool.and_eq_false_iff, decide_eq_false_iff_not]
        omega
      have same : m.startsIn start stop = m.startsIn start cut := by
        rw [Bool.eq_iff_iff, Occurrence.startsIn_iff, Occurrence.startsIn_iff]
        omega
      rw [List.filter_cons, List.filter_cons, List.filter_cons, same, out, ih sorted]
      split <;> rfl
    · -- From here on, all occurrences are in the second part.
      have none : (m :: rest).filter (Occurrence.startsIn start cut) = [] := by
        refine List.filter_eq_nil_iff.2 fun m' member => ?_
        rw [Occurrence.startsIn_iff]
        rcases List.mem_cons.1 member with rfl | later
        · omega
        · have := behind m' later
          omega
      rw [none, List.nil_append]
      refine List.filter_congr fun m' member => ?_
      rw [Bool.eq_iff_iff, Occurrence.startsIn_iff, Occurrence.startsIn_iff]
      rcases List.mem_cons.1 member with rfl | later
      · omega
      · have := behind m' later
        omega

section

variable (edits : List Edit) (text : List Char)

theorem part_append {start cut stop : Nat} (early : start ≤ cut) (late : cut ≤ stop) (boundary : Boundary text cut) :
    part edits text start stop = part edits text start cut ++ part edits text cut stop := by
  unfold part
  rw [filter_startsIn _ (occurrences_sorted text) early late]
  have whole := @splice_append edits (text.take stop)
    ((occurrences text).filter (Occurrence.startsIn start cut))
    ((occurrences text).filter (Occurrence.startsIn cut stop)) cut ?_ ?_ start early
  · rw [whole, List.take_take, Nat.min_eq_left late]
  · intro m member
    obtain ⟨found, inside⟩ := List.mem_filter.1 member
    have starts := (Occurrence.startsIn_iff.1 inside).2
    exact ⟨Nat.le_of_lt starts, Nat.le_of_lt (boundary m found starts)⟩
  · intro m member
    exact (Occurrence.startsIn_iff.1 (List.mem_filter.1 member).2).1

theorem last_index_lt {m : Occurrence} (member : m ∈ occurrences text) : m.last.index < text.length := by
  have spans := occurrences_spans text m member
  obtain ⟨quote, rest, ahead, -⟩ := spans.closing
  rw [← spans.last_whole, Place.text, ahead]
  simp [Place.index]

theorem rewriteChars_eq_part : rewriteChars edits text = part edits text 0 text.length := by
  have all : (occurrences text).filter (Occurrence.startsIn 0 text.length) = occurrences text := by
    refine List.filter_eq_self.2 fun m member => Occurrence.startsIn_iff.2 ⟨Nat.zero_le _, ?_⟩
    have length := (occurrences_spans text m member).last_index
    have within := last_index_lt text member
    omega
  rw [rewriteChars_eq_splice, part, all, List.take_length]

theorem part_eq_iff {start stop : Nat} (boundary : Boundary text stop) :
    part edits text start stop = (text.take stop).drop start ↔
      ∀ m ∈ occurrences text, start ≤ m.first.index -> m.first.index < stop ->
        respelled edits m.specifier = m.specifier := by
  unfold part
  rw [splice_eq_iff]
  · simp only [List.mem_filter, Occurrence.startsIn_iff]
    exact ⟨fun all m found starts ends => all m ⟨found, starts, ends⟩,
      fun all m inside => all m inside.1 inside.2.1 inside.2.2⟩
  · intro m member
    obtain ⟨found, inside⟩ := List.mem_filter.1 member
    exact (occurrences_spans text m found).lies stop (boundary m found (Occurrence.startsIn_iff.1 inside).2)
  · exact (occurrences_apart text).filter _
  · intro m member
    exact (Occurrence.startsIn_iff.1 (List.mem_filter.1 member).2).1

end

end Stowage.Imports

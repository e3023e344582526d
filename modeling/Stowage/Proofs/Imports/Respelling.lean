import Stowage.Proofs.Imports.Splicing
import Stowage.Proofs.Imports.Swapping

set_option autoImplicit false

namespace Stowage

namespace Imports

namespace Swap

variable {w : Swap}

theorem occurrences_same : List.Forall₂ w.Same (occurrences w.source) (occurrences w.target) :=
  have ordered : Ordered w.Same := fun _ _ _ _ first second => first.first.index_le_iff second.first
  ordered.occurrences fun form member => occurrences_swap (proper_of_mem form member)

def moved (w : Swap) (i : Import) : Import :=
  if i.start < Place.byteCount w.before then i
  else if i.start = Place.byteCount w.before then
    { i with specifier := String.ofList w.new, stop := i.start + Place.byteCount w.new }
  else
    { i with
      start := i.start - Place.byteCount w.old + Place.byteCount w.new
      stop := i.stop - Place.byteCount w.old + Place.byteCount w.new }

theorem line_late (w : Swap) (read left left' : List Char) :
    (Place.mk (read ++ (w.new.reverse ++ w.before.reverse)) left').line =
      (Place.mk (read ++ (w.old.reverse ++ w.before.reverse)) left).line := by
  have level : ∀ specifier, Bare specifier -> specifier.reverse.count '\n' = 0 := by
    intro specifier bare
    refine List.count_eq_zero.2 fun member => ?_
    have inside := bare.inside _ (List.mem_reverse.1 member)
    simp [isSpecifierChar] at inside
  simp only [Place.line, List.count_append, level _ w.bare, level _ w.bare']

theorem Alike.line {p p' : Place} (alike : w.Alike p p') : p'.line = p.line := by
  cases alike with
  | early => rfl
  | late => exact w.line_late _ _ _

theorem Alike.offset {p p' : Place} (alike : w.Alike p p') :
    (p.index < w.before.length ∧ p.offset < Place.byteCount w.before ∧ p'.offset = p.offset) ∨
      (p.index = w.before.length ∧ p.offset = Place.byteCount w.before ∧ p'.offset = p.offset) ∨
      (w.before.length < p.index ∧ Place.byteCount w.before + Place.byteCount w.old ≤ p.offset ∧
        p'.offset = p.offset - Place.byteCount w.old + Place.byteCount w.new) := by
  cases alike with
  | early behind left whole =>
    have length := congrArg List.length whole
    have bytes := congrArg Place.byteCount whole
    rw [List.length_append, List.length_reverse] at length
    rw [Place.byteCount_append, Place.byteCount_reverse] at bytes
    by_cases ended : left = []
    · subst ended
      exact .inr (.inl ⟨length, bytes, rfl⟩)
    · have long := List.length_pos_iff.2 ended
      have filled := Place.byteCount_pos ended
      refine .inl ⟨?_, ?_, rfl⟩ <;> simp only [Place.index, Place.offset] <;> omega
  | late read left whole =>
    have filled := List.length_pos_iff.2 w.bare.filled
    refine .inr (.inr ?_)
    simp only [Place.index, Place.offset, List.length_append, List.length_reverse, Place.byteCount_append,
      Place.byteCount_reverse]
    omega

theorem Same.toImport {m m' : Occurrence} (same : w.Same m m') (spans : m.Spans w.source)
    (spans' : m'.Spans w.target) : m'.toImport = w.moved m.toImport := by
  have line := same.first.line
  unfold moved Occurrence.toImport
  rw [spans.last_offset, spans'.last_offset]
  rcases same.first.offset with ⟨away, early, start⟩ | ⟨here, level, start⟩ | ⟨away, late, start⟩
  · have kept : m'.specifier = m.specifier := by
      rcases same.specifier with ⟨here, -⟩ | ⟨-, kept⟩
      · exact absurd here (Nat.ne_of_lt away)
      · exact kept
    simp [early, kept, line, start]
  · have new : m'.specifier = w.new := by
      rcases same.specifier with ⟨-, -, new⟩ | ⟨away, -⟩
      · exact new
      · exact absurd here away
    simp [level, new, line, start]
  · have kept : m'.specifier = m.specifier := by
      rcases same.specifier with ⟨here, -⟩ | ⟨-, kept⟩
      · exact absurd here (Nat.ne_of_gt away)
      · exact kept
    have filled := Place.byteCount_pos w.bare.filled
    have notEarly : ¬ m.first.offset < Place.byteCount w.before := by omega
    have notHere : m.first.offset ≠ Place.byteCount w.before := by omega
    simp only [notEarly, notHere, if_false, kept, line, start, Import.mk.injEq, true_and]
    omega

end Swap

theorem list_swap (w : Swap) : Import.list (String.ofList w.target) =
    (Import.list (String.ofList w.source)).map w.moved := by
  have all := w.occurrences_same
  have spans := occurrences_spans w.source
  have spans' := occurrences_spans w.target
  rw [list_ofList, list_ofList]
  generalize occurrences w.source = found at all spans ⊢
  generalize occurrences w.target = found' at all spans' ⊢
  induction all with
  | nil => rfl
  | cons same _ ih =>
    rw [List.forall_mem_cons] at spans spans'
    rw [List.map_cons, List.map_cons, List.map_cons, same.toImport spans.1 spans'.1, ih spans.2 spans'.2]

def Clean (edits : List Edit) : Prop :=
  ∀ edit ∈ edits, Bare edit.raw.toList ∧ Bare edit.replacement.toList

instance (edits : List Edit) : Decidable (Clean edits) :=
  inferInstanceAs (Decidable (∀ edit ∈ edits, _))

theorem Clean.replacement {edits : List Edit} (clean : Clean edits) {specifier new : List Char}
    (known : replacement? edits specifier = some new) : Bare specifier ∧ Bare new := by
  obtain ⟨edit, found, rfl⟩ := Option.map_eq_some_iff.1 known
  have bare := clean edit (List.mem_of_find?_eq_some found)
  have same : edit.raw.toList = specifier := by simpa using List.find?_some found
  rwa [same] at bare

def growth (edits : List Edit) (i : Import) : Int :=
  (written edits i.specifier).utf8ByteSize - i.specifier.utf8ByteSize

/-- Imports as they are found again once their specifiers are rewritten, in a text that grew by `drift` bytes
before them. -/
inductive Drifted (edits : List Edit) : Int -> List Import -> List Import -> Prop
  | nil {drift : Int} : Drifted edits drift [] []
  | cons {drift : Int} {i i' : Import} {rest rest' : List Import}
    (specifier : i'.specifier = written edits i.specifier) (line : i'.line = i.line)
    (start : (i'.start : Int) = i.start + drift) (stop : (i'.stop : Int) = i.stop + (drift + growth edits i))
    (onward : Drifted edits (drift + growth edits i) rest rest') : Drifted edits drift (i :: rest) (i' :: rest')

theorem Drifted.further {edits : List Edit} {drift more : Int} {found found' : List Import}
    (drifted : Drifted edits drift found found') (move : Import -> Import)
    (moves : ∀ i ∈ found', (move i).specifier = i.specifier ∧ (move i).line = i.line ∧
      ((move i).start : Int) = i.start + more ∧ ((move i).stop : Int) = i.stop + more) :
    Drifted edits (drift + more) found (found'.map move) := by
  induction drifted with
  | nil => exact .nil
  | @cons drift i i' rest rest' specifier line start stop onward ih =>
    rw [List.forall_mem_cons] at moves
    obtain ⟨⟨specifier', line', start', stop'⟩, later⟩ := moves
    refine .cons (specifier'.trans specifier) (line'.trans line) (by omega) (by omega) ?_
    rw [Int.add_right_comm]
    exact ih later

theorem swap_of_mem {m : Occurrence} {text rest new : List Char} (spans : m.Spans text) (bare : Bare m.specifier)
    (bare' : Bare new)
    (member : m.toImport ∈ Import.list (String.ofList (m.first.behind.reverse ++ m.specifier ++ rest))) :
    ∃ w : Swap, w.before = m.first.behind.reverse ∧ w.old = m.specifier ∧ w.new = new ∧
      w.source = m.first.behind.reverse ++ m.specifier ++ rest ∧
      w.target = m.first.behind.reverse ++ new ++ rest := by
  rw [list_ofList] at member
  obtain ⟨there, found, same⟩ := List.mem_map.1 member
  have spans' := occurrences_spans _ there found
  have specifier : there.specifier = m.specifier := String.ofList_injective (congrArg Import.specifier same)
  have first : there.first = ⟨m.first.behind, m.specifier ++ rest⟩ := by
    refine Place.eq_of_offset ?_ (congrArg Import.start same)
    rw [spans'.whole, Place.text, List.append_assoc]
  have ahead := spans'.first_ahead
  rw [first, specifier] at ahead
  obtain ⟨closing, more, last, closes⟩ := spans'.closing
  obtain ⟨opening, front, behind, opens⟩ := spans.opening
  rw [last] at ahead
  obtain rfl := List.append_cancel_left ahead
  refine ⟨⟨front.reverse, opening, m.specifier, new, closing, more, opens, closes, bare, bare'⟩, ?_, rfl, rfl,
    ?_, ?_⟩ <;> simp [Swap.source, Swap.target, Swap.before, Swap.after, behind]

theorem list_target {edits : List Edit} (w : Swap) (known : replacement? edits w.old = some w.new) (i : Import)
    (start : i.start = Place.byteCount w.before) (specifier : i.specifier = String.ofList w.old)
    (early late later : List Import) (split : Import.list (String.ofList w.source) = early ++ i :: later)
    (drifted : Drifted edits 0 late later) :
    ∃ later', Import.list (String.ofList w.target) = early ++ later' ∧ Drifted edits 0 (i :: late) later' := by
  have within : ∀ j ∈ early ++ i :: later, j.start ≤ j.stop := by
    rw [← split]
    exact fun j member => start_le_stop member
  have apart := list_apart (String.ofList w.source)
  rw [split, List.pairwise_append, List.pairwise_cons] at apart
  obtain ⟨-, ⟨behind, -⟩, ahead⟩ := apart
  have stop : i.stop = i.start + Place.byteCount w.old := by
    have member : i ∈ Import.list (String.ofList w.source) := by simp [split]
    obtain ⟨m, -, spans, rfl⟩ := mem_list _ _ member
    rw [spans.toImport_stop, specifier, Place.byteCount_eq w.old]
  have spelt : written edits i.specifier = String.ofList w.new := by
    rw [specifier, ← respelled_eq, respelled, known, Option.getD_some]
  have grows : growth edits i = Place.byteCount w.new - Place.byteCount w.old := by
    rw [growth, spelt, specifier, Place.byteCount_eq, Place.byteCount_eq]
  -- Swapping moves what lies behind the import and leaves what lies before it.
  have old : early.map w.moved = early := by
    refine (List.map_congr_left fun j member => ?_).trans (List.map_id early)
    have less := ahead j member i List.mem_cons_self
    have here := within j (List.mem_append_left _ member)
    have before : j.start < Place.byteCount w.before := by omega
    simp [Swap.moved, before]
  refine ⟨w.moved i :: later.map w.moved, ?_, ?_⟩
  · rw [list_swap, split, List.map_append, List.map_cons, old]
  · have here : w.moved i = { i with specifier := String.ofList w.new, stop := i.start + Place.byteCount w.new } := by
      simp [Swap.moved, start]
    rw [here]
    refine .cons spelt.symm rfl (by simp) ?_ ?_
    · simp only
      omega
    · refine drifted.further w.moved fun j member => ?_
      have more := behind j member
      have long := within j (List.mem_append_right _ (List.mem_cons_of_mem _ member))
      have notEarly : ¬ j.start < Place.byteCount w.before := by omega
      have notHere : j.start ≠ Place.byteCount w.before := by omega
      simp only [Swap.moved, notEarly, notHere, if_false, true_and]
      omega

theorem list_rewritten {edits : List Edit} (clean : Clean edits) (text : List Char) (late : List Occurrence) :
    ∀ early, occurrences text = early ++ late ->
      ∃ late', Import.list (String.ofList (late.foldr (applyAt edits) text)) =
          early.map Occurrence.toImport ++ late' ∧
        Drifted edits 0 (late.map Occurrence.toImport) late' := by
  induction late with
  | nil =>
    intro early split
    rw [List.append_nil] at split
    exact ⟨[], by rw [List.foldr_nil, list_ofList, split, List.append_nil], .nil⟩
  | cons m late ih =>
    intro early split
    obtain ⟨later, found, drifted⟩ := ih (early ++ [m]) (by simp [split])
    have spans := occurrences_spans text
    have apart := occurrences_apart text
    rw [split] at spans apart
    have own := spans m (by simp)
    obtain ⟨behind, apart⟩ := List.pairwise_cons.1 (List.pairwise_append.1 apart).2.1
    -- Up to this import the text is still as it was.
    have kept := foldr_applyAt edits late (fun m' member => spans m' (by simp [member])) apart m.last.index
      fun m' member => Nat.le_of_lt (behind m' member)
    rw [own.take_last] at kept
    rw [List.map_append, List.append_assoc, List.map_singleton, List.singleton_append, kept] at found
    rw [List.foldr_cons, kept, applyAt, List.map_cons]
    generalize splice edits text m.last.index late = rest at found ⊢
    cases known : replacement? edits m.specifier with
    | none =>
      have spelt : m.toImport.specifier = written edits m.toImport.specifier := by
        refine Eq.trans ?_ (respelled_eq edits m.specifier)
        rw [respelled, known]
        rfl
      have still : growth edits m.toImport = 0 := by
        rw [growth, ← spelt, Int.sub_self]
      refine ⟨_, found, .cons spelt rfl (by omega) (by omega) ?_⟩
      rwa [still, Int.add_zero]
    | some new =>
      obtain ⟨bare, bare'⟩ := clean.replacement known
      have member : m.toImport ∈ Import.list (String.ofList (m.first.behind.reverse ++ m.specifier ++ rest)) := by
        rw [found]
        simp
      obtain ⟨w, before, old, new', source, target⟩ := swap_of_mem own bare bare' member
      have start : m.toImport.start = Place.byteCount w.before := by
        rw [before, Place.byteCount_reverse]
        rfl
      rw [← source] at found
      rw [← old, ← new'] at known
      simp only [own.replaced, ← target]
      exact list_target w known m.toImport start (congrArg String.ofList old.symm) _ _ _ found drifted

theorem Drifted.specifiers {edits : List Edit} {drift : Int} {found found' : List Import}
    (drifted : Drifted edits drift found found') :
    found'.map Import.specifier = (found.map Import.specifier).map (written edits) := by
  induction drifted with
  | nil => rfl
  | cons specifier _ _ _ _ ih => rw [List.map_cons, List.map_cons, List.map_cons, specifier, ih]

theorem Clean.drifted {edits : List Edit} (clean : Clean edits) (text : String) :
    Drifted edits 0 (Import.list text) (Import.list (rewriteImports edits text)) := by
  obtain ⟨found, same, drifted⟩ := list_rewritten clean text.toList (occurrences text.toList) [] rfl
  rw [List.map_nil, List.nil_append] at same
  exact same ▸ drifted

/-- A specifier without quotes, newlines and parentheses. -/
def Simple (specifier : String) : Prop :=
  specifier ≠ "" ∧ ∀ c ∈ specifier.toList, isSpecifierChar c = true ∧ c ≠ '(' ∧ c ≠ ')'

instance (specifier : String) : Decidable (Simple specifier) :=
  @instDecidableAnd _ _ _ (List.decidableBAll _ _)

theorem Simple.bare {specifier : String} (simple : Simple specifier) : Bare specifier.toList where
  filled := by simpa using simple.1
  inside c member := (simple.2 c member).1
  starts first := by
    have member := List.dropWhile_subset _ (List.mem_of_mem_head? first)
    exact (simple.2 _ member).2.2 rfl
  ends first := by
    have member := List.dropWhile_subset _ (List.mem_of_mem_head? first)
    exact (simple.2 _ (List.mem_reverse.1 member)).2.1 rfl

/-- A rewritten text has the imports it had, on the same lines and with the specifiers that the edits name replaced
once; each is as much further on as the specifiers before it grew. -/
theorem rewritten_imports_drift (edits : List Edit)
    (simple : ∀ edit ∈ edits, Simple edit.raw ∧ Simple edit.replacement) (text : String) :
    Drifted edits 0 (Import.list text) (Import.list (rewriteImports edits text)) := by
  have clean : Clean edits := fun edit member => ⟨(simple edit member).1.bare, (simple edit member).2.bare⟩
  exact clean.drifted text

theorem swapped_imports_drift :
    (∀ edit ∈ ([⟨"./a", "./lib/b"⟩, ⟨"./lib/b", "./a"⟩] : List Edit), Simple edit.raw ∧ Simple edit.replacement) ∧
      Drifted [⟨"./a", "./lib/b"⟩, ⟨"./lib/b", "./a"⟩] 0
        [⟨"./a", 1, 8, 11⟩, ⟨"./lib/b", 2, 22, 29⟩] [⟨"./lib/b", 1, 8, 15⟩, ⟨"./a", 2, 26, 29⟩] := by
  have simple : ∀ edit ∈ ([⟨"./a", "./lib/b"⟩, ⟨"./lib/b", "./a"⟩] : List Edit),
      Simple edit.raw ∧ Simple edit.replacement := by decide
  have drifted := rewritten_imports_drift _ simple "import './a'\nrequire('./lib/b')"
  have found : Import.list "import './a'\nrequire('./lib/b')" =
      [⟨"./a", 1, 8, 11⟩, ⟨"./lib/b", 2, 22, 29⟩] := by
    rw [Import.list, occurrences_of_gathered _ (by decide +kernel)]
    decide +kernel
  have rewrote : rewriteImports [⟨"./a", "./lib/b"⟩, ⟨"./lib/b", "./a"⟩] "import './a'\nrequire('./lib/b')" =
      "import './lib/b'\nrequire('./a')" := by
    rw [rewriteImports, rewriteChars, occurrences_of_gathered _ (by decide +kernel)]
    decide +kernel
  have found' : Import.list "import './lib/b'\nrequire('./a')" =
      [⟨"./lib/b", 1, 8, 15⟩, ⟨"./a", 2, 26, 29⟩] := by
    rw [Import.list, occurrences_of_gathered _ (by decide +kernel)]
    decide +kernel
  rw [found, rewrote, found'] at drifted
  exact ⟨simple, drifted⟩

end Imports

theorem imports_rewritten {edits : List Edit} (clean : Imports.Clean edits) (text : String) :
    (Import.list (rewriteImports edits text)).map Import.specifier =
      ((Import.list text).map Import.specifier).map (written edits) :=
  (clean.drifted text).specifiers

end Stowage

import Stowage.Imports.Rewrite
import Stowage.Proofs.Imports.Spans

set_option autoImplicit false

namespace Stowage

namespace Place

theorem take_index (p : Place) : p.text.take p.index = p.behind.reverse := by
  simp [text, index]

theorem drop_index (p : Place) : p.text.drop p.index = p.ahead := by
  simp [text, index]

theorem byteCount_reverse (chars : List Char) : byteCount chars.reverse = byteCount chars := by
  induction chars with
  | nil => rfl
  | cons c rest ih =>
    rw [List.reverse_cons, byteCount_append, ih, byteCount, byteCount, byteCount]
    omega

theorem byteCount_pos {chars : List Char} (filled : chars ≠ []) : 0 < byteCount chars := by
  obtain ⟨c, rest, rfl⟩ := List.exists_cons_of_ne_nil filled
  exact Nat.add_pos_left c.utf8Size_pos _

theorem behind_split {p q : Place} (same : p.text = q.text) (later : p.index < q.index) :
    ∃ between, between ≠ [] ∧ q.behind.reverse = p.behind.reverse ++ between := by
  have split := List.take_append_drop p.index q.behind.reverse
  have early : q.behind.reverse.take p.index = p.behind.reverse := by
    rw [← take_index q, List.take_take, Nat.min_eq_left (Nat.le_of_lt later), ← same, take_index]
  rw [early] at split
  refine ⟨_, ?_, split.symm⟩
  rw [Ne, List.drop_eq_nil_iff, List.length_reverse]
  exact Nat.not_le.2 later

theorem offset_lt {p q : Place} (same : p.text = q.text) (later : p.index < q.index) : p.offset < q.offset := by
  obtain ⟨between, filled, split⟩ := behind_split same later
  rw [offset, offset, ← byteCount_reverse q.behind, split, byteCount_append, byteCount_reverse]
  exact Nat.lt_add_of_pos_right (byteCount_pos filled)

theorem eq_of_index {p q : Place} (same : p.text = q.text) (level : p.index = q.index) : p = q := by
  have behind := take_index p
  rw [same, level, take_index, List.reverse_inj] at behind
  have ahead := drop_index p
  rw [same, level, drop_index] at ahead
  cases p
  cases q
  simp_all

theorem eq_of_offset {p q : Place} (same : p.text = q.text) (level : p.offset = q.offset) : p = q := by
  refine eq_of_index same ?_
  rcases Nat.lt_trichotomy p.index q.index with less | equal | more
  · exact absurd level (Nat.ne_of_lt (offset_lt same less))
  · exact equal
  · exact absurd level (Nat.ne_of_gt (offset_lt same.symm more))

theorem byteCount_eq (chars : List Char) : byteCount chars = (String.ofList chars).utf8ByteSize := by
  induction chars with
  | nil => rfl
  | cons c rest ih => simp [byteCount, ih]

end Place

def written (edits : List Edit) (raw : String) : String :=
  ((edits.find? fun edit => edit.raw == raw).map Edit.replacement).getD raw

namespace Imports

theorem find?_named (edits : List Edit) (raw : List Char) :
    (edits.find? fun edit => edit.raw.toList == raw) = edits.find? fun edit => edit.raw == String.ofList raw := by
  congr 1
  funext edit
  rw [Bool.eq_iff_iff, beq_iff_eq, beq_iff_eq, ← String.toList_inj, String.toList_ofList]

def respelled (edits : List Edit) (specifier : List Char) : List Char :=
  (replacement? edits specifier).getD specifier

theorem respelled_eq (edits : List Edit) (raw : List Char) :
    String.ofList (respelled edits raw) = written edits (String.ofList raw) := by
  unfold respelled replacement? written
  rw [find?_named]
  cases edits.find? fun edit => edit.raw == String.ofList raw with
  | none => rfl
  | some edit => simp

namespace Occurrence.Spans

variable {m m' : Occurrence} {text : List Char}

theorem opening (spans : m.Spans text) : ∃ quote front, m.first.behind = quote :: front ∧ isQuote quote = true := by
  obtain ⟨front, quote, _, _, opens, -, first, -⟩ := spans.quoted
  exact ⟨quote, front, by rw [first], opens⟩

theorem closing (spans : m.Spans text) : ∃ quote rest, m.last.ahead = quote :: rest ∧ isQuote quote = true := by
  obtain ⟨_, _, quote, rest, -, closes, -, last⟩ := spans.quoted
  exact ⟨quote, rest, by rw [last], closes⟩

theorem first_ahead (spans : m.Spans text) : m.first.ahead = m.specifier ++ m.last.ahead := by
  obtain ⟨_, _, _, _, -, -, first, last⟩ := spans.quoted
  rw [last]
  exact congrArg Place.ahead first

theorem last_behind (spans : m.Spans text) : m.last.behind = m.specifier.reverse ++ m.first.behind := by
  obtain ⟨_, _, _, _, -, -, first, last⟩ := spans.quoted
  rw [first]
  exact congrArg Place.behind last

theorem last_whole (spans : m.Spans text) : m.last.text = text := by
  rw [← spans.whole, Place.text, Place.text, spans.last_behind, spans.first_ahead]
  simp

theorem last_index (spans : m.Spans text) : m.last.index = m.first.index + m.specifier.length := by
  rw [Place.index, spans.last_behind, List.length_append, List.length_reverse, Place.index, Nat.add_comm]

theorem last_offset (spans : m.Spans text) :
    m.last.offset = m.first.offset + Place.byteCount m.specifier := by
  rw [Place.offset, spans.last_behind, Place.byteCount_append, Place.byteCount_reverse, Place.offset, Nat.add_comm]

theorem take_first (spans : m.Spans text) : text.take m.first.index = m.first.behind.reverse := by
  rw [← spans.whole, Place.take_index]

theorem take_last (spans : m.Spans text) :
    text.take m.last.index = m.first.behind.reverse ++ m.specifier := by
  have last := Place.take_index m.last
  rw [spans.last_whole, spans.last_behind, List.reverse_append, List.reverse_reverse] at last
  exact last

theorem replaced (spans : m.Spans text) (new rest : List Char) :
    replaceRange (m.first.behind.reverse ++ m.specifier ++ rest) m.first.index m.last.index new =
      m.first.behind.reverse ++ new ++ rest := by
  have start : m.first.behind.reverse.length = m.first.index := List.length_reverse
  have stop : (m.first.behind.reverse ++ m.specifier).length = m.last.index := by
    rw [List.length_append, start, spans.last_index]
  rw [replaceRange, List.drop_left' stop, List.append_assoc _ m.specifier, List.take_left' start]

theorem apart (spans : m.Spans text) (spans' : m'.Spans text) (later : m.first.index < m'.first.index) :
    m.last.index < m'.first.index := by
  by_contra within
  obtain ⟨quote, front, behind, quoted⟩ := spans'.opening
  have index : m'.first.index = front.length + 1 := by simp [Place.index, behind]
  have here : text[front.length]? = some quote := by
    rw [← spans'.whole, Place.text, behind]
    simp
  -- The opening quote of `m'` would be one of the characters between the quotes of `m`.
  have inside : quote ∈ m.specifier := by
    rw [spans.last_index] at within
    rw [← spans.whole, Place.text, spans.first_ahead, List.getElem?_append_right, List.getElem?_append_left] at here
    · exact List.mem_of_getElem? here
    · simp only [List.length_reverse]
      change _ - m.first.index < _
      omega
    · simp only [List.length_reverse]
      change m.first.index ≤ _
      omega
  have known := spans.inside quote inside
  rw [stops_of_isQuote quoted] at known
  cases known

theorem level (spans : m.Spans text) {index : Nat} (opened : m.first.index ≤ index + 1)
    (closed : index ≤ m.last.index) : text[index]? ≠ some '\n' := by
  intro newline
  obtain ⟨quote, front, behind, quoted⟩ := spans.opening
  obtain ⟨quote', rest, ahead, quoted'⟩ := spans.closing
  have whole : text = front.reverse ++ ((quote :: (m.specifier ++ [quote'])) ++ rest) := by
    rw [← spans.whole, Place.text, spans.first_ahead, behind, ahead]
    simp
  have first : m.first.index = front.length + 1 := by simp [Place.index, behind]
  have length := spans.last_index
  rw [whole, List.getElem?_append_right (by simp; omega), List.getElem?_append_left (by simp; omega)] at newline
  have plain : ∀ c, isQuote c = true -> c ≠ '\n' := by
    rintro c known rfl
    cases known
  rcases List.mem_cons.1 (List.mem_of_getElem? newline) with here | later
  · exact plain quote quoted here.symm
  · rcases List.mem_append.1 later with inside | last
    · have known := spans.inside _ inside
      simp [isSpecifierChar] at known
    · exact plain quote' quoted' (List.mem_singleton.1 last).symm

end Occurrence.Spans

theorem occurrences_apart (text : List Char) :
    (occurrences text).Pairwise fun m m' => m.last.index < m'.first.index := by
  refine (occurrences_sorted text).imp_of_mem fun member member' later => ?_
  exact (occurrences_spans text _ member).apart (occurrences_spans text _ member') later

section

variable (edits : List Edit) {text : List Char}

theorem foldr_applyAt (found : List Occurrence) (spans : ∀ m ∈ found, m.Spans text)
    (apart : found.Pairwise fun m m' => m.last.index < m'.first.index) : ∀ position,
      (∀ m ∈ found, position ≤ m.first.index) ->
      found.foldr (applyAt edits) text = text.take position ++ splice edits text position found := by
  induction found with
  | nil => exact fun position _ => (List.take_append_drop position text).symm
  | cons m rest ih =>
    intro position before
    obtain ⟨behind, apart⟩ := List.pairwise_cons.1 apart
    have own := spans m List.mem_cons_self
    have later := ih (fun m' member => spans m' (List.mem_cons_of_mem _ member)) apart m.last.index
      fun m' member => Nat.le_of_lt (behind m' member)
    have here := before m List.mem_cons_self
    have front := List.take_append_drop position (text.take m.first.index)
    rw [List.take_take, Nat.min_eq_left here] at front
    rw [own.take_first] at front
    rw [List.foldr_cons, later, own.take_last, splice, own.take_first, applyAt]
    cases replacement? edits m.specifier with
    | none => simp [← List.append_assoc, front]
    | some new =>
      simp only [own.replaced, Option.getD_some]
      rw [← List.append_assoc, ← List.append_assoc, front]

variable (text) in
theorem rewriteChars_eq_splice : rewriteChars edits text = splice edits text 0 (occurrences text) :=
  foldr_applyAt edits (occurrences text) (occurrences_spans text) (occurrences_apart text) 0
    fun _ _ => Nat.zero_le _

end

end Imports

/-- What is told of an import: where in the text its specifier stands, between two quotes. -/
structure Import.Stands (i : Import) (text before after : String) : Prop where
  whole : text = before ++ i.specifier ++ after
  opened : ∃ quote ∈ before.toList.getLast?, Imports.isQuote quote = true
  closed : ∃ quote ∈ after.toList.head?, Imports.isQuote quote = true
  filled : i.specifier ≠ ""
  inside : ∀ c ∈ i.specifier.toList, Imports.isQuote c = false ∧ c ≠ '\n'
  start : i.start = before.utf8ByteSize
  stop : i.stop = (before ++ i.specifier).utf8ByteSize
  line : i.line = before.toList.count '\n' + 1

namespace Imports

theorem toImport_start (m : Occurrence) :
    m.toImport.start = (String.ofList m.first.behind.reverse).utf8ByteSize := by
  rw [← Place.byteCount_eq, Place.byteCount_reverse]
  rfl

namespace Occurrence.Spans

variable {m : Occurrence} {text : List Char}

theorem toImport_stop (spans : m.Spans text) : m.toImport.stop = m.toImport.start + m.toImport.specifier.utf8ByteSize := by
  change m.last.offset = m.first.offset + (String.ofList m.specifier).utf8ByteSize
  rw [spans.last_offset, Place.byteCount_eq m.specifier]

theorem stands (spans : m.Spans text) : m.toImport.Stands (String.ofList text) (String.ofList m.first.behind.reverse)
    (String.ofList m.last.ahead) where
  whole := by
    rw [← spans.whole, Place.text, spans.first_ahead, ← List.append_assoc, String.ofList_append, String.ofList_append]
    rfl
  opened := by
    obtain ⟨quote, front, behind, quoted⟩ := spans.opening
    exact ⟨quote, by simp [behind], quoted⟩
  closed := by
    obtain ⟨quote, rest, ahead, quoted⟩ := spans.closing
    exact ⟨quote, by simp [ahead], quoted⟩
  filled := by
    intro empty
    exact spans.filled (by simpa [toImport] using empty)
  inside := by
    intro c member
    have known := spans.inside c (by simpa [toImport] using member)
    simpa [isSpecifierChar] using known
  start := toImport_start m
  stop := by rw [spans.toImport_stop, toImport_start, String.utf8ByteSize_append]
  line := by simp [toImport, Place.line]

end Occurrence.Spans

/-- Replace the bytes of a text from `start` up to `stop`. There is no result where the text does not reach that
far, or where a character would be cut. -/
def replaceBytes? (text : String) (start stop : Nat) (new : String) : Option String :=
  if start ≤ stop ∧ (String.Pos.Raw.mk start).IsValid text ∧ (String.Pos.Raw.mk stop).IsValid text then
    String.fromUTF8? (text.toUTF8.extract 0 start ++ new.toUTF8 ++ text.toUTF8.extract stop text.utf8ByteSize)
  else none

theorem replaceBytes?_append (front old new rest : String) :
    replaceBytes? (front ++ old ++ rest) front.utf8ByteSize (front ++ old).utf8ByteSize new =
      some (front ++ new ++ rest) := by
  have start : (String.Pos.Raw.mk front.utf8ByteSize).IsValid (front ++ old ++ rest) :=
    String.Pos.Raw.isValid_iff_exists_append.2 ⟨front, old ++ rest, String.append_assoc, rfl⟩
  have stop : (String.Pos.Raw.mk (front ++ old).utf8ByteSize).IsValid (front ++ old ++ rest) :=
    String.Pos.Raw.isValid_iff_exists_append.2 ⟨front ++ old, rest, rfl, rfl⟩
  have least : front.utf8ByteSize ≤ (front ++ old).utf8ByteSize := by simp
  have early : (front ++ old ++ rest).toUTF8.extract 0 front.utf8ByteSize = front.toUTF8 := by
    rw [String.append_assoc]
    exact ByteArray.extract_append_eq_left rfl
  have late : (front ++ old ++ rest).toUTF8.extract (front ++ old).utf8ByteSize
      (front ++ old ++ rest).utf8ByteSize = rest.toUTF8 :=
    ByteArray.extract_append_eq_right rfl String.utf8ByteSize_append
  unfold replaceBytes?
  rw [if_pos ⟨least, start, stop⟩, early, late]
  exact dif_pos (front ++ new ++ rest).isValidUTF8

def replaceAt? (edits : List Edit) (i : Import) (text : String) : Option String :=
  match edits.find? fun edit => edit.raw == i.specifier with
  | none => some text
  | some edit => replaceBytes? text i.start i.stop edit.replacement

def spliceBytes (edits : List Edit) (bytes : ByteArray) : Nat -> List Import -> ByteArray
  | position, [] => bytes.extract position bytes.size
  | position, i :: rest =>
    bytes.extract position i.start ++ (written edits i.specifier).toUTF8 ++ spliceBytes edits bytes i.stop rest

section

variable (edits : List Edit) {text : List Char}

theorem foldrM_replaceAt? (found : List Occurrence) (spans : ∀ m ∈ found, m.Spans text)
    (apart : found.Pairwise fun m m' => m.last.index < m'.first.index) :
    (found.map Occurrence.toImport).foldrM (replaceAt? edits) (String.ofList text) =
      some (String.ofList (found.foldr (applyAt edits) text)) := by
  induction found with
  | nil => rfl
  | cons m rest ih =>
    obtain ⟨behind, apart⟩ := List.pairwise_cons.1 apart
    have own := spans m List.mem_cons_self
    have spans' := fun m' member => spans m' (List.mem_cons_of_mem _ member)
    have later := foldr_applyAt edits rest spans' apart m.last.index fun m' member => Nat.le_of_lt (behind m' member)
    rw [own.take_last] at later
    -- What is replaced after `m` leaves the text up to its closing quote as it was.
    rw [List.map_cons, List.foldrM_cons, ih spans' apart, later, List.foldr_cons, later]
    change replaceAt? edits m.toImport _ = _
    have named : ∀ edit, edits.find? (fun edit => edit.raw == String.ofList m.specifier) = edit ->
        edits.find? (fun edit => edit.raw == m.toImport.specifier) = edit := fun _ known => known
    unfold replaceAt? applyAt replacement?
    rw [find?_named]
    cases known : edits.find? fun edit => edit.raw == String.ofList m.specifier with
    | none => simp only [named none known, Option.map_none, String.ofList_append]
    | some edit =>
      simp only [named (some edit) known, Option.map_some, own.replaced, String.ofList_append, toImport_start,
        own.stands.stop]
      rw [String.ofList_toList]
      exact replaceBytes?_append _ _ _ _

theorem extract_middle (front old rest : String) :
    (front ++ old ++ rest).toUTF8.extract front.utf8ByteSize (front ++ old).utf8ByteSize = old.toUTF8 := by
  have early : (front ++ old ++ rest).toUTF8.extract front.utf8ByteSize (front ++ old).utf8ByteSize =
      (front ++ old).toUTF8.extract front.utf8ByteSize (front ++ old).utf8ByteSize :=
    ByteArray.extract_append_size_left
  rw [early]
  exact ByteArray.extract_append_eq_right rfl String.utf8ByteSize_append

theorem toUTF8_splice (found : List Occurrence) (spans : ∀ m ∈ found, m.Spans text)
    (apart : found.Pairwise fun m m' => m.last.index < m'.first.index) : ∀ position,
      (∀ m ∈ found, position ≤ m.first.index) ->
      (String.ofList (splice edits text position found)).toUTF8 =
        spliceBytes edits (String.ofList text).toUTF8 (String.ofList (text.take position)).utf8ByteSize
          (found.map Occurrence.toImport) := by
  have cut : ∀ position, (String.ofList text).toUTF8 =
      (String.ofList (text.take position)).toUTF8 ++ (String.ofList (text.drop position)).toUTF8 := by
    intro position
    simp only [String.toUTF8_eq_toByteArray, ← String.toByteArray_append, ← String.ofList_append,
      List.take_append_drop]
  induction found with
  | nil =>
    intro position _
    rw [splice, List.map_nil, spliceBytes, cut position]
    exact (ByteArray.extract_append_eq_right rfl ByteArray.size_append).symm
  | cons m rest ih =>
    intro position before
    obtain ⟨behind, apart⟩ := List.pairwise_cons.1 apart
    have own := spans m List.mem_cons_self
    have later := ih (fun m' member => spans m' (List.mem_cons_of_mem _ member)) apart m.last.index
      fun m' member => Nat.le_of_lt (behind m' member)
    have front := List.take_append_drop position (text.take m.first.index)
    rw [List.take_take, Nat.min_eq_left (before m List.mem_cons_self), own.take_first] at front
    -- The bytes between two imports are those of the characters between them.
    have gap : (String.ofList text).toUTF8.extract (String.ofList (text.take position)).utf8ByteSize
        m.toImport.start = (String.ofList ((text.take m.first.index).drop position)).toUTF8 := by
      rw [toImport_start, ← front, ← own.take_first, String.ofList_append]
      have whole : String.ofList text = String.ofList (text.take position) ++
          String.ofList ((text.take m.first.index).drop position) ++ String.ofList (text.drop m.first.index) := by
        rw [← String.ofList_append, ← String.ofList_append, own.take_first, front, ← own.take_first,
          List.take_append_drop]
      rw [whole]
      exact extract_middle _ _ _
    have stop : (String.ofList (text.take m.last.index)).utf8ByteSize = m.toImport.stop := by
      rw [own.take_last, own.stands.stop, String.ofList_append]
      rfl
    have spelt : String.ofList ((replacement? edits m.specifier).getD m.specifier) =
        written edits m.toImport.specifier := respelled_eq edits m.specifier
    rw [stop] at later
    rw [splice, List.map_cons, spliceBytes, gap, ← later, ← spelt]
    simp [String.ofList_append, ByteArray.append_assoc]

end

theorem list_ofList (text : List Char) :
    Import.list (String.ofList text) = (occurrences text).map Occurrence.toImport := by
  rw [Import.list, String.toList_ofList]

theorem mem_list (text : String) (i : Import) (member : i ∈ Import.list text) :
    ∃ m ∈ occurrences text.toList, m.Spans text.toList ∧ m.toImport = i := by
  obtain ⟨m, found, rfl⟩ := List.mem_map.1 member
  exact ⟨m, found, occurrences_spans _ m found, rfl⟩

theorem start_le_stop {text : String} {i : Import} (member : i ∈ Import.list text) : i.start ≤ i.stop := by
  obtain ⟨m, -, spans, rfl⟩ := mem_list text i member
  rw [spans.toImport_stop]
  exact Nat.le_add_right _ _

theorem list_apart (text : String) : (Import.list text).Pairwise fun i j => i.stop < j.start := by
  refine List.pairwise_map.2 ((occurrences_apart text.toList).imp_of_mem fun {m m'} member member' later => ?_)
  have spans := occurrences_spans _ m member
  have spans' := occurrences_spans _ m' member'
  exact Place.offset_lt (spans.last_whole.trans spans'.whole.symm) later

/-- Replace in place from the last import of a text back to the first. -/
def rewriteBack? (edits : List Edit) (text : String) : Option String :=
  (Import.list text).foldrM (replaceAt? edits) text

/-- The imports of a text stand apart from each other, each between its quotes, so that replacing them in place
never fails, and the text that comes of it is the splice of the old one. -/
theorem rewriting_splices (text : String) :
    ((Import.list text).Pairwise fun i j => i.stop < j.start) ∧
    (∀ i ∈ Import.list text, i.start < i.stop ∧ ∃ before after, i.Stands text before after) ∧
    ∀ edits, rewriteBack? edits text = some (rewriteImports edits text) ∧
      (rewriteImports edits text).toUTF8 = spliceBytes edits text.toUTF8 0 (Import.list text) := by
  have spans := occurrences_spans text.toList
  have apart := occurrences_apart text.toList
  refine ⟨list_apart text, fun i member => ?_, fun edits => ⟨?_, ?_⟩⟩
  · obtain ⟨m, -, spans, rfl⟩ := mem_list text i member
    have stands := spans.stands
    rw [String.ofList_toList] at stands
    refine ⟨?_, _, _, stands⟩
    rw [spans.toImport_stop]
    have filled : m.toImport.specifier.utf8ByteSize ≠ 0 := by simpa using stands.filled
    omega
  · have replaced := foldrM_replaceAt? edits _ spans apart
    rw [String.ofList_toList] at replaced
    exact replaced
  · have spliced := toUTF8_splice edits _ spans apart 0 fun _ _ => Nat.zero_le _
    rw [← rewriteChars_eq_splice, String.ofList_toList] at spliced
    exact spliced

end Imports

end Stowage

import Stowage.Pattern.Basic

set_option autoImplicit false

namespace Stowage.Pattern

def passes (behind : List Char) : Item -> Bool
  | .one _ => false
  | .many _ => true
  | .lineStart => atLineStart behind
  | .wordStart => atWordStart behind

def openings (behind : List Char) : Pattern -> List Pattern
  | [] => [[]]
  | item :: rest => (item :: rest) :: (if passes behind item then openings behind rest else [])

def after (c : Char) : Pattern -> List Pattern
  | .one set :: rest => if set c then [rest] else []
  | .many set :: rest => if set c then [.many set :: rest] else []
  | _ => []

/-- One pattern of each length. Of the ends of one pattern this keeps them all. -/
def oneOfEach (patterns : List Pattern) : List Pattern :=
  patterns.foldr
    (fun pattern kept =>
      if kept.any fun other => other.length == pattern.length then kept else pattern :: kept)
    []

/-- Whether a part of the text meets the pattern that starts ahead, or that was begun before, with
one of `begun` left to be met. -/
def occursFrom (pattern : Pattern) (begun : List Pattern) (behind : List Char) :
    List Char -> Bool
  | [] => ((pattern :: begun).flatMap (openings behind)).any List.isEmpty
  | c :: rest =>
    let ways := (pattern :: begun).flatMap (openings behind)
    ways.any List.isEmpty ||
      occursFrom pattern (oneOfEach (ways.flatMap (after c))) (c :: behind) rest

def occursIn (pattern : Pattern) (text : List Char) : Bool :=
  occursFrom pattern [] [] text

theorem meets_item_iff (item : Item) (tail : Pattern) (behind rest : List Char) (c : Char)
    (q : Place) :
    Meets (item :: tail) ⟨behind, c :: rest⟩ q ↔
      (passes behind item = true ∧ Meets tail ⟨behind, c :: rest⟩ q) ∨
        ∃ left ∈ after c (item :: tail), Meets left ⟨c :: behind, rest⟩ q := by
  -- Passing an item reads nothing; the other items read one character or fail.
  cases item with
  | one set => by_cases inside : set c = true <;> simp [meets_one_iff, passes, after, inside]
  | many set => by_cases inside : set c = true <;> simp [meets_many_iff, passes, after, inside]
  | lineStart => simp [meets_lineStart_iff, passes, after]
  | wordStart => simp [meets_wordStart_iff, passes, after]

theorem meets_item_end_iff (item : Item) (tail : Pattern) (behind : List Char) (q : Place) :
    Meets (item :: tail) ⟨behind, []⟩ q ↔
      passes behind item = true ∧ Meets tail ⟨behind, []⟩ q := by
  cases item with
  | one set => simp [not_meets_one, passes]
  | many set => simp [meets_many_end_iff, passes]
  | lineStart => exact meets_lineStart_iff
  | wordStart => exact meets_wordStart_iff

theorem meets_nil_iff (p q : Place) : Meets [] p q ↔ q = p := by
  constructor
  · intro met
    cases met
    rfl
  · rintro rfl
    exact .done _

theorem meets_cons_iff (pattern : Pattern) (behind rest : List Char) (c : Char) (q : Place) :
    Meets pattern ⟨behind, c :: rest⟩ q ↔
      ([] ∈ openings behind pattern ∧ q = ⟨behind, c :: rest⟩) ∨
        ∃ left ∈ (openings behind pattern).flatMap (after c), Meets left ⟨c :: behind, rest⟩ q := by
  induction pattern with
  | nil => simp [meets_nil_iff, openings, after]
  | cons item tail ih =>
    rw [meets_item_iff, ih]
    by_cases passed : passes behind item = true
    · simp only [openings, passed, if_true, List.flatMap_cons, List.mem_append, List.mem_cons]
      grind
    · simp [openings, passed]

theorem meets_end_iff (pattern : Pattern) (behind : List Char) (q : Place) :
    Meets pattern ⟨behind, []⟩ q ↔ [] ∈ openings behind pattern ∧ q = ⟨behind, []⟩ := by
  induction pattern with
  | nil => simp [meets_nil_iff, openings]
  | cons item tail ih =>
    rw [meets_item_end_iff, ih]
    by_cases passed : passes behind item = true <;> simp [openings, passed]

theorem openings_suffix (behind : List Char) (pattern left : Pattern)
    (member : left ∈ openings behind pattern) : left <:+ pattern := by
  induction pattern with
  | nil => simp_all [openings]
  | cons item tail ih =>
    simp only [openings, List.mem_cons] at member
    rcases member with rfl | later
    · exact List.suffix_refl _
    · split at later
      · exact (ih later).trans (List.suffix_cons _ _)
      · simp at later

theorem after_suffix (c : Char) (pattern left : Pattern) (member : left ∈ after c pattern) :
    left <:+ pattern := by
  unfold after at member
  split at member
  · split at member <;> simp_all
  · split at member <;> simp_all
  · simp at member

theorem mem_of_mem_oneOfEach (patterns : List Pattern) (left : Pattern)
    (member : left ∈ oneOfEach patterns) : left ∈ patterns := by
  induction patterns with
  | nil => simp [oneOfEach] at member
  | cons first rest ih =>
    simp only [oneOfEach, List.foldr_cons] at member ih
    split at member
    · exact List.mem_cons_of_mem _ (ih member)
    · rcases List.mem_cons.1 member with rfl | later
      · exact List.mem_cons_self
      · exact List.mem_cons_of_mem _ (ih later)

theorem mem_oneOfEach (pattern : Pattern) (patterns : List Pattern) (left : Pattern)
    (ends : ∀ other ∈ patterns, other <:+ pattern)
    (member : left ∈ patterns) : left ∈ oneOfEach patterns := by
  induction patterns with
  | nil => simp at member
  | cons first rest ih =>
    have later := ih fun other inside => ends other (List.mem_cons_of_mem _ inside)
    simp only [oneOfEach, List.foldr_cons] at later ⊢
    split
    next known =>
      rcases List.mem_cons.1 member with rfl | inside
      · obtain ⟨other, kept, size⟩ := List.any_eq_true.1 known
        have inside := mem_of_mem_oneOfEach rest other kept
        have same : other = left :=
          (List.suffix_of_suffix_length_le (ends other (List.mem_cons_of_mem _ inside))
            (ends left List.mem_cons_self) (by simp_all)).eq_of_length (by simp_all)
        exact same ▸ kept
      · exact later inside
    · rcases List.mem_cons.1 member with rfl | inside
      · exact List.mem_cons_self
      · exact List.mem_cons_of_mem _ (later inside)

theorem any_isEmpty_iff (ways : List Pattern) : ways.any List.isEmpty = true ↔ [] ∈ ways := by
  rw [List.any_eq_true]
  constructor
  · rintro ⟨left, member, ended⟩
    exact List.isEmpty_iff.1 ended ▸ member
  · exact fun member => ⟨[], member, rfl⟩

theorem begun_meets_iff (begun : List Pattern) (behind rest : List Char) (c : Char) :
    (∃ start ∈ begun, ∃ q, Meets start ⟨behind, c :: rest⟩ q) ↔
      [] ∈ begun.flatMap (openings behind) ∨
        ∃ left ∈ (begun.flatMap (openings behind)).flatMap (after c), ∃ q, Meets left ⟨c :: behind, rest⟩ q := by
  rw [List.flatMap_assoc]
  constructor
  · rintro ⟨start, isStart, q, met⟩
    rcases (meets_cons_iff ..).1 met with ⟨ended, -⟩ | ⟨left, taken, met⟩
    · exact .inl (List.mem_flatMap.2 ⟨start, isStart, ended⟩)
    · exact .inr ⟨left, List.mem_flatMap.2 ⟨start, isStart, taken⟩, q, met⟩
  · rintro (ended | ⟨left, taken, q, met⟩)
    · obtain ⟨start, isStart, opened⟩ := List.mem_flatMap.1 ended
      exact ⟨start, isStart, _, (meets_cons_iff ..).2 (.inl ⟨opened, rfl⟩)⟩
    · obtain ⟨start, isStart, taken⟩ := List.mem_flatMap.1 taken
      exact ⟨start, isStart, q, (meets_cons_iff ..).2 (.inr ⟨left, taken, met⟩)⟩

theorem begun_meets_end_iff (begun : List Pattern) (behind : List Char) :
    (∃ start ∈ begun, ∃ q, Meets start ⟨behind, []⟩ q) ↔ [] ∈ begun.flatMap (openings behind) := by
  simp only [meets_end_iff, exists_and_left, exists_eq, and_true, List.mem_flatMap]

theorem occursFrom_iff (pattern : Pattern) (begun : List Pattern) (behind ahead : List Char)
    (ends : ∀ left ∈ begun, left <:+ pattern) :
    occursFrom pattern begun behind ahead = true ↔
      (∃ left ∈ begun, ∃ q, Meets left ⟨behind, ahead⟩ q) ∨
        ∃ p ∈ Place.all behind ahead, ∃ q, Meets pattern p q := by
  -- The patterns begun are carried along, each a suffix of the whole one; a new one begins at every character.
  induction ahead generalizing begun behind with
  | nil =>
    rw [occursFrom, any_isEmpty_iff, ← begun_meets_end_iff]
    simp only [Place.all, List.mem_cons, exists_eq_or_imp, List.not_mem_nil, or_false, exists_eq_left]
    exact or_comm
  | cons c rest ih =>
    let lefts := ((pattern :: begun).flatMap (openings behind)).flatMap (after c)
    have left_suffix : ∀ left ∈ lefts, left <:+ pattern := by
      intro left member
      obtain ⟨way, isWay, taken⟩ := List.mem_flatMap.1 member
      obtain ⟨start, isStart, opened⟩ := List.mem_flatMap.1 isWay
      have started : start <:+ pattern := by
        rcases List.mem_cons.1 isStart with rfl | before
        · exact List.suffix_refl _
        · exact ends start before
      exact (after_suffix c way left taken).trans ((openings_suffix behind start way opened).trans started)
    -- Keeping one of each loses none, since two suffixes of one pattern differ in their length.
    have kept_iff : ∀ left, left ∈ oneOfEach lefts ↔ left ∈ lefts :=
      fun left => ⟨mem_of_mem_oneOfEach _ left, mem_oneOfEach pattern _ left left_suffix⟩
    have onward := ih (oneOfEach lefts) (c :: behind) fun left member => left_suffix left ((kept_iff left).1 member)
    simp only [kept_iff] at onward
    rw [occursFrom, Bool.or_eq_true, any_isEmpty_iff, onward, ← or_assoc, ← begun_meets_iff]
    simp only [Place.all, List.mem_cons, exists_eq_or_imp]
    exact or_assoc.trans or_left_comm

theorem occursIn_iff (pattern : Pattern) (text : List Char) :
    occursIn pattern text = true ↔ ∃ p ∈ Place.all [] text, ∃ q, Meets pattern p q := by
  rw [occursIn, occursFrom_iff pattern [] [] text (by simp)]
  simp

end Stowage.Pattern

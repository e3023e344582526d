import Stowage.Imports.Basic

set_option autoImplicit false

namespace Stowage

def Item.takes : Item -> Char -> Bool
  | .one set, c => set c
  | .many set, c => set c
  | _, _ => false

namespace Pattern

theorem atLineStart_eq (behind : List Char) :
    atLineStart behind = behind.head?.all (· == '\n') := by
  cases behind <;> rfl

theorem atWordStart_eq (behind : List Char) :
    atWordStart behind = behind.head?.all (!Text.isWord ·) := by
  cases behind <;> rfl

theorem newline_behind {p : Place} (starts : atLineStart p.behind = true) {index : Nat}
    (next : p.index = index + 1) : p.text[index]? = some '\n' := by
  obtain ⟨behind, ahead⟩ := p
  cases behind with
  | nil => cases next
  | cons c front =>
    obtain rfl : c = '\n' := eq_of_beq starts
    obtain rfl : front.length = index := Nat.succ.inj next
    simp [Place.text]

structure InStep (items : List Item) (related : Place -> Place -> Prop) : Prop where
  heads : ∀ p p', related p p' -> p.behind.head? = p'.behind.head?
  steps : ∀ p p', related p p' -> (p.ahead = [] ∧ p'.ahead = []) ∨
    ∃ c rest rest', p.ahead = c :: rest ∧ p'.ahead = c :: rest' ∧
      ((∃ item ∈ items, item.takes c = true) -> related ⟨c :: p.behind, rest⟩ ⟨c :: p'.behind, rest'⟩)

theorem InStep.mono {items fewer : List Item} {related : Place -> Place -> Prop}
    (inStep : InStep items related) (within : fewer ⊆ items) : InStep fewer related := by
  refine ⟨inStep.heads, fun p p' here => ?_⟩
  rcases inStep.steps p p' here with ended | ⟨c, rest, rest', ahead, ahead', onward⟩
  · exact .inl ended
  · refine .inr ⟨c, rest, rest', ahead, ahead', fun taken => ?_⟩
    obtain ⟨item, member, takes⟩ := taken
    exact onward ⟨item, within member, takes⟩

section

variable {Result : Type} {outcome : Result -> Result -> Prop} {related : Place -> Place -> Prop}
  {next next' : Place -> Option Result}

theorem takeMany_inStep {set : Char -> Bool} (inStep : InStep [.many set] related)
    (ends : ∀ p p', related p p' -> Option.Rel outcome (next p) (next' p')) (ahead : List Char) :
    ∀ behind p', related ⟨behind, ahead⟩ p' ->
      Option.Rel outcome (takeMany set next behind ahead) (takeMany set next' p'.behind p'.ahead) := by
  induction ahead with
  | nil =>
    intro behind p' here
    have ended := ends _ _ here
    rcases inStep.steps _ _ here with ⟨-, ahead'⟩ | ⟨c, rest, rest', impossible, -⟩
    · obtain ⟨behind', _⟩ := p'
      subst ahead'
      exact ended
    · cases impossible
  | cons c rest ih =>
    intro behind p' here
    have ended := ends _ _ here
    rcases inStep.steps _ _ here with ⟨impossible, -⟩ | ⟨_, _, rest', same, ahead', onward⟩
    · cases impossible
    · cases same
      obtain ⟨behind', _⟩ := p'
      subst ahead'
      unfold takeMany
      generalize next ⟨behind, c :: rest⟩ = first at ended ⊢
      generalize next' ⟨behind', c :: rest'⟩ = second at ended ⊢
      -- Both runs end here or neither does, and the next character is the same for both.
      cases ended with
      | some known => exact .some known
      | none =>
        by_cases inside : set c = true
        · simp only [inside, if_true]
          exact ih _ _ (onward ⟨_, List.mem_singleton_self _, inside⟩)
        · simp only [inside]
          exact .none

theorem meet_inStep (pattern : Pattern) (inStep : InStep pattern related)
    (ends : ∀ p p', related p p' -> Option.Rel outcome (next p) (next' p')) :
    ∀ p p', related p p' -> Option.Rel outcome (meet pattern next p) (meet pattern next' p') := by
  induction pattern with
  | nil => exact ends
  | cons item tail ih =>
    have later := ih (inStep.mono (List.subset_cons_self _ _))
    intro p p' here
    rw [meet_cons, meet_cons]
    -- Related places have one character ahead in common, or none, and one behind.
    cases item with
    | one set =>
      unfold takeItem
      rcases inStep.steps p p' here with ⟨ended, ended'⟩ | ⟨c, rest, rest', ahead, ahead', onward⟩
      · simp only [ended, ended']
        exact .none
      · simp only [ahead, ahead']
        by_cases inside : set c = true
        · simp only [inside, if_true]
          exact later _ _ (onward ⟨_, List.mem_cons_self, inside⟩)
        · simp only [inside]
          exact .none
    | many set =>
      have inStep' : InStep [.many set] related := inStep.mono (by simp)
      exact takeMany_inStep inStep' later p.ahead p.behind p' here
    | lineStart =>
      unfold takeItem
      simp only [atLineStart_eq, inStep.heads p p' here]
      split
      · exact later p p' here
      · exact .none
    | wordStart =>
      unfold takeItem
      simp only [atWordStart_eq, inStep.heads p p' here]
      split
      · exact later p p' here
      · exact .none

end

theorem meet_append {Result : Type} (first second : Pattern) (next : Place -> Option Result) :
    meet (first ++ second) next = meet first (meet second next) :=
  List.foldr_append

theorem inStep_text (items : List Item) (text : List Char) :
    InStep items fun p p' => p = p' ∧ p.text = text := by
  refine ⟨fun p p' ⟨same, _⟩ => by rw [same], ?_⟩
  rintro ⟨behind, ahead⟩ p' ⟨rfl, whole⟩
  cases ahead with
  | nil => exact .inl ⟨rfl, rfl⟩
  | cons c rest =>
    refine .inr ⟨c, rest, rest, rfl, rfl, fun _ => ⟨rfl, ?_⟩⟩
    rw [← whole]
    simp [Place.text]

theorem meet_good {Result : Type} (good : Result -> Prop) (text : List Char) (pattern : Pattern)
    (next : Place -> Option Result)
    (ends : ∀ p, p.text = text -> ∀ result, next p = some result -> good result) (p : Place)
    (whole : p.text = text) (result : Result) (met : meet pattern next p = some result) :
    good result := by
  have related : Option.Rel (fun r _ => good r) (meet pattern next p) (meet pattern next p) := by
    refine meet_inStep pattern (inStep_text pattern text) ?_ p p ⟨rfl, whole⟩
    rintro q _ ⟨rfl, whole⟩
    cases reached : next q with
    | none => exact .none
    | some found => exact .some (ends q whole found reached)
  rw [met] at related
  cases related with
  | some holds => exact holds

theorem meet_none {Result : Type} (pattern : Pattern) (inside : Place -> Prop)
    (next : Place -> Option Result)
    (steps : ∀ p c rest, inside p -> p.ahead = c :: rest ->
      (∃ item ∈ pattern, item.takes c = true) -> inside ⟨c :: p.behind, rest⟩)
    (ends : ∀ p, inside p -> next p = none) (p : Place) (here : inside p) :
    meet pattern next p = none := by
  have inStep : InStep pattern fun p p' => p = p' ∧ inside p := by
    refine ⟨fun p p' ⟨same, _⟩ => by rw [same], ?_⟩
    rintro ⟨behind, ahead⟩ p' ⟨rfl, here⟩
    cases ahead with
    | nil => exact .inl ⟨rfl, rfl⟩
    | cons c rest =>
      exact .inr ⟨c, rest, rest, rfl, rfl, fun taken => ⟨rfl, steps _ c rest here rfl taken⟩⟩
  have related : Option.Rel (fun _ _ => False) (meet pattern next p) (meet pattern next p) := by
    refine meet_inStep pattern inStep ?_ p p ⟨rfl, here⟩
    rintro q _ ⟨rfl, here⟩
    rw [ends q here]
    exact .none
  cases reached : meet pattern next p with
  | none => rfl
  | some result =>
    rw [reached] at related
    cases related with
    | some impossible => exact impossible.elim

section

variable {Result : Type} {next ends : Place -> Option Result} {result : Result}

theorem takeMany_eq_some {set : Char -> Bool} {tail : Pattern}
    (sound : ∀ p, next p = some result -> ∃ q, Meets tail p q ∧ ends q = some result) (ahead : List Char) :
    ∀ behind, takeMany set next behind ahead = some result ->
      ∃ q, Meets (.many set :: tail) ⟨behind, ahead⟩ q ∧ ends q = some result := by
  induction ahead with
  | nil =>
    intro behind met
    obtain ⟨q, onward, reached⟩ := sound _ met
    exact ⟨q, .manyNone onward, reached⟩
  | cons c rest ih =>
    intro behind met
    unfold takeMany at met
    split at met
    next found stopped =>
      cases met
      obtain ⟨q, onward, reached⟩ := sound _ stopped
      exact ⟨q, .manyNone onward, reached⟩
    · split at met
      next taken =>
        obtain ⟨q, onward, reached⟩ := ih _ met
        exact ⟨q, .manyMore taken onward, reached⟩
      · cases met

theorem meet_eq_some (pattern : Pattern) (p : Place) (met : meet pattern ends p = some result) :
    ∃ q, Meets pattern p q ∧ ends q = some result := by
  induction pattern generalizing p with
  | nil => exact ⟨p, .done p, met⟩
  | cons item tail ih =>
    obtain ⟨behind, ahead⟩ := p
    rw [meet_cons] at met
    cases item with
    | many set => exact takeMany_eq_some ih ahead behind met
    | one set =>
      cases ahead with
      | nil => cases met
      | cons c rest =>
        simp only [takeItem] at met
        split at met
        next taken =>
          obtain ⟨q, onward, reached⟩ := ih _ met
          exact ⟨q, .one taken onward, reached⟩
        · cases met
    | lineStart =>
      simp only [takeItem] at met
      split at met
      next starts =>
        obtain ⟨q, onward, reached⟩ := ih _ met
        exact ⟨q, .lineStart starts onward, reached⟩
      · cases met
    | wordStart =>
      simp only [takeItem] at met
      split at met
      next starts =>
        obtain ⟨q, onward, reached⟩ := ih _ met
        exact ⟨q, .wordStart starts onward, reached⟩
      · cases met

end

theorem Meets.split {pattern : Pattern} {p q : Place} (met : Meets pattern p q) :
    ∀ first second, pattern = first ++ second -> ∃ mid, Meets first p mid ∧ Meets second mid q := by
  -- Where the first pattern is used up, the meeting left is the second one; else one item of it is met.
  induction met with
  | done p =>
    intro first second whole
    obtain ⟨rfl, rfl⟩ := List.append_eq_nil_iff.1 whole.symm
    exact ⟨p, .done p, .done p⟩
  | one taken onward ih =>
    rintro (_ | ⟨item, first⟩) second whole
    · obtain rfl : _ = second := whole
      exact ⟨_, .done _, .one taken onward⟩
    · obtain ⟨rfl, rfl⟩ := List.cons.inj whole
      obtain ⟨mid, one, two⟩ := ih first second rfl
      exact ⟨mid, .one taken one, two⟩
  | manyNone onward ih =>
    rintro (_ | ⟨item, first⟩) second whole
    · obtain rfl : _ = second := whole
      exact ⟨_, .done _, .manyNone onward⟩
    · obtain ⟨rfl, rfl⟩ := List.cons.inj whole
      obtain ⟨mid, one, two⟩ := ih first second rfl
      exact ⟨mid, .manyNone one, two⟩
  | manyMore taken onward ih =>
    rintro (_ | ⟨item, first⟩) second whole
    · obtain rfl : _ = second := whole
      exact ⟨_, .done _, .manyMore taken onward⟩
    · obtain ⟨rfl, rfl⟩ := List.cons.inj whole
      obtain ⟨mid, one, two⟩ := ih (_ :: first) second rfl
      exact ⟨mid, .manyMore taken one, two⟩
  | lineStart starts onward ih =>
    rintro (_ | ⟨item, first⟩) second whole
    · obtain rfl : _ = second := whole
      exact ⟨_, .done _, .lineStart starts onward⟩
    · obtain ⟨rfl, rfl⟩ := List.cons.inj whole
      obtain ⟨mid, one, two⟩ := ih first second rfl
      exact ⟨mid, .lineStart starts one, two⟩
  | wordStart starts onward ih =>
    rintro (_ | ⟨item, first⟩) second whole
    · obtain rfl : _ = second := whole
      exact ⟨_, .done _, .wordStart starts onward⟩
    · obtain ⟨rfl, rfl⟩ := List.cons.inj whole
      obtain ⟨mid, one, two⟩ := ih first second rfl
      exact ⟨mid, .wordStart starts one, two⟩

theorem Meets.append {first second : Pattern} {p mid q : Place} (met : Meets first p mid)
    (onward : Meets second mid q) : Meets (first ++ second) p q := by
  induction met with
  | done => exact onward
  | one inside _ ih => exact .one inside (ih onward)
  | manyNone _ ih => exact .manyNone (ih onward)
  | manyMore inside _ ih => exact .manyMore inside (ih onward)
  | lineStart starts _ ih => exact .lineStart starts (ih onward)
  | wordStart starts _ ih => exact .wordStart starts (ih onward)

theorem Meets.taken {pattern : Pattern} {p q : Place} (met : Meets pattern p q) :
    ∃ taken, p.ahead = taken ++ q.ahead ∧ q.behind = taken.reverse ++ p.behind ∧
      ∀ c ∈ taken, ∃ item ∈ pattern, item.takes c = true := by
  have onward : ∀ {c item ahead behind taken} {tail : Pattern} {q : Place}, Item.takes item c = true ->
      ahead = taken ++ q.ahead -> q.behind = taken.reverse ++ c :: behind ->
      (∀ d ∈ taken, ∃ other ∈ item :: tail, other.takes d = true) ->
      ∃ taken, c :: ahead = taken ++ q.ahead ∧ q.behind = taken.reverse ++ behind ∧
        ∀ d ∈ taken, ∃ other ∈ item :: tail, other.takes d = true := by
    intro c item ahead behind taken tail q takes before after inside
    refine ⟨c :: taken, by rw [before, List.cons_append], by simp [after], fun d member => ?_⟩
    rcases List.mem_cons.1 member with rfl | later
    · exact ⟨item, List.mem_cons_self, takes⟩
    · exact inside d later
  have more : ∀ {item tail d}, (∃ other ∈ tail, Item.takes other d = true) ->
      ∃ other ∈ item :: tail, other.takes d = true := by
    rintro item tail d ⟨other, member, takes⟩
    exact ⟨other, List.mem_cons_of_mem _ member, takes⟩
  -- A rule that reads one character adds it to those taken; any other leaves them.
  induction met with
  | done p => exact ⟨[], rfl, rfl, by simp⟩
  | one takes _ ih =>
    obtain ⟨taken, before, after, inside⟩ := ih
    exact onward takes before after fun d member => more (inside d member)
  | manyMore takes _ ih =>
    obtain ⟨taken, before, after, inside⟩ := ih
    exact onward takes before after inside
  | manyNone _ ih | lineStart _ _ ih | wordStart _ _ ih =>
    obtain ⟨taken, before, after, inside⟩ := ih
    exact ⟨taken, before, after, fun d member => more (inside d member)⟩

theorem Meets.text_eq {pattern : Pattern} {p q : Place} (met : Meets pattern p q) : q.text = p.text := by
  obtain ⟨taken, ahead, behind, -⟩ := met.taken
  simp [Place.text, ahead, behind]

theorem Meets.index_le {pattern : Pattern} {p q : Place} (met : Meets pattern p q) : p.index ≤ q.index := by
  obtain ⟨taken, -, behind, -⟩ := met.taken
  simp [Place.index, behind]

theorem Meets.passed {pattern : Pattern} {p q : Place} (met : Meets pattern p q) {index : Nat}
    (after : p.index ≤ index) (before : index < q.index) :
    ∃ c, p.text[index]? = some c ∧ ∃ item ∈ pattern, item.takes c = true := by
  obtain ⟨taken, ahead, behind, known⟩ := met.taken
  have length : q.index = taken.length + p.index := by simp [Place.index, behind]
  have inside : index - p.index < taken.length := by omega
  refine ⟨taken[index - p.index], ?_, known _ (List.getElem_mem inside)⟩
  rw [Place.text, List.getElem?_append_right (by simpa [Place.index] using after), ahead, List.length_reverse]
  exact (List.getElem?_append_left inside).trans (List.getElem?_eq_getElem inside)

end Pattern

end Stowage

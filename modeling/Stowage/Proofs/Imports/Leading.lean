import Stowage.Proofs.Imports.Matching

set_option autoImplicit false

namespace Stowage

namespace Pattern

theorem Meets.carried {pattern : Pattern} {p q : Place} (met : Meets pattern p q) :
    ∃ taken, p.ahead = taken ++ q.ahead ∧ q.behind = taken.reverse ++ p.behind ∧
      ∀ behind ahead, atLineStart behind = atLineStart p.behind -> atWordStart behind = atWordStart p.behind ->
        Meets pattern ⟨behind, taken ++ ahead⟩ ⟨taken.reverse ++ behind, ahead⟩ := by
  have onward : ∀ {taken rest : List Char} {c : Char} {behind : List Char} {q : Place}, rest = taken ++ q.ahead ->
      q.behind = taken.reverse ++ c :: behind ->
      c :: rest = c :: taken ++ q.ahead ∧ q.behind = (c :: taken).reverse ++ behind := by
    intro taken rest c behind q before after
    exact ⟨congrArg (List.cons c) before, by simp [after]⟩
  -- What a meeting sees of the text behind it is whether a line or a word starts there; after one character it is told.
  induction met with
  | done p => exact ⟨[], rfl, rfl, fun _ _ _ _ => .done _⟩
  | @one set rest behind ahead c q inside _ ih =>
    obtain ⟨taken, before, after, carried⟩ := ih
    obtain ⟨before, after⟩ := onward before after
    refine ⟨c :: taken, before, after, fun behind' ahead' _ _ => ?_⟩
    rw [List.reverse_cons, List.append_assoc]
    exact .one inside (carried (c :: behind') ahead' rfl rfl)
  | manyNone _ ih =>
    obtain ⟨taken, before, after, carried⟩ := ih
    exact ⟨taken, before, after, fun behind ahead lined worded => .manyNone (carried behind ahead lined worded)⟩
  | @manyMore set rest behind ahead c q inside _ ih =>
    obtain ⟨taken, before, after, carried⟩ := ih
    obtain ⟨before, after⟩ := onward before after
    refine ⟨c :: taken, before, after, fun behind' ahead' _ _ => ?_⟩
    rw [List.reverse_cons, List.append_assoc]
    exact .manyMore inside (carried (c :: behind') ahead' rfl rfl)
  | lineStart starts _ ih =>
    obtain ⟨taken, before, after, carried⟩ := ih
    refine ⟨taken, before, after, fun behind ahead lined worded => ?_⟩
    exact .lineStart (lined.trans starts) (carried behind ahead lined worded)
  | wordStart starts _ ih =>
    obtain ⟨taken, before, after, carried⟩ := ih
    refine ⟨taken, before, after, fun behind ahead lined worded => ?_⟩
    exact .wordStart (worded.trans starts) (carried behind ahead lined worded)

def LeadsTo (pattern : Pattern) (text : List Char) : Prop := ∃ p, Meets pattern p ⟨text.reverse, []⟩

theorem Meets.leadsTo {pattern : Pattern} {p q : Place} (met : Meets pattern p q) :
    LeadsTo pattern q.behind.reverse := by
  obtain ⟨taken, -, behind, carried⟩ := met.carried
  have met' := carried p.behind [] rfl rfl
  rw [← behind] at met'
  exact ⟨_, by simpa using met'⟩

theorem LeadsTo.meets {pattern : Pattern} {text : List Char} (leads : LeadsTo pattern text) (ahead : List Char) :
    ∃ p, Meets pattern p ⟨text.reverse, ahead⟩ := by
  obtain ⟨p, met⟩ := leads
  obtain ⟨taken, -, behind, carried⟩ := met.carried
  have met' := carried p.behind ahead rfl rfl
  rw [← behind] at met'
  exact ⟨_, met'⟩

end Pattern

namespace Imports

open Pattern (Meets LeadsTo)

theorem atStarts_quote {quote : Char} (quoted : isQuote quote = true) (front : List Char) :
    Pattern.atLineStart (quote :: front) = false ∧ Pattern.atWordStart (quote :: front) = true := by
  rw [Pattern.atLineStart_eq, Pattern.atWordStart_eq, List.head?_cons]
  rcases (isQuote_iff quote).1 quoted with rfl | rfl <;> decide

theorem Unquoted.leadsTo_behind {front : Pattern} (unquoted : Unquoted front) {opening opening' : Char}
    (quoted : isQuote opening = true) (quoted' : isQuote opening' = true) (early early' : List Char)
    {late : List Char} (leads : LeadsTo front (early ++ opening :: late)) :
    LeadsTo front (early' ++ opening' :: late) := by
  obtain ⟨p, met⟩ := leads
  obtain ⟨taken, ahead, behind, inside⟩ := met.taken
  have free : opening ∉ taken := by
    intro member
    obtain ⟨item, known, takes⟩ := inside opening member
    rw [unquoted item known opening quoted] at takes
    cases takes
  have split : early ++ opening :: late = p.behind.reverse ++ taken := by
    simpa using congrArg List.reverse behind
  obtain ⟨between, before, rfl⟩ : ∃ between, p.behind = between.reverse ++ opening :: early.reverse ∧
      late = between ++ taken := by
    rcases List.append_eq_append_iff.1 split with ⟨rest, before, after⟩ | ⟨rest, -, after⟩
    · cases rest with
      | nil =>
        obtain rfl : opening :: late = taken := after
        exact absurd List.mem_cons_self free
      | cons c between =>
        obtain ⟨rfl, rfl⟩ := List.cons.inj after
        exact ⟨between, by simpa using congrArg List.reverse before, rfl⟩
    · exact absurd (by simp [after]) free
  have starts := atStarts_quote quoted early.reverse
  have starts' := atStarts_quote quoted' early'.reverse
  -- Whether a line or a word starts depends on the last character only.
  obtain ⟨same, onward⟩ : (Pattern.atLineStart (between.reverse ++ opening' :: early'.reverse) =
        Pattern.atLineStart p.behind) ∧
      Pattern.atWordStart (between.reverse ++ opening' :: early'.reverse) = Pattern.atWordStart p.behind := by
    rw [before]
    cases between.reverse with
    | nil => exact ⟨starts'.1.trans starts.1.symm, starts'.2.trans starts.2.symm⟩
    | cons c rest => exact ⟨rfl, rfl⟩
  obtain ⟨taken', ahead', -, carried⟩ := met.carried
  obtain rfl : taken = taken' := by simpa using ahead.symm.trans ahead'
  have ends : (early' ++ opening' :: (between ++ taken)).reverse =
      taken.reverse ++ (between.reverse ++ opening' :: early'.reverse) := by simp
  exact ⟨_, ends ▸ carried _ [] same onward⟩

theorem leadsTo_quote_iff (front : Pattern) (text : List Char) (last : Char) :
    LeadsTo (front ++ quote) (text ++ [last]) ↔ LeadsTo front text ∧ isQuote last = true := by
  constructor
  · rintro ⟨p, met⟩
    rw [List.reverse_append, List.reverse_singleton, List.singleton_append] at met
    obtain ⟨mid, first, final⟩ := met.split _ _ rfl
    cases final with
    | one quoted done =>
      cases done
      exact ⟨by simpa using first.leadsTo, quoted⟩
  · rintro ⟨leads, quoted⟩
    obtain ⟨p, met⟩ := leads.meets [last]
    refine ⟨p, ?_⟩
    rw [List.reverse_append, List.reverse_singleton, List.singleton_append]
    exact met.append (.one quoted (.done _))

theorem Form.Proper.leadsTo_behind {form : Form} (proper : form.Proper) {opening opening' closing closing' : Char}
    (opens : isQuote opening = true) (opens' : isQuote opening' = true) (closes : isQuote closing' = true)
    (early early' : List Char) {late : List Char}
    (leads : LeadsTo form.opening (early ++ opening :: (late ++ [closing]))) :
    LeadsTo form.opening (early' ++ opening' :: (late ++ [closing'])) := by
  obtain ⟨front, opens'', unquoted, -⟩ := proper.opening
  rw [opens'', ← List.cons_append, ← List.append_assoc, leadsTo_quote_iff] at leads ⊢
  exact ⟨unquoted.leadsTo_behind opens opens' early early' leads.1, closes⟩

end Imports

end Stowage

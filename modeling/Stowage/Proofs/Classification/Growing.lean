import Stowage.Classification.Basic
import Stowage.Proofs.Imports.Leading

set_option autoImplicit false

namespace Stowage

theorem Place.mem_all_iff (p : Place) (behind ahead : List Char) :
    p ∈ Place.all behind ahead ↔ ∃ passed, ahead = passed ++ p.ahead ∧ p.behind = passed.reverse ++ behind := by
  induction ahead generalizing behind with
  | nil =>
    rw [Place.all, List.mem_singleton]
    constructor
    · rintro rfl
      exact ⟨[], rfl, rfl⟩
    · rintro ⟨passed, none, rest⟩
      obtain ⟨rfl, ended⟩ := List.append_eq_nil_iff.1 none.symm
      cases p
      cases ended
      cases rest
      rfl
  | cons c later ih =>
    rw [Place.all, List.mem_cons, ih]
    constructor
    · rintro (rfl | ⟨passed, rest, before⟩)
      · exact ⟨[], rfl, rfl⟩
      · exact ⟨c :: passed, by rw [rest, List.cons_append], by simp [before]⟩
    · rintro ⟨passed, rest, before⟩
      cases passed with
      | nil =>
        cases p
        cases rest
        cases before
        exact .inl rfl
      | cons first passed =>
        obtain ⟨rfl, onward⟩ := List.cons.inj rest
        exact .inr ⟨passed, onward, by simp [before]⟩

namespace Pattern

theorem occursIn_split (pattern : Pattern) (text : List Char) :
    occursIn pattern text = true ↔ ∃ before ahead q, text = before ++ ahead ∧ Meets pattern ⟨before.reverse, ahead⟩ q := by
  rw [occursIn_iff]
  constructor
  · rintro ⟨p, inside, q, met⟩
    obtain ⟨before, rest, behind⟩ := (p.mem_all_iff [] text).1 inside
    rw [List.append_nil] at behind
    exact ⟨before, p.ahead, q, rest, behind ▸ met⟩
  · rintro ⟨before, ahead, q, rfl, met⟩
    exact ⟨_, (Place.mem_all_iff _ _ _).2 ⟨before, rfl, (List.append_nil _).symm⟩, q, met⟩

theorem atStarts_newline (behind earlier : List Char) :
    atLineStart (behind ++ '\n' :: earlier) = atLineStart behind ∧
      atWordStart (behind ++ '\n' :: earlier) = atWordStart behind := by
  cases behind with
  | nil =>
    have blank : atWordStart ['\n'] = true := by decide
    exact ⟨rfl, blank⟩
  | cons c behind => exact ⟨rfl, rfl⟩

theorem occursIn_grown {pattern : Pattern} {text : List Char} (found : occursIn pattern text = true)
    (before after : List Char) : occursIn pattern (before ++ '\n' :: (text ++ after)) = true := by
  obtain ⟨front, ahead, q, rfl, met⟩ := (occursIn_split pattern text).1 found
  obtain ⟨taken, rest, -, carried⟩ := met.carried
  obtain ⟨lined, worded⟩ := atStarts_newline front.reverse before.reverse
  have met' := carried _ (q.ahead ++ after) lined worded
  have ahead' : ahead ++ after = taken ++ (q.ahead ++ after) := by rw [← List.append_assoc, ← rest]
  have behind' : (before ++ '\n' :: front).reverse = front.reverse ++ '\n' :: before.reverse := by simp
  rw [← ahead', ← behind'] at met'
  exact (occursIn_split _ _).2 ⟨_, _, _, by simp, met'⟩

end Pattern

namespace Binary64

theorem less_trans {a b c : Binary64} (first : a.less b = true) (second : b.less c = true) : a.less c = true := by
  cases a <;> cases b <;> cases c <;> simp_all [less]
  omega

def AtLeast (b a : Binary64) : Prop := a = b ∨ a.less b = true

theorem AtLeast.exceeds {a b threshold : Binary64} (least : b.AtLeast a) (exceeds : threshold.less a = true) :
    threshold.less b = true := by
  rcases least with rfl | less
  · exact exceeds
  · exact less_trans exceeds less

end Binary64

namespace Signals

/-- Every signal of one kind of text is one of the other. -/
structure Within (fewer more : Signals) : Prop where
  markup : fewer.markup = true -> more.markup = true
  framework : fewer.framework = true -> more.framework = true
  component : fewer.component = true -> more.component = true

theorem shows_grown {patterns : List Pattern} {text : List Char} (shown : shows patterns text = true)
    (before after : List Char) : shows patterns (before ++ '\n' :: (text ++ after)) = true := by
  obtain ⟨pattern, member, found⟩ := List.any_eq_true.1 shown
  exact List.any_eq_true.2 ⟨pattern, member, Pattern.occursIn_grown found before after⟩

theorem within_grown (before text after : List Char) :
    (ofText text).Within (ofText (before ++ '\n' :: (text ++ after))) :=
  ⟨fun shown => shows_grown shown before after, fun shown => shows_grown shown before after,
    fun shown => shows_grown shown before after⟩

end Signals

namespace Classification

theorem tenths_less : (Binary64.tenths 6).less (.tenths 8) = true ∧ (Binary64.tenths 6).less (.tenths 9) = true ∧
    (Binary64.tenths 8).less (.tenths 9) = true := by
  decide +kernel

theorem verdict_within {fewer more : Signals} (within : fewer.Within more) (current : String)
    (corrects : (verdict fewer current).suggested ≠ current) :
    (verdict more current).suggested = (verdict fewer current).suggested ∧
      (Binary64.tenths (verdict more current).tenths).AtLeast (.tenths (verdict fewer current).tenths) := by
  obtain ⟨sixEight, sixNine, eightNine⟩ := tenths_less
  have apart : untyped ≠ plain := by decide
  -- The rules for one extension stand in the order of their certainty, and each asks for no signal to be missing.
  unfold verdict at corrects ⊢
  split at corrects
  next marked =>
    obtain ⟨rfl, markup⟩ : current = plain ∧ fewer.markup = true := by simpa using marked
    simp [markup, within.markup markup, Binary64.AtLeast]
  next unmarked =>
    split at corrects
    next declared =>
      obtain ⟨⟨rfl, framework⟩, component⟩ : (current = plain ∧ fewer.framework = true) ∧ fewer.component = true := by
        simpa using declared
      have unmarked : fewer.markup = false := by simpa using unmarked
      cases more.markup <;>
        simp [unmarked, framework, component, within.framework framework, within.component component,
          Binary64.AtLeast, eightNine]
    next undeclared =>
      split at corrects
      next imported =>
        obtain ⟨rfl, framework⟩ : current = plain ∧ fewer.framework = true := by simpa using imported
        have unmarked : fewer.markup = false := by simpa using unmarked
        have undeclared : fewer.component = false := by simpa [framework] using undeclared
        cases more.markup <;> cases more.component <;>
          simp [unmarked, undeclared, framework, within.framework framework, Binary64.AtLeast, sixEight, sixNine]
      · split at corrects
        next typed =>
          obtain ⟨rfl, shown⟩ : current = untyped ∧ (fewer.markup = true ∨ fewer.framework = true) := by
            simpa using typed
          have shown' : more.markup = true ∨ more.framework = true := shown.imp within.markup within.framework
          simp [apart, shown, shown', Binary64.AtLeast]
        · exact absurd rfl corrects

/-- Adding lines before a text and anything after it takes no signal away, and a correction that was accepted is
accepted again: the same one, with at least the same confidence. -/
theorem growing_keeps_correction (before text after : List Char) (current : String) :
    (Signals.ofText text).Within (Signals.ofText (before ++ '\n' :: (text ++ after))) ∧
      ∀ threshold, (ofText text current).isAccepted threshold = true ->
        (ofText (before ++ '\n' :: (text ++ after)) current).isAccepted threshold = true ∧
          (ofText (before ++ '\n' :: (text ++ after)) current).suggested = (ofText text current).suggested ∧
          (ofText (before ++ '\n' :: (text ++ after)) current).confidence.AtLeast (ofText text current).confidence := by
  have within := Signals.within_grown before text after
  refine ⟨within, fun threshold accepted => ?_⟩
  obtain ⟨changes, sure⟩ : (verdict (Signals.ofText text) current).suggested ≠ current ∧
      threshold.less (.tenths (verdict (Signals.ofText text) current).tenths) = true := by
    simpa [isAccepted, changesExtension, ofText] using accepted
  obtain ⟨same, least⟩ := verdict_within within current changes
  refine ⟨?_, same, least⟩
  have changes' := same ▸ changes
  have sure' := least.exceeds sure
  simpa [isAccepted, changesExtension, ofText] using And.intro changes' sure'

theorem imported_keeps_correction :
    (ofText "import React from 'react'".toList plain).isAccepted (.tenths 5) = true ∧
      (ofText ("// app".toList ++ '\n' :: ("import React from 'react'".toList ++ "\n<App />".toList)) plain).isAccepted
        (.tenths 5) = true := by
  have accepted : (ofText "import React from 'react'".toList plain).isAccepted (.tenths 5) = true := by decide +kernel
  exact ⟨accepted, ((growing_keeps_correction _ _ _ plain).2 _ accepted).1⟩

end Classification

end Stowage

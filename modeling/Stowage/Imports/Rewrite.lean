import Stowage.Imports.Basic

set_option autoImplicit false

namespace Stowage

structure Edit where
  raw : String
  replacement : String
  deriving Repr, DecidableEq

namespace Imports

def replacement? (edits : List Edit) (specifier : List Char) : Option (List Char) :=
  (edits.find? fun edit => edit.raw.toList == specifier).map fun edit => edit.replacement.toList

def replaceRange (text : List Char) (start stop : Nat) (new : List Char) : List Char :=
  text.take start ++ new ++ text.drop stop

def applyAt (edits : List Edit) (m : Occurrence) (text : List Char) : List Char :=
  match replacement? edits m.specifier with
  | none => text
  | some new => replaceRange text m.first.index m.last.index new

/-- Replace from the last import back to the first, so that the places of those still to come stay
where they were found. -/
def rewriteChars (edits : List Edit) (text : List Char) : List Char :=
  (occurrences text).foldr (applyAt edits) text

/-- The text from `position` on, with each specifier of `found` replaced in passing. -/
def splice (edits : List Edit) (text : List Char) : Nat -> List Occurrence -> List Char
  | position, [] => text.drop position
  | position, m :: rest =>
    (text.take m.first.index).drop position ++
      (replacement? edits m.specifier).getD m.specifier ++
      splice edits text m.last.index rest

theorem applyAt_nil (m : Occurrence) (text : List Char) : applyAt [] m text = text := rfl

theorem rewriteChars_nil (text : List Char) : rewriteChars [] text = text := by
  unfold rewriteChars
  induction occurrences text with
  | nil => rfl
  | cons m rest ih => simp [ih, applyAt_nil]

end Imports

def rewriteImports (edits : List Edit) (text : String) : String :=
  String.ofList (Imports.rewriteChars edits text.toList)

end Stowage

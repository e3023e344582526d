import Stowage.Classification.Signals
import Stowage.Number.Binary64

set_option autoImplicit false

namespace Stowage

structure Classification where
  current : String
  suggested : String
  reason : String
  confidence : Binary64
  signals : Signals
  deriving Repr, DecidableEq

namespace Classification

def plain : String := "ts"

def withMarkup : String := "tsx"

def untyped : String := "js"

def changesExtension (c : Classification) : Bool := c.suggested != c.current

def isAccepted (c : Classification) (threshold : Binary64) : Bool :=
  c.changesExtension && threshold.less c.confidence

def unreadable (current : String) : Classification where
  current := current
  suggested := current
  reason := "cannot read file"
  confidence := .zero
  signals := .none

structure Verdict where
  suggested : String
  reason : String
  tenths : Nat

def verdict (signals : Signals) (current : String) : Verdict :=
  if current = plain && signals.markup then ⟨withMarkup, "Contains JSX elements", 9⟩
  else if current = plain && signals.framework && signals.component then
    ⟨withMarkup, "Contains React components", 8⟩
  else if current = plain && signals.framework then ⟨withMarkup, "Contains React imports", 6⟩
  else if current = untyped && (signals.markup || signals.framework) then
    ⟨withMarkup, "JavaScript with React should be TypeScript", 7⟩
  else ⟨current, "No changes needed", 5⟩

def ofText (text : List Char) (current : String) : Classification :=
  let signals := Signals.ofText text
  let verdict := verdict signals current
  { current := current
    suggested := verdict.suggested
    reason := verdict.reason
    confidence := .tenths verdict.tenths
    signals := signals }

def decodeText (content : ByteArray) : Option String := String.fromUTF8? content

def ofContent (content : ByteArray) (current : String) : Classification :=
  if content.data.contains 0 then unreadable current
  else
    match decodeText content with
    | some text => ofText text.toList current
    | none => unreadable current

theorem isAccepted_unreadable (current : String) (threshold : Binary64) :
    (unreadable current).isAccepted threshold = false := by
  simp [isAccepted, changesExtension, unreadable]

end Classification

end Stowage

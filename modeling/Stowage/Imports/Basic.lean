import Stowage.Pattern.Basic

/-!
Imports in source text. A form of import is a pattern up to the opening quote and a pattern after
the closing one; between the quotes stands the specifier. `Import.list` finds the imports of a text
in the order of their places.
-/

set_option autoImplicit false

namespace Stowage

structure Import where
  specifier : String
  line : Nat
  start : Nat
  stop : Nat
  deriving Repr, DecidableEq

namespace Imports

open Pattern (literal blanks someBlanks)

def isQuote (c : Char) : Bool := c == '"' || c == '\''

def isSpecifierChar (c : Char) : Bool := !isQuote c && c != '\n'

structure Form where
  opening : Pattern
  closing : Pattern

/-- Where a form of import was met: its specifier lies between `first` and `last`, and the whole
ends at `after`. -/
structure Occurrence where
  first : Place
  last : Place
  after : Place
  deriving Repr

def indent : Pattern := [.many fun c => c == ' ' || c == '\t']

def quote : Pattern := [.one isQuote]

def bindings : Pattern := [.many fun c => !isQuote c && c != ';']

def fromClause : Pattern :=
  bindings ++ [.wordStart] ++ literal "from" ++ blanks ++ quote

def importFrom : Form where
  opening := [.lineStart] ++ indent ++ literal "import" ++ someBlanks ++ fromClause
  closing := []

def importOnly : Form where
  opening := [.lineStart] ++ indent ++ literal "import" ++ blanks ++ quote
  closing := []

def exportFrom : Form where
  opening := [.lineStart] ++ indent ++ literal "export" ++ someBlanks ++ fromClause
  closing := []

def call (function : String) : Form where
  opening :=
    [.wordStart] ++ literal function ++ blanks ++ literal "(" ++ blanks ++ quote
  closing := blanks ++ literal ")"

def forms : List Form :=
  [importFrom, importOnly, exportFrom, call "import", call "require"]

def specifierEnd : List Char -> List Char -> Place
  | behind, [] => ⟨behind, []⟩
  | behind, c :: rest =>
    if isSpecifierChar c then specifierEnd (c :: behind) rest else ⟨behind, c :: rest⟩

def startsSpecifier (p : Place) : Bool :=
  match p.ahead with
  | [] => false
  | c :: _ => isSpecifierChar c

def Form.close (form : Form) (first : Place) : Option Occurrence :=
  if startsSpecifier first then
    let last := specifierEnd first.behind first.ahead
    Pattern.meet (quote ++ form.closing) (fun after => some ⟨first, last, after⟩) last
  else none

def Form.matchAt (form : Form) (p : Place) : Option Occurrence :=
  Pattern.meet form.opening form.close p

/-- The occurrences of a form from left to right, none starting inside another; `skip` characters
still belong to the one before. -/
def Form.occurrencesFrom (form : Form) : Nat -> List Char -> List Char -> List Occurrence
  | _, _, [] => []
  | skip + 1, behind, c :: rest => form.occurrencesFrom skip (c :: behind) rest
  | 0, behind, c :: rest =>
    match form.matchAt ⟨behind, c :: rest⟩ with
    | none => form.occurrencesFrom 0 (c :: behind) rest
    | some found =>
      -- This character is passed now, so that one less of the occurrence is left.
      found :: form.occurrencesFrom (found.after.index - behind.length - 1) (c :: behind) rest

def Form.occurrences (form : Form) (text : List Char) : List Occurrence :=
  form.occurrencesFrom 0 [] text

def Occurrence.placed (m : Occurrence) : Nat × Occurrence := (m.first.index, m)

def addNew (found new : List (Nat × Occurrence)) : List (Nat × Occurrence) :=
  new.foldl (fun known candidate =>
    if known.any fun other => other.1 == candidate.1 then known
    else known ++ [candidate]) found

def occurrences (text : List Char) : List Occurrence :=
  let found := forms.foldl
    (fun found form => addNew found ((form.occurrences text).map Occurrence.placed)) []
  (found.mergeSort fun a b => a.1 ≤ b.1).map Prod.snd

def Occurrence.specifier (m : Occurrence) : List Char := m.first.upTo m.last

def Occurrence.toImport (m : Occurrence) : Import where
  specifier := String.ofList m.specifier
  line := m.first.line
  start := m.first.offset
  stop := m.last.offset

end Imports

def Import.list (text : String) : List Import :=
  (Imports.occurrences text.toList).map Imports.Occurrence.toImport

end Stowage

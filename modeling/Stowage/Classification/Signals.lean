import Stowage.Pattern.Search

set_option autoImplicit false

namespace Stowage

structure Signals where
  markup : Bool
  framework : Bool
  component : Bool
  deriving Repr, DecidableEq

namespace Signals

open Pattern (literal blanks someBlanks)

def none : Signals := ⟨false, false, false⟩

def isCapital (c : Char) : Bool := 'A' ≤ c && c ≤ 'Z'

def isSmall (c : Char) : Bool := 'a' ≤ c && c ≤ 'z'

def capital : Pattern := [.one isCapital]

def capitalName : Pattern := [.one isCapital, .many Char.isAlphanum]

def insideTag : Pattern := [.many (· != '>')]

def plainTag (property : String) : Pattern :=
  literal "<" ++ [.one isSmall, .many isSmall] ++ someBlanks ++ insideTag ++ literal property ++
    blanks ++ literal "="

def markupPatterns : List Pattern :=
  [literal "<" ++ capitalName ++ blanks ++ insideTag ++ literal ">",
    plainTag "className",
    plainTag "onClick",
    literal "React.createElement",
    [.wordStart] ++ literal "jsx" ++ blanks ++ literal "("]

def importKeyword : Pattern := [.lineStart] ++ blanks ++ literal "import"

def eitherQuote : Pattern := [.one fun c => c == '\'' || c == '"']

def hookCall (hook : String) : Pattern :=
  [.wordStart] ++ literal "use" ++ literal hook ++ blanks ++ [.one fun c => c == '<' || c == '(']

def hooks : List String :=
  ["State", "Effect", "Context", "Reducer", "Memo", "Callback", "Ref"]

def frameworkPatterns : List Pattern :=
  [importKeyword ++ someBlanks ++ [.many (· != ';')] ++ someBlanks ++ literal "from" ++
      someBlanks ++ eitherQuote ++ literal "react" ++ eitherQuote,
    importKeyword ++ someBlanks ++ literal "React" ++ someBlanks ++ literal "from"] ++
  hooks.map hookCall

def componentPatterns : List Pattern :=
  [literal "export" ++ someBlanks ++ literal "default" ++ someBlanks ++ literal "function" ++
      someBlanks ++ capital,
    literal "export" ++ someBlanks ++ literal "function" ++ someBlanks ++ capital,
    literal "const" ++ someBlanks ++ capitalName ++ blanks ++ literal "=" ++ blanks ++
      literal "(",
    literal "function" ++ someBlanks ++ capitalName ++ blanks ++ literal "(",
    literal "export" ++ someBlanks ++ literal "default" ++ someBlanks ++ capitalName]

def shows (patterns : List Pattern) (text : List Char) : Bool :=
  patterns.any fun pattern => pattern.occursIn text

def ofText (text : List Char) : Signals where
  markup := shows markupPatterns text
  framework := shows frameworkPatterns text
  component := shows componentPatterns text

end Signals

end Stowage

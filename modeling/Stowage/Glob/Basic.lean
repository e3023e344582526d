/-!
Glob patterns. A `?` is any character and a `*` any text, separators included; `**` is a whole
component and any number of directories; brackets hold a set of characters.
-/

set_option autoImplicit false

namespace Stowage

namespace Glob

inductive Range
  | single (c : Char)
  | between (low high : Char)
  deriving DecidableEq, Repr

def Range.has (c : Char) : Range -> Bool
  | single other => c = other
  | between low high => low ≤ c && c ≤ high

inductive Token
  | exactly (c : Char)
  | anyChar
  | anyText
  | anyDirectories
  | within (set : List Range)
  | outside (set : List Range)
  deriving DecidableEq, Repr

inductive Fault
  | wildcards
  | recursion
  | range
  deriving DecidableEq, Repr

def Fault.message : Fault -> String
  | wildcards => "wildcards are either regular `*` or recursive `**`"
  | recursion => "recursive wildcards must form a single path component"
  | range => "invalid range pattern"

structure Problem where
  position : Nat
  fault : Fault
  deriving DecidableEq, Repr

def Problem.message (problem : Problem) : String :=
  "Pattern syntax error near position " ++ toString problem.position ++ ": " ++
    problem.fault.message

def ranges : List Char -> List Range
  | low :: '-' :: high :: rest => .between low high :: ranges rest
  | c :: rest => .single c :: ranges rest
  | [] => []

def bracketed : List Char -> Option (List Char × List Char)
  | [] => none
  | first :: rest =>
    if rest.contains ']' then
      let more := rest.takeWhile (· != ']')
      some (first :: more, rest.drop (more.length + 1))
    else none

def bracketSet (text : List Char) : Option (Token × List Char) :=
  match text with
  | '!' :: rest => (bracketed rest).map fun found => (.outside (ranges found.1), found.2)
  | _ => (bracketed text).map fun found => (.within (ranges found.1), found.2)

/-- Add `**` unless it repeats the one just before; the very first token never counts as a
repetition of its own kind. -/
def addDirectories (tokens : List Token) : List Token :=
  match tokens with
  | .anyDirectories :: _ :: _ => tokens
  | _ => .anyDirectories :: tokens

/-- Read tokens, latest first. `position` characters were read, the last of them `before`. -/
def readTokens : Nat -> Nat -> Option Char -> List Token -> List Char ->
    Except Problem (List Token)
  | 0, _, _, tokens, _ => .ok tokens
  | _ + 1, _, _, tokens, [] => .ok tokens
  | fuel + 1, position, before, tokens, c :: rest =>
    if c = '?' then readTokens fuel (position + 1) (some c) (.anyChar :: tokens) rest
    else if c = '*' then
      let more := (rest.takeWhile (· == '*')).length
      let left := rest.drop more
      let next := position + 1 + more
      if more = 0 then readTokens fuel next (some c) (.anyText :: tokens) left
      else if 1 < more then .error ⟨position + 2, .wildcards⟩
      else if before = none || before = some '/' then
        match left with
        | [] => readTokens fuel next (some c) (addDirectories tokens) []
        | '/' :: others =>
          readTokens fuel (next + 1) (some '/') (addDirectories tokens) others
        | _ => .error ⟨next, .recursion⟩
      else .error ⟨position - 1, .recursion⟩
    else if c = '[' then
      match bracketSet rest with
      | some (token, left) =>
        readTokens fuel (position + 1 + (rest.length - left.length)) (some ']')
          (token :: tokens) left
      | none => .error ⟨position, .range⟩
    else readTokens fuel (position + 1) (some c) (.exactly c :: tokens) rest

end Glob

structure Glob where
  tokens : List Glob.Token
  deriving DecidableEq, Repr

namespace Glob

def read (text : String) : Except Problem Glob :=
  let chars := text.toList
  match readTokens chars.length 0 none [] chars with
  | .ok tokens => .ok ⟨tokens.reverse⟩
  | .error problem => .error problem

def Token.takes (token : Token) (c : Char) : Bool :=
  match token with
  | exactly other => c = other
  | anyChar => true
  | within set => set.any (Range.has c)
  | outside set => !set.any (Range.has c)
  | anyText => false
  | anyDirectories => false

def endings : List Char -> List (List Char)
  | [] => [[]]
  | c :: rest => (c :: rest) :: endings rest

def directoryEnds : List Char -> List (List Char)
  | [] => [[]]
  | c :: rest => if c = '/' && rest ≠ [] then rest :: directoryEnds rest else directoryEnds rest

def advance (token : Token) (ends : List (List Char)) : List (List Char) :=
  match ends with
  | [] => []
  | longest :: _ =>
    match token with
    | .anyText => endings longest
    | .anyDirectories =>
      let reached := directoryEnds longest
      (endings longest).filter fun tail =>
        ends.any (fun other => other.length = tail.length) ||
          reached.any (fun other => other.length = tail.length)
    | _ => ends.filterMap fun text =>
      match text with
      | [] => none
      | c :: rest => if token.takes c then some rest else none

def holds (glob : Glob) (text : String) : Bool :=
  (glob.tokens.foldl (fun ends token => advance token ends) [text.toList]).any (· == [])

end Glob

end Stowage

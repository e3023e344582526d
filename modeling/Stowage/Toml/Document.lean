import Stowage.Toml.Scalar

set_option autoImplicit false

namespace Stowage.Toml

def depthLimit : Nat := 79

def isBareKey (c : Char) : Bool := c.isAlphanum || c == '_' || c == '-'

def simpleKey (text : List Char) : Read String :=
  match text with
  | '"' :: rest => basicText (rest.length + 1) [] rest
  | '\'' :: rest => literalText rest
  | _ =>
    let bare := text.takeWhile isBareKey
    if bare = [] then none else some (String.ofList bare, text.drop bare.length)

def dottedKey : Nat -> List Char -> Read (List String)
  | 0, _ => none
  | fuel + 1, text =>
    (simpleKey (skipSpaces text)).bind fun (key, rest) =>
      match skipSpaces rest with
      | '.' :: tail => (dottedKey fuel tail).map fun (keys, left) => (key :: keys, left)
      | left => some ([key], left)

def keyPath (text : List Char) : Read (List String × String) :=
  (dottedKey depthLimit text).bind fun (keys, rest) =>
    keys.getLast?.map fun last => ((keys.dropLast, last), rest)

def skipLines : Nat -> List Char -> List Char
  | 0, text => text
  | fuel + 1, text =>
    let left := skipComment (skipSpaces text)
    match afterNewline? left with
    | some rest => skipLines fuel rest
    | none => left

def arrayItems (value : List Char -> Read Value) :
    Nat -> List Value -> List Char -> Read (List Value)
  | 0, _, _ => none
  | fuel + 1, items, text =>
    match skipLines text.length text with
    -- Also after a comma: one more may follow the last value.
    | ']' :: rest => some (items.reverse, rest)
    | start =>
      (value start).bind fun (item, rest) =>
        match skipLines rest.length rest with
        | ',' :: left => arrayItems value fuel (item :: items) left
        | ']' :: left => some ((item :: items).reverse, left)
        | _ => none

def assignment (value : List Char -> Read Value) (text : List Char) :
    Read ((List String × String) × Value) :=
  (keyPath text).bind fun (path, rest) =>
    match rest with
    | '=' :: tail =>
      (value (skipSpaces tail)).map fun (found, left) => ((path, found), skipSpaces left)
    | _ => none

def inlineEntries (value : List Char -> Read Value) :
    Nat -> Entries -> List Char -> Read Entries
  | 0, _, _ => none
  | fuel + 1, entries, text =>
    (assignment value text).bind fun (((path, key), found), rest) =>
      (entries.addValue path key found).bind fun more =>
        match rest with
        | ',' :: left => inlineEntries value fuel more left
        | '\x7d' :: left => some (more, left)
        | _ => none

def value : Nat -> List Char -> Read Value
  | 0, text => simple text
  | depth + 1, text =>
    match text with
    | '[' :: rest =>
      (arrayItems (value depth) (rest.length + 1) [] rest).map fun (items, left) =>
        (.array items, left)
    | '\x7b' :: rest =>
      match skipSpaces rest with
      | '\x7d' :: left => some (.table .inline [], left)
      | start =>
        (inlineEntries (value depth) (start.length + 1) [] start).map fun (entries, left) =>
          (.table .inline entries, left)
    | _ => simple text

structure State where
  entries : Entries
  header : Option (List String × String)

def State.add (state : State) (path : List String) (key : String) (found : Value) :
    Option State :=
  let change := fun (entries : Entries) => entries.addValue path key found
  match state.header with
  | none => (change state.entries).map fun entries => { state with entries := entries }
  | some (parents, last) =>
    (state.entries.alterOpen change (parents ++ [last])).map fun entries =>
      { state with entries := entries }

def lineRest (text : List Char) : Option (List Char) :=
  match skipComment (skipSpaces text) with
  | [] => some []
  | left => afterNewline? left

def line (state : State) (text : List Char) : Option (State × List Char) :=
  match text with
  | '[' :: '[' :: rest => do
    let ((path, key), left) <- keyPath rest
    match left with
    | ']' :: ']' :: tail =>
      let entries <- state.entries.openNext path key
      let left <- lineRest tail
      return (⟨entries, some (path, key)⟩, left)
    | _ => none
  | '[' :: rest => do
    let ((path, key), left) <- keyPath rest
    match left with
    | ']' :: tail =>
      let entries <- state.entries.openTable path key
      let left <- lineRest tail
      return (⟨entries, some (path, key)⟩, left)
    | _ => none
  | _ => do
    let (((path, key), found), left) <- assignment (value depthLimit) text
    let state <- state.add path key found
    let left <- lineRest left
    return (state, left)

def lines : Nat -> State -> List Char -> Option Entries
  | 0, _, _ => none
  | fuel + 1, state, text =>
    match skipLines text.length text with
    | [] => some state.entries
    | start => (line state start).bind fun (state, rest) => lines fuel state rest

def read (text : String) : Option Entries :=
  let chars := text.toList
  -- A byte order mark may stand at the start.
  let body := if chars.head? = some (Char.ofNat 0xfeff) then chars.drop 1 else chars
  lines (body.length + 1) ⟨[], none⟩ body

end Stowage.Toml

import Stowage.Number.Decimal

set_option autoImplicit false

namespace Stowage

inductive Json
  | null
  | bool (value : Bool)
  | count (value : Nat)
  | decimal (value : Binary64)
  | text (value : String)
  | array (items : List Json)
  | object (fields : List (String × Json))
  deriving Inhabited

namespace Json

def ofOption {Value : Type} (encode : Value -> Json) : Option Value -> Json
  | none => null
  | some value => encode value

def optionalField {Value : Type} (name : String) (encode : Value -> Json) :
    Option Value -> List (String × Json)
  | none => []
  | some value => [(name, encode value)]

def hexDigit (n : Nat) : Char := ((Nat.toDigits 16 n).head?).getD '0'

def escapeChar (c : Char) : List Char :=
  if c = '"' then ['\\', '"']
  else if c = '\\' then ['\\', '\\']
  else if c = '\n' then ['\\', 'n']
  else if c = '\r' then ['\\', 'r']
  else if c = '\t' then ['\\', 't']
  else if c.toNat = 8 then ['\\', 'b']
  else if c.toNat = 12 then ['\\', 'f']
  else if c.toNat < 32 then
    ['\\', 'u', '0', '0', hexDigit (c.toNat / 16), hexDigit (c.toNat % 16)]
  else [c]

def quoted (text : String) : String :=
  "\"" ++ String.ofList (text.toList.flatMap escapeChar) ++ "\""

def indent (depth : Nat) : String := String.ofList (List.replicate (2 * depth) ' ')

def block (opening closing : String) (depth : Nat) (items : List String) : String :=
  if items = [] then opening ++ closing
  else
    opening ++ "\n" ++ ",\n".intercalate (items.map (indent (depth + 1) ++ ·)) ++ "\n" ++
      indent depth ++ closing

mutual

def pretty (depth : Nat) : Json -> String
  | null => "null"
  | bool true => "true"
  | bool false => "false"
  | count value => toString value
  | decimal value => value.text?.getD "null"
  | text value => quoted value
  | array items => block "[" "]" depth (prettyItems (depth + 1) items)
  | object fields => block "\x7b" "\x7d" depth (prettyFields (depth + 1) fields)

def prettyItems (depth : Nat) : List Json -> List String
  | [] => []
  | item :: rest => pretty depth item :: prettyItems depth rest

def prettyFields (depth : Nat) : List (String × Json) -> List String
  | [] => []
  | (name, value) :: rest =>
    (quoted name ++ ": " ++ pretty depth value) :: prettyFields depth rest

end

def print (value : Json) : String := pretty 0 value

end Json

end Stowage

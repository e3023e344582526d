import Stowage.Text.Digits
import Stowage.Toml.Value

set_option autoImplicit false

namespace Stowage.Toml

open Text (padded)

abbrev Read (Result : Type) := Option (Result × List Char)

def isSpace (c : Char) : Bool := c == ' ' || c == '\t'

def skipSpaces (text : List Char) : List Char := text.dropWhile isSpace

def afterNewline? : List Char -> Option (List Char)
  | '\n' :: rest => some rest
  | '\r' :: '\n' :: rest => some rest
  | _ => none

def isVisible (c : Char) : Bool := c == '\t' || (0x20 ≤ c.toNat && c.toNat ≠ 0x7f)

def skipComment (text : List Char) : List Char :=
  match text with
  | '#' :: rest => rest.dropWhile isVisible
  | _ => text

def isHex (c : Char) : Bool :=
  c.isDigit || ('a' ≤ c && c ≤ 'f') || ('A' ≤ c && c ≤ 'F')

def digitValue (c : Char) : Nat :=
  if c.isDigit then c.toNat - '0'.toNat
  else if 'a' ≤ c then c.toNat - 'a'.toNat + 10
  else c.toNat - 'A'.toNat + 10

def number (base : Nat) (digits : List Char) : Nat :=
  digits.foldl (fun total c => total * base + digitValue c) 0

def scalar (width : Nat) (text : List Char) : Read Char :=
  let digits := text.take width
  let code := number 16 digits
  if digits.length = width && digits.all isHex then
    if code.isValidChar then some (Char.ofNat code, text.drop width) else none
  else none

def escape : List Char -> Read Char
  | 'b' :: rest => some (Char.ofNat 8, rest)
  | 't' :: rest => some ('\t', rest)
  | 'n' :: rest => some ('\n', rest)
  | 'f' :: rest => some (Char.ofNat 12, rest)
  | 'r' :: rest => some ('\r', rest)
  | '"' :: rest => some ('"', rest)
  | '\\' :: rest => some ('\\', rest)
  | 'u' :: rest => scalar 4 rest
  | 'U' :: rest => scalar 8 rest
  | _ => none

def textOf (reversed : List Char) : String := String.ofList reversed.reverse

def basicText : Nat -> List Char -> List Char -> Read String
  | 0, _, _ => none
  | _ + 1, _, [] => none
  | fuel + 1, taken, c :: rest =>
    if c = '"' then some (textOf taken, rest)
    else if c = '\\' then
      match escape rest with
      | some (special, left) => basicText fuel (special :: taken) left
      | none => none
    else if isVisible c then basicText fuel (c :: taken) rest
    else none

def literalText (text : List Char) : Read String :=
  let body := text.takeWhile fun c => isVisible c && c != '\''
  match text.drop body.length with
  | '\'' :: rest => some (String.ofList body, rest)
  | _ => none

/-- Quotes at the front of a text: three or more end a long text, and up to two of them more belong
to it. Fewer than three all belong to it. -/
def closingQuotes (quote : Char) (text : List Char) : Nat × Bool :=
  let count := (text.takeWhile (· == quote)).length
  if count < 3 then (count, false) else (min (count - 3) 2, true)

def skipBlankLines : Nat -> List Char -> List Char
  | 0, text => text
  | fuel + 1, text =>
    match afterNewline? (skipSpaces text) with
    | some rest => skipBlankLines fuel rest
    | none => skipSpaces text

def afterLineEnd? (text : List Char) : Option (List Char) :=
  (afterNewline? (skipSpaces text)).map fun rest => skipBlankLines rest.length rest

def longText (quote : Char) : Nat -> List Char -> List Char -> Read String
  | 0, _, _ => none
  | _ + 1, _, [] => none
  | fuel + 1, taken, c :: rest =>
    if c = quote then
      match closingQuotes quote (c :: rest) with
      | (own, true) =>
        some (textOf (List.replicate own quote ++ taken), (c :: rest).drop (own + 3))
      | (own, false) =>
        longText quote fuel (List.replicate own quote ++ taken) ((c :: rest).drop own)
    else if c = '\\' && quote = '"' then
      match afterLineEnd? rest with
      | some left => longText quote fuel taken left
      | none =>
        match escape rest with
        | some (special, left) => longText quote fuel (special :: taken) left
        | none => none
    else
      match afterNewline? (c :: rest) with
      | some left => longText quote fuel ('\n' :: taken) left
      | none => if isVisible c then longText quote fuel (c :: taken) rest else none

def longBody (text : List Char) : List Char := (afterNewline? text).getD text

def quotedText (text : List Char) : Read String :=
  match text with
  | '"' :: '"' :: '"' :: rest => longText '"' (rest.length + 1) [] (longBody rest)
  | '\'' :: '\'' :: '\'' :: rest => longText '\'' (rest.length + 1) [] (longBody rest)
  | '"' :: rest => basicText (rest.length + 1) [] rest
  | '\'' :: rest => literalText rest
  | _ => none

def digits (isDigit : Char -> Bool) (text : List Char) : Read (List Char) :=
  let rec more : List Char -> List Char × List Char
    | c :: rest =>
      if isDigit c then
        let tail := more rest
        (c :: tail.1, tail.2)
      else if c = '_' then
        match rest with
        | next :: others =>
          if isDigit next then
            let tail := more others
            (next :: tail.1, tail.2)
          else ([], c :: rest)
        | [] => ([], [c])
      else ([], c :: rest)
    | [] => ([], [])
  match text with
  | c :: rest =>
    if isDigit c then
      let tail := more rest
      some (c :: tail.1, tail.2)
    else none
  | [] => none

def sign (text : List Char) : Bool × List Char :=
  match text with
  | '-' :: rest => (true, rest)
  | '+' :: rest => (false, rest)
  | _ => (false, text)

def wholeDigits (text : List Char) : Read (List Char) :=
  match text with
  | '0' :: rest => some (['0'], rest)
  | _ => digits Char.isDigit text

def fits (value : Int) : Bool := -0x8000000000000000 ≤ value && value ≤ 0x7fffffffffffffff

def signed (negative : Bool) (size : Nat) : Int := if negative then -size else size

def based (base : Nat) (isDigit : Char -> Bool) (text : List Char) : Read Value :=
  (digits isDigit text).bind fun (found, rest) =>
    let value : Int := number base found
    if fits value then some (.integer value, rest) else none

def integer (text : List Char) : Read Value :=
  match text with
  | '0' :: 'x' :: rest => based 16 isHex rest
  | '0' :: 'o' :: rest => based 8 (fun c => '0' ≤ c && c ≤ '7') rest
  | '0' :: 'b' :: rest => based 2 (fun c => c == '0' || c == '1') rest
  | _ =>
    let (negative, body) := sign text
    (wholeDigits body).bind fun (found, rest) =>
      let value := signed negative (number 10 found)
      if fits value then some (.integer value, rest) else none

def exponent (text : List Char) : Read Int :=
  match text with
  | c :: rest =>
    if c = 'e' || c = 'E' then
      let (negative, body) := sign rest
      (digits Char.isDigit body).map fun (found, left) => (signed negative (number 10 found), left)
    else none
  | [] => none

/-- A number with a fraction, an exponent or both. One too large is refused, one too far below zero is
infinite. -/
def plainFloat (text : List Char) : Read Value :=
  let (negative, body) := sign text
  (wholeDigits body).bind fun (whole, rest) =>
    let build (fraction : List Char) (power : Int) (left : List Char) : Read Value :=
      match Binary64.ofDecimal negative (number 10 (whole ++ fraction))
          (power - fraction.length) with
      | .infinite false => none
      | value => some (.float value, left)
    match rest with
    | '.' :: tail =>
      (digits Char.isDigit tail).bind fun (fraction, left) =>
        match exponent left with
        | some (power, left) => build fraction power left
        | none => build fraction 0 left
    | _ => (exponent rest).bind fun (power, left) => build [] power left

def float (text : List Char) : Read Value :=
  let (negative, body) := sign text
  match body with
  | 'i' :: 'n' :: 'f' :: rest => some (.float (.infinite negative), rest)
  | 'n' :: 'a' :: 'n' :: rest => some (.float .nan, rest)
  | _ => plainFloat text

def field (width low high : Nat) (text : List Char) : Read Nat :=
  let digits := text.take width
  let value := number 10 digits
  if digits.length = width && digits.all Char.isDigit && low ≤ value && value ≤ high then
    some (value, text.drop width)
  else none

def expect (c : Char) (text : List Char) : Option (List Char) :=
  match text with
  | first :: rest => if first = c then some rest else none
  | [] => none

def daysIn (year month : Nat) : Nat :=
  if month = 2 then
    if year % 4 = 0 && (year % 100 ≠ 0 || year % 400 = 0) then 29 else 28
  else if month = 4 || month = 6 || month = 9 || month = 11 then 30
  else 31

def date (text : List Char) : Option (String × List Char) := do
  let (year, rest) <- field 4 0 9999 text
  let rest <- expect '-' rest
  let (month, rest) <- field 2 1 12 rest
  let rest <- expect '-' rest
  let (day, rest) <- field 2 1 (daysIn year month) rest
  return (padded 4 year ++ "-" ++ padded 2 month ++ "-" ++ padded 2 day, rest)

def fractionDigits : Nat := 9

def shownFraction (digits : List Char) : String :=
  match (digits.take fractionDigits).reverse.dropWhile (· == '0') with
  | [] => ""
  | kept => "." ++ String.ofList kept.reverse

def timeOfDay (text : List Char) : Option (String × List Char) := do
  let (hour, rest) <- field 2 0 23 text
  let rest <- expect ':' rest
  let (minute, rest) <- field 2 0 59 rest
  let rest <- expect ':' rest
  let (second, rest) <- field 2 0 60 rest
  let shown := padded 2 hour ++ ":" ++ padded 2 minute ++ ":" ++ padded 2 second
  match rest with
  | '.' :: tail =>
    let fraction := tail.takeWhile Char.isDigit
    if fraction = [] then none
    else return (shown ++ shownFraction fraction, tail.drop fraction.length)
  | _ => return (shown, rest)

def zone (text : List Char) : Option (String × List Char) :=
  match text with
  | [] => none
  | c :: rest =>
    if c = 'Z' || c = 'z' then some ("Z", rest)
    else if c = '+' || c = '-' then do
      let (hour, rest) <- field 2 0 23 rest
      let rest <- expect ':' rest
      let (minute, rest) <- field 2 0 59 rest
      let sign := if c = '-' && 0 < hour + minute then "-" else "+"
      return (sign ++ padded 2 hour ++ ":" ++ padded 2 minute, rest)
    else none

def moment (text : List Char) : Read Value :=
  match date text with
  | none => (timeOfDay text).map fun (time, rest) => (.moment time, rest)
  | some (day, rest) =>
    match rest with
    | c :: tail =>
      if c = 'T' || c = 't' || c = ' ' then
        match timeOfDay tail with
        | none => some (.moment day, rest)
        | some (time, left) =>
          match zone left with
          | none => some (.moment (day ++ "T" ++ time), left)
          | some (zone, left) => some (.moment (day ++ "T" ++ time ++ zone), left)
      else some (.moment day, rest)
    | [] => some (.moment day, rest)

def boolean (text : List Char) : Read Value :=
  match text with
  | 't' :: 'r' :: 'u' :: 'e' :: rest => some (.boolean true, rest)
  | 'f' :: 'a' :: 'l' :: 's' :: 'e' :: rest => some (.boolean false, rest)
  | _ => none

def simple (text : List Char) : Read Value :=
  match text with
  | '"' :: _ => (quotedText text).map fun (value, rest) => (.text value, rest)
  | '\'' :: _ => (quotedText text).map fun (value, rest) => (.text value, rest)
  | _ => boolean text <|> moment text <|> float text <|> integer text

end Stowage.Toml

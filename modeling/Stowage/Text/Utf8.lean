set_option autoImplicit false

namespace Stowage.Text

def leadingByte (first : Nat) : Option (Nat × Nat × Nat) :=
  if 0xc2 ≤ first && first ≤ 0xdf then some (2, 0x80, 0xbf)
  else if first = 0xe0 then some (3, 0xa0, 0xbf)
  else if first = 0xed then some (3, 0x80, 0x9f)
  else if 0xe1 ≤ first && first ≤ 0xef then some (3, 0x80, 0xbf)
  else if first = 0xf0 then some (4, 0x90, 0xbf)
  else if 0xf1 ≤ first && first ≤ 0xf3 then some (4, 0x80, 0xbf)
  else if first = 0xf4 then some (4, 0x80, 0x8f)
  else none

def isContinuation (byte : Nat) : Bool := 0x80 ≤ byte && byte ≤ 0xbf

def continuations (count : Nat) (bytes : List Nat) : List Nat :=
  (bytes.take count).takeWhile isContinuation

def replacement : Char := Char.ofNat 0xfffd

def firstChar (first : Nat) (rest : List Nat) : Char × Nat :=
  if first < 0x80 then (Char.ofNat first, 1)
  else
    match leadingByte first, rest with
    | some (width, low, high), second :: others =>
      if low ≤ second && second ≤ high then
        let tail := second :: continuations (width - 2) others
        let lead := first % Nat.pow 2 (7 - width)
        if tail.length = width - 1 then
          (Char.ofNat (tail.foldl (fun code byte => code * 64 + byte % 64) lead), width)
        else (replacement, tail.length + 1)
      else (replacement, 1)
    | _, _ => (replacement, 1)

def decodeFrom : Nat -> List Nat -> List Char
  | _, [] => []
  | skip + 1, _ :: rest => decodeFrom skip rest
  | 0, first :: rest =>
    let (c, width) := firstChar first rest
    c :: decodeFrom (width - 1) rest

def decodeLossy (content : ByteArray) : List Char :=
  decodeFrom 0 (content.data.toList.map UInt8.toNat)

end Stowage.Text

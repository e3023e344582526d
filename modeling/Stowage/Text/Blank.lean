set_option autoImplicit false

namespace Stowage.Text

def isBlank (c : Char) : Bool :=
  let n := c.toNat
  (9 ≤ n && n ≤ 13) || n == 0x20 || n == 0x85 || n == 0xa0 || n == 0x1680 ||
    (0x2000 ≤ n && n ≤ 0x200a) || n == 0x2028 || n == 0x2029 || n == 0x202f ||
    n == 0x205f || n == 0x3000

def trim (text : List Char) : List Char :=
  ((text.dropWhile isBlank).reverse.dropWhile isBlank).reverse

def splitOn (separator : Char) : List Char -> List (List Char)
  | [] => [[]]
  | c :: rest =>
    match splitOn separator rest with
    | [] => [[c]]
    | piece :: pieces => if c = separator then [] :: piece :: pieces else (c :: piece) :: pieces

theorem splitOn_ne_nil (separator : Char) (text : List Char) : splitOn separator text ≠ [] := by
  induction text with
  | nil => simp [splitOn]
  | cons c rest ih =>
    unfold splitOn
    split
    next h => exact absurd h ih
    · split <;> simp

/-- Lines without their ends; an end is a line feed with the carriage return before it, and the
last line end starts no further line. -/
def lines (text : List Char) : List (List Char) :=
  let pieces := splitOn '\n' text
  let bodies := pieces.dropLast.map fun line =>
    if line.getLast? = some '\r' then line.dropLast else line
  match pieces.getLast? with
  | none => bodies
  | some [] => bodies
  | some last => bodies ++ [last]

end Stowage.Text

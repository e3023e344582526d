set_option autoImplicit false

namespace Stowage

abbrev Table (Key Value : Type) := List (Key × Value)

namespace Table

variable {Key Value : Type}

def lookup (order : Key -> Key -> Ordering) (key : Key) : Table Key Value -> Option Value
  | [] => none
  | (other, value) :: rest =>
    if order key other = .eq then some value else lookup order key rest

/-- Change the value of a key, where a new key starts from `fresh`; a known key keeps its
spelling. -/
def alter (order : Key -> Key -> Ordering) (key : Key) (fresh : Value) (change : Value -> Value) :
    Table Key Value -> Table Key Value
  | [] => [(key, change fresh)]
  | (other, value) :: rest =>
    match order key other with
    | .lt => (key, change fresh) :: (other, value) :: rest
    | .eq => (other, change value) :: rest
    | .gt => (other, value) :: alter order key fresh change rest

def insert (order : Key -> Key -> Ordering) (key : Key) (value : Value)
    (table : Table Key Value) : Table Key Value :=
  table.alter order key value fun _ => value

def ofList (order : Key -> Key -> Ordering) (rows : List (Key × Value)) : Table Key Value :=
  rows.foldl (fun table row => table.insert order row.1 row.2) []

end Table

end Stowage

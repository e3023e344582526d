import Stowage.Number.Binary64

set_option autoImplicit false

namespace Stowage.Toml

inductive Origin
  | header
  | implied
  | dotted
  | inline
  deriving DecidableEq, Repr

inductive Value
  | text (value : String)
  | integer (value : Int)
  | float (value : Binary64)
  | boolean (value : Bool)
  | moment (shown : String)
  | array (items : List Value)
  | table (origin : Origin) (entries : List (String × Value))
  | tables (latest : List (String × Value)) (earlier : List Value)
  deriving Inhabited

abbrev Entries := List (String × Value)

namespace Entries

def get? (key : String) : Entries -> Option Value
  | [] => none
  | (other, value) :: rest => if other = key then some value else get? key rest

def put (key : String) (value : Value) : Entries -> Entries
  | [] => [(key, value)]
  | (other, old) :: rest =>
    if other = key then (other, value) :: rest else (other, old) :: put key value rest

/-- Change the table that a path of keys leads to, making tables of `origin` on the way. A dotted
key does not lead into a table that has a header. -/
def alterAt (origin : Origin) (change : Origin -> Entries -> Option Entries) :
    List String -> Origin -> Entries -> Option Entries
  | [], here, entries => change here entries
  | key :: path, _, entries =>
    match get? key entries with
    | none =>
      (alterAt origin change path origin []).map fun inner =>
        put key (.table origin inner) entries
    | some (.table .inline _) => none
    | some (.table other inner) =>
      if origin = .dotted && other = .header then none
      else
        (alterAt origin change path other inner).map fun inner =>
          put key (.table other inner) entries
    | some (.tables latest earlier) =>
      (alterAt origin change path .header latest).map fun latest =>
        put key (.tables latest earlier) entries
    | some _ => none

def addValue (path : List String) (key : String) (value : Value) (entries : Entries) :
    Option Entries :=
  alterAt .dotted (fun here inner =>
    if decide (here = .dotted) == path.isEmpty then none
    else if (get? key inner).isSome then none
    else some (put key value inner)) path .header entries

def openTable (path : List String) (key : String) (entries : Entries) : Option Entries :=
  alterAt .implied (fun _ inner =>
    match get? key inner with
    | none => some (put key (.table .header []) inner)
    | some (.table .implied known) => some (put key (.table .header known) inner)
    | some _ => none) path .header entries

def openNext (path : List String) (key : String) (entries : Entries) : Option Entries :=
  alterAt .implied (fun _ inner =>
    match get? key inner with
    | none => some (put key (.tables [] []) inner)
    | some (.tables latest earlier) =>
      some (put key (.tables [] (.table .header latest :: earlier)) inner)
    | some _ => none) path .header entries

def alterOpen (change : Entries -> Option Entries) (path : List String) (entries : Entries) :
    Option Entries :=
  alterAt .implied (fun _ inner => change inner) path .header entries

end Entries

end Stowage.Toml

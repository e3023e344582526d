import Stowage.Text.Blank

/-!
Paths as they are written. A path keeps its text, and every question about it is answered on the
components the text names: repeated separators and inner `.` name nothing, `..` stays.
-/

set_option autoImplicit false

namespace Stowage

inductive Component
  | root
  | here
  | up
  | name (text : String)
  deriving DecidableEq, Repr, Inhabited

namespace Component

def text : Component -> String
  | root => "/"
  | here => "."
  | up => ".."
  | name text => text

def rank : Component -> Nat
  | root => 0
  | here => 1
  | up => 2
  | name _ => 3

def order : Component -> Component -> Ordering
  | name a, name b => compareOfLessAndEq a b
  | a, b => compareOfLessAndEq a.rank b.rank

theorem compareTexts_eq_iff (a b : String) : compareOfLessAndEq a b = .eq ↔ a = b := by
  unfold compareOfLessAndEq
  split
  next less =>
    have differs : a ≠ b := fun equal => String.lt_irrefl b (equal ▸ less)
    exact ⟨fun impossible => (nomatch impossible), fun equal => absurd equal differs⟩
  · split
    next equal => exact ⟨fun _ => equal, fun _ => rfl⟩
    next differs =>
      exact ⟨fun impossible => (nomatch impossible), fun equal => absurd equal differs⟩

theorem order_eq_iff (a b : Component) : a.order b = .eq ↔ a = b := by
  cases a <;> cases b
  case name.name first second =>
    rw [name.injEq]
    exact compareTexts_eq_iff first second
  all_goals
    unfold order compareOfLessAndEq
    simp [rank]

end Component

structure Path where
  text : String
  deriving Repr, Inhabited

structure Piece where
  component : Component
  start : Nat
  stop : Nat
  deriving Repr

namespace Path

def separator : Char := '/'

/-- The component spelled by a segment that starts at `start`; an empty segment and a `.` that does
not start the text spell none. -/
def segmentComponent (start : Nat) (segment : List Char) : Option Component :=
  if segment = [] then none
  else if segment = ['.'] then if start = 0 then some .here else none
  else if segment = ['.', '.'] then some .up
  else some (.name (String.ofList segment))

def segmentPieces : Nat -> List (List Char) -> List Piece
  | _, [] => []
  | start, segment :: rest =>
    let stop := start + segment.length
    let later := segmentPieces (stop + 1) rest
    match segmentComponent start segment with
    | none => later
    | some component => ⟨component, start, stop⟩ :: later

def pieces (p : Path) : List Piece :=
  let chars := p.text.toList
  let rooted := if chars.head? = some separator then [⟨.root, 0, 1⟩] else []
  rooted ++ segmentPieces 0 (Text.splitOn separator chars)

def components (p : Path) : List Component :=
  p.pieces.map Piece.component

def isAbsolute (p : Path) : Bool :=
  p.text.toList.head? = some separator

def same (a b : Path) : Bool :=
  a.components == b.components

def orderComponents : List Component -> List Component -> Ordering
  | [], [] => .eq
  | [], _ :: _ => .lt
  | _ :: _, [] => .gt
  | a :: as, b :: bs =>
    match a.order b with
    | .eq => orderComponents as bs
    | other => other

theorem orderComponents_eq_iff (a b : List Component) : orderComponents a b = .eq ↔ a = b := by
  induction a generalizing b with
  | nil => cases b <;> simp [orderComponents]
  | cons first rest ih =>
    cases b with
    | nil => simp [orderComponents]
    | cons other others =>
      unfold orderComponents
      split
      next equal => simp [ih, (Component.order_eq_iff first other).1 equal]
      next differs =>
        constructor
        · exact fun equal => absurd equal differs
        · rintro ⟨⟩
          exact absurd ((Component.order_eq_iff first first).2 rfl) differs

def order (a b : Path) : Ordering :=
  orderComponents a.components b.components

theorem order_eq_iff_same (a b : Path) : a.order b = .eq ↔ a.same b = true := by
  simp [order, same, orderComponents_eq_iff]

def join (base rest : Path) : Path :=
  if rest.isAbsolute then rest
  else
    match base.text.toList.getLast? with
    | none => rest
    | some last =>
      if last = separator then ⟨base.text ++ rest.text⟩ else ⟨base.text ++ "/" ++ rest.text⟩

def slice (p : Path) (start stop : Nat) : Path :=
  ⟨String.ofList ((p.text.toList.take stop).drop start)⟩

def parent? (p : Path) : Option Path :=
  match p.pieces.reverse with
  | [] => none
  | last :: earlier =>
    if last.component = .root then none
    else some (p.slice 0 ((earlier.head?.map Piece.stop).getD 0))

def piecesAfter : List Component -> List Piece -> Option (List Piece)
  | [], pieces => some pieces
  | _ :: _, [] => none
  | component :: components, piece :: pieces =>
    if piece.component = component then piecesAfter components pieces else none

def below? (base p : Path) : Option Path :=
  (piecesAfter base.components p.pieces).map fun pieces =>
    match pieces.head?, pieces.getLast? with
    | some first, some last => p.slice first.start last.stop
    | _, _ => ⟨""⟩

def seenFrom (base p : Path) : Path :=
  (base.below? p).getD p

def fileName? (p : Path) : Option String :=
  match p.components.getLast? with
  | some (.name text) => some text
  | _ => none

def fileName (p : Path) : String :=
  p.fileName?.getD ""

/-- A name cut at its last dot; a name without one, or with one only at its start, is all stem. -/
def cutName (name : List Char) : List Char × Option (List Char) :=
  let after := (name.reverse.takeWhile (· ≠ '.')).reverse
  let before := (name.reverse.drop (after.length + 1)).reverse
  if before = [] then (name, none) else (before, some after)

def stem? (p : Path) : Option String :=
  p.fileName?.map fun name => String.ofList (cutName name.toList).1

def extension? (p : Path) : Option String :=
  p.fileName?.bind fun name => (cutName name.toList).2.map String.ofList

def extension (p : Path) : String :=
  p.extension?.getD ""

def stemThen (p : Path) (extension : String) : Path :=
  match p.pieces.getLast?, p.stem? with
  | some last, some stem =>
    let upTo := (p.slice 0 (last.start + stem.length)).text
    if extension = "" then ⟨upTo⟩ else ⟨upTo ++ "." ++ extension⟩
  | _, _ => p

/-- The path with another extension; an empty one leaves the stem alone. Where the name is a single
dot before its extension, taking the extension away leaves `..`, which is no name to extend. -/
def withExtension (p : Path) (extension : String) : Path :=
  match p.extension? with
  | none => p.stemThen extension
  | some old =>
    let bare : Path := p.slice 0 (p.text.length - old.length)
    match bare.fileName? with
    | none => bare
    | some _ => bare.stemThen extension

def append (p : Path) (text : String) : Path :=
  ⟨p.text ++ text⟩

end Path

end Stowage

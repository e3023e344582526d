import Stowage.Glob.Basic
import Stowage.Path.Basic

set_option autoImplicit false

namespace Stowage

structure Excludes where
  patterns : List Glob
  defaults : Bool

structure BadPattern where
  pattern : String
  problem : Glob.Problem

def BadPattern.context (bad : BadPattern) : String :=
  "Invalid exclude pattern '" ++ bad.pattern ++ "'"

def BadPattern.message (bad : BadPattern) : String :=
  bad.context ++ ": " ++ bad.problem.message

namespace Excludes

def usual : Excludes := ⟨[], true⟩

def readAll : List String -> Except BadPattern (List Glob)
  | [] => .ok []
  | pattern :: rest =>
    match Glob.read pattern with
    | .error problem => .error ⟨pattern, problem⟩
    | .ok glob => (readAll rest).map (glob :: ·)

def read (patterns : List String) (defaults : Bool) : Except BadPattern Excludes :=
  (readAll patterns).map fun globs => ⟨globs, defaults⟩

def hiddenByDefault (name : String) : Bool :=
  name.toList.head? = some '.' || name.toList.head? = some '_' || name == "node_modules"

def leavesOut (excludes : Excludes) (name : String) (path : Path) : Bool :=
  (excludes.defaults && hiddenByDefault name) ||
    excludes.patterns.any fun glob => glob.holds name || glob.holds path.text

inductive Hides (excludes : Excludes) (name : String) (path : Path) : Prop
  | dot (rest : List Char) (defaults : excludes.defaults = true) (starts : name.toList = '.' :: rest)
  | underscore (rest : List Char) (defaults : excludes.defaults = true) (starts : name.toList = '_' :: rest)
  | packages (defaults : excludes.defaults = true) (named : name = "node_modules")
  | byName (glob : Glob) (listed : glob ∈ excludes.patterns) (holds : glob.holds name = true)
  | byPath (glob : Glob) (listed : glob ∈ excludes.patterns) (holds : glob.holds path.text = true)

theorem hiddenByDefault_iff (name : String) :
    hiddenByDefault name = true ↔
      (∃ rest, name.toList = '.' :: rest) ∨ (∃ rest, name.toList = '_' :: rest) ∨ name = "node_modules" := by
  have starts : ∀ c : Char, name.toList.head? = some c ↔ ∃ rest, name.toList = c :: rest := by
    intro c
    cases name.toList <;> simp [eq_comm]
  simp only [hiddenByDefault, Bool.or_eq_true, decide_eq_true_eq, beq_iff_eq, starts, or_assoc]

theorem leavesOut_iff {excludes : Excludes} {name : String} {path : Path} :
    excludes.leavesOut name path = true ↔ excludes.Hides name path := by
  simp only [leavesOut, Bool.or_eq_true, Bool.and_eq_true, List.any_eq_true, hiddenByDefault_iff]
  constructor
  · rintro (⟨defaults, ⟨rest, starts⟩ | ⟨rest, starts⟩ | named⟩ | ⟨glob, listed, holds | holds⟩)
    · exact .dot rest defaults starts
    · exact .underscore rest defaults starts
    · exact .packages defaults named
    · exact .byName glob listed holds
    · exact .byPath glob listed holds
  · intro hides
    cases hides with
    | dot rest defaults starts => exact .inl ⟨defaults, .inl ⟨rest, starts⟩⟩
    | underscore rest defaults starts => exact .inl ⟨defaults, .inr (.inl ⟨rest, starts⟩)⟩
    | packages defaults named => exact .inl ⟨defaults, .inr (.inr named)⟩
    | byName glob listed holds => exact .inr ⟨glob, listed, .inl holds⟩
    | byPath glob listed holds => exact .inr ⟨glob, listed, .inr holds⟩

theorem leavesOut_eq_false_iff {excludes : Excludes} {name : String} {path : Path} :
    excludes.leavesOut name path = false ↔ ¬ excludes.Hides name path := by
  rw [← leavesOut_iff, Bool.not_eq_true]

end Excludes

end Stowage

import Stowage.Imports.Basic
import Stowage.Layout
import Stowage.Path.Normal

/-!
Specifiers and the files they name. A specifier is read from the directory of its file, from the
directory an alias stands for, or from the source root; any other belongs to a package and is left
alone. It never names anything outside the root.
-/

set_option autoImplicit false

namespace Stowage

inductive Strategy
  | relative
  | aliasPrefixed
  | rootRelative
  deriving DecidableEq, Repr

def Strategy.label : Strategy -> String
  | relative => "relative"
  | aliasPrefixed => "alias_prefixed"
  | rootRelative => "root_relative"

inductive Resolution
  | resolved (strategy : Strategy) (path : Path)
  | missing (strategy : Strategy) (candidate : Option Path)
  | notAttempted
  deriving Repr

structure Edge where
  file : Path
  raw : String
  line : Nat
  strategy : Strategy
  target : Option Path
  candidate : Option Path
  deriving Repr

def Edge.isBroken (edge : Edge) : Bool := edge.target.isNone

structure Anchors where
  root : Path
  sourceRoot : Path
  aliases : List (String × Path)
  extensions : List String
  deriving Repr

namespace Specifier

def isRelative (specifier : String) : Bool :=
  "./".toList.isPrefixOf specifier.toList || "../".toList.isPrefixOf specifier.toList ||
    specifier == "." || specifier == ".."

def after? (start text : List Char) : Option (List Char) :=
  if start.isPrefixOf text then some (text.drop start.length) else none

end Specifier

namespace Anchors

open Specifier

def ofLayout (root : Path) (layout : Layout) : Anchors where
  root := root
  sourceRoot := root.join layout.sourceDir
  aliases := layout.longestAliases.map fun entry => (entry.1, root.join entry.2)
  extensions := layout.probeExtensions

def aliasAnchor (specifier : String) : List (String × Path) -> Option (Path × String)
  | [] => none
  | (start, directory) :: others =>
    match after? start.toList specifier.toList with
    | some rest => some (directory, String.ofList (rest.dropWhile (· == Path.separator)))
    | none => aliasAnchor specifier others

/-- The strategy for a specifier, the directory it is read from, and what is read there. -/
def anchor (anchors : Anchors) (specifier : String) (origin : Path) :
    Option (Strategy × Path × String) :=
  if isRelative specifier then
    origin.parent?.map fun directory => (.relative, directory, specifier)
  else
    match aliasAnchor specifier anchors.aliases with
    | some (directory, rest) => some (.aliasPrefixed, directory, rest)
    | none =>
      (after? [Path.separator] specifier.toList).map fun rest =>
        (.rootRelative, anchors.sourceRoot, String.ofList rest)

def strategyFor (anchors : Anchors) (specifier : String) : Option Strategy :=
  if isRelative specifier then some .relative
  else if anchors.aliases.any fun entry => entry.1.toList.isPrefixOf specifier.toList then
    some .aliasPrefixed
  else if [Path.separator].isPrefixOf specifier.toList then some .rootRelative
  else none

def probed (extensions : List String) (candidate : Path) : List Path :=
  let known := match candidate.extension? with
    | some extension => extensions.contains extension
    | none => false
  -- A name that ends in one of the extensions is not tried with a second one.
  let extended := if known then [] else extensions.map fun extension =>
    candidate.append ("." ++ extension)
  extended ++ [candidate]

def resolve (anchors : Anchors) (isFile : Path -> Bool) (specifier : String) (origin : Path) :
    Resolution :=
  match anchors.anchor specifier origin with
  | none => .notAttempted
  | some (strategy, base, rest) =>
    match anchors.root.normalizeWithin (base.join ⟨rest⟩) with
    | none => .missing strategy none
    | some candidate =>
      match (probed anchors.extensions candidate).find? isFile with
      | some path => .resolved strategy path
      | none => .missing strategy (some candidate)

def edge? (anchors : Anchors) (isFile : Path -> Bool) (file : Path) (found : Import) :
    Option Edge :=
  match anchors.resolve isFile found.specifier file with
  | .notAttempted => none
  | .resolved strategy path =>
    some ⟨file, found.specifier, found.line, strategy, some path, none⟩
  | .missing strategy candidate =>
    some ⟨file, found.specifier, found.line, strategy, none, candidate⟩

def edges (anchors : Anchors) (isFile : Path -> Bool) (file : Path) (imports : List Import) :
    List Edge :=
  imports.filterMap (anchors.edge? isFile file)

theorem aliasAnchor_isSome (specifier : String) (aliases : List (String × Path)) :
    (aliasAnchor specifier aliases).isSome =
      aliases.any fun entry => entry.1.toList.isPrefixOf specifier.toList := by
  induction aliases with
  | nil => rfl
  | cons entry others ih =>
    obtain ⟨start, directory⟩ := entry
    unfold aliasAnchor after?
    by_cases starts : start.toList.isPrefixOf specifier.toList = true
    · simp [starts]
    · simp [starts, ih]

end Anchors

end Stowage

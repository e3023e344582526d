import Stowage.Imports.Rewrite
import Stowage.Specifier.Basic
import Stowage.Specifier.Writing
import Stowage.Table

set_option autoImplicit false

namespace Stowage

inductive Fate
  | carried (path : Path)
  | superseded (path : Path)
  | quarantined
  deriving Repr

abbrev Fates := Table Path Fate

namespace Specifier

def originNow (fates : Fates) (file : Path) : Option Path :=
  match fates.lookup Path.order file with
  | none => some file
  | some (.carried path) => some path
  | some _ => none

def targetNow (fates : Fates) (target : Path) : Option Path :=
  match fates.lookup Path.order target with
  | none => some target
  | some (.carried path) => some path
  | some (.superseded path) => some path
  | some .quarantined => none

def keepsExtension (raw : String) (target : Path) : Bool :=
  (Path.mk raw).extension? == target.extension?

def replacementFor (strategy : Strategy) (sourceRoot origin target : Path)
    (keepExtension : Bool) : Option String :=
  match strategy with
  | .rootRelative =>
    -- No rooted specifier reaches a target outside of the source root.
    (rooted? sourceRoot target keepExtension).orElse fun _ =>
      relative? origin target keepExtension
  | _ => relative? origin target keepExtension

def editFor (fates : Fates) (sourceRoot : Path) (edge : Edge) : Option (Path × Edit) :=
  if edge.strategy = .aliasPrefixed then none
  else
    match edge.target with
    | none => none
    | some target =>
      match originNow fates edge.file, targetNow fates target with
      | some origin, some moved =>
        -- A rooted specifier reads the same wherever its file is.
        if moved.same target && (edge.strategy = .rootRelative || origin.same edge.file) then none
        else
          match replacementFor edge.strategy sourceRoot origin moved
              (keepsExtension edge.raw target) with
          | none => none
          | some replacement =>
            if replacement = edge.raw then none else some (origin, ⟨edge.raw, replacement⟩)
      | _, _ => none

def addEdit (edit : Edit) (edits : List Edit) : List Edit :=
  if edits.any fun other => other.raw == edit.raw then edits else edits ++ [edit]

def rewrites (edges : List Edge) (fates : Fates) (sourceRoot : Path) :
    Table Path (List Edit) :=
  (edges.filterMap (editFor fates sourceRoot)).foldl
    (fun plans step => plans.alter Path.order step.1 [] (addEdit step.2)) []

end Specifier

end Stowage

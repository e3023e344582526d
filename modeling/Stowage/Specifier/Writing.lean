import Stowage.Path.Basic

set_option autoImplicit false

namespace Stowage.Specifier

def commonLength : List Component -> List Component -> Nat
  | a :: as, b :: bs => if a = b then commonLength as bs + 1 else 0
  | _, _ => 0

theorem commonLength_le_left (a b : List Component) : commonLength a b ≤ a.length := by
  fun_induction commonLength a b with
  | case1 a as bs ih => simpa using ih
  | case2 => simp
  | case3 => simp

theorem take_commonLength (a b : List Component) :
    a.take (commonLength a b) = b.take (commonLength a b) := by
  fun_induction commonLength a b with
  | case1 a as bs ih => simp [ih]
  | case2 => simp
  | case3 => simp

def shown (target : Path) (keepExtension : Bool) : Path :=
  if keepExtension then target else target.withExtension ""

/-- The way from a directory to a target that starts at the same root and is not on the way to the
directory. -/
def steps? (directory target : List Component) : Option (List String) :=
  let common := commonLength directory target
  if common = 0 || common = target.length then none
  else
    some (List.replicate (directory.length - common) ".." ++
      (target.drop common).map Component.text)

def relative? (file target : Path) (keepExtension : Bool) : Option String :=
  file.parent?.bind fun directory =>
    (steps? directory.components (shown target keepExtension).components).map fun steps =>
      let joined := "/".intercalate steps
      if "..".toList.isPrefixOf joined.toList then joined else "./" ++ joined

def rooted? (sourceRoot target : Path) (keepExtension : Bool) : Option String :=
  (sourceRoot.below? (shown target keepExtension)).bind fun rest =>
    if rest.components = [] then none
    else some ("/" ++ "/".intercalate (rest.components.map Component.text))

end Stowage.Specifier

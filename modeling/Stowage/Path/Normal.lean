import Stowage.Path.Basic

set_option autoImplicit false

namespace Stowage

/-- The names left after every `..` has taken back the last one, starting from the names already
passed, nearest first. There are none where a `..` finds nothing to take back. -/
def cancelUps : List String -> List Component -> Option (List String)
  | passed, [] => some passed.reverse
  | passed, .name text :: rest => cancelUps (text :: passed) rest
  | passed, .here :: rest => cancelUps passed rest
  | _ :: passed, .up :: rest => cancelUps passed rest
  | [], .up :: _ => none
  | _, .root :: _ => none

theorem cancelUps_names (passed names : List String) :
    cancelUps passed (names.map Component.name) = some (passed.reverse ++ names) := by
  induction names generalizing passed with
  | nil => simp [cancelUps]
  | cons text rest ih => simp [cancelUps, ih]

namespace Path

def joinNames (base : Path) (names : List String) : Path :=
  names.foldl (fun path name => path.join ⟨name⟩) base

def normalizeWithin (root path : Path) : Option Path :=
  (root.below? path).bind fun rest =>
    (cancelUps [] rest.components).map root.joinNames

end Path

end Stowage

import Stowage.Proofs.Disk.Walking

set_option autoImplicit false

namespace Stowage

namespace Node

def touched (now : Instant) : Node -> Node
  | folder mode _ => folder mode now
  | node => node

theorem alike_touched (now : Instant) (node : Node) : node.Alike (node.touched now) := by
  cases node <;> simp [Alike, touched]

theorem Alike.symm {first second : Node} (alike : first.Alike second) : second.Alike first := by
  cases first <;> cases second <;> simp_all [Alike]

end Node

namespace Disk

theorem touch_privileged (d : Disk) (place : Location) :
    (d.touch place).privileged = d.privileged := by
  unfold touch
  split <;> rfl

theorem touch_home (d : Disk) (place : Location) : (d.touch place).home = d.home := by
  unfold touch
  split <;> rfl

theorem touch_now (d : Disk) (place : Location) : (d.touch place).now = d.now := by
  unfold touch
  split <;> rfl

theorem node?_touch (d : Disk) (place other : Location) :
    (d.touch place).node? other =
      if other = place then (d.node? other).map (Node.touched d.now) else d.node? other := by
  unfold touch
  split
  next mode modified folder =>
    split
    next same =>
      subst same
      rw [node?_put_self, folder]
      rfl
    next differs => exact node?_put_other d place other _ differs
  next others =>
    split
    next same =>
      subst same
      cases found : d.node? other with
      | none => rfl
      | some node =>
        cases node with
        | folder mode modified => exact absurd found (others mode modified)
        | file | link => rfl
    · rfl

theorem node?_touch_eq_none_iff (d : Disk) (place other : Location) :
    (d.touch place).node? other = none ↔ d.node? other = none := by
  rw [node?_touch]
  split <;> simp

theorem alike_touch (d : Disk) (place other : Location) (node : Node)
    (found : d.node? other = some node) :
    ∃ same, (d.touch place).node? other = some same ∧ node.Alike same := by
  rw [node?_touch]
  split
  · exact ⟨_, by rw [found]; rfl, node.alike_touched d.now⟩
  · exact ⟨node, found, .refl node⟩

theorem alike_of_touch (d : Disk) (place other : Location) (node : Node)
    (found : (d.touch place).node? other = some node) :
    ∃ same, d.node? other = some same ∧ node.Alike same := by
  have present : d.node? other ≠ none := by
    intro missing
    rw [(node?_touch_eq_none_iff d place other).2 missing] at found
    cases found
  obtain ⟨same, held⟩ := Option.ne_none_iff_exists'.1 present
  obtain ⟨again, found', alike⟩ := alike_touch d place other same held
  cases found.symm.trans found'
  exact ⟨same, held, alike.symm⟩

end Disk

end Stowage

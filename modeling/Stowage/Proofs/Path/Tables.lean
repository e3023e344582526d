import Stowage.Proofs.Path.Ordering

set_option autoImplicit false

namespace Stowage

namespace Path

theorem order_congr {a b : Path} (same : a.same b = true) (other : Path) : a.order other = b.order other := by
  unfold order
  rw [eq_of_beq same]

theorem order_congr_right {a b : Path} (same : a.same b = true) (other : Path) : other.order a = other.order b := by
  unfold order
  rw [eq_of_beq same]

theorem same_symm {a b : Path} (same : a.same b = true) : b.same a = true := by
  unfold Path.same
  rw [eq_of_beq same, beq_self_eq_true]

theorem same_trans {a b c : Path} (first : a.same b = true) (second : b.same c = true) : a.same c = true := by
  unfold Path.same
  rw [eq_of_beq first, eq_of_beq second, beq_self_eq_true]

end Path

namespace Table

variable {Value : Type}

theorem lookup_congr {p q : Path} (same : p.same q = true) (table : Table Path Value) :
    table.lookup Path.order p = table.lookup Path.order q := by
  induction table with
  | nil => rfl
  | cons row rest ih =>
    unfold lookup
    rw [Path.order_congr same, ih]

theorem lookup_of_lt {p : Path} {table : Table Path Value} (before : ∀ row ∈ table, p.order row.1 = .lt) :
    table.lookup Path.order p = none := by
  induction table with
  | nil => rfl
  | cons row rest ih =>
    obtain ⟨own, others⟩ := List.forall_mem_cons.1 before
    unfold lookup
    rw [own, if_neg (by simp), ih others]

theorem lookup_of_mem {table : Table Path Value} (sorted : table.Sorted Path.order) {row : Path × Value}
    (inside : row ∈ table) : table.lookup Path.order row.1 = some row.2 := by
  induction table with
  | nil => cases inside
  | cons first rest ih =>
    obtain ⟨below, onward⟩ := List.pairwise_cons.1 sorted
    unfold lookup
    rcases List.mem_cons.1 inside with rfl | later
    · have own : row.1.order row.1 = .eq := (Path.order_eq_iff_same _ _).2 (by simp [Path.same])
      rw [if_pos own]
    · -- What comes later is larger.
      have less := below row later
      have apart : row.1.order first.1 ≠ .eq := by
        intro equal
        have same := Path.same_symm ((Path.order_eq_iff_same _ _).1 equal)
        rw [(Path.order_eq_iff_same _ _).2 same] at less
        cases less
      rw [if_neg apart, ih onward later]

theorem lookup_alter {table : Table Path Value} (sorted : table.Sorted Path.order) (key : Path) (fresh : Value)
    (change : Value -> Value) (p : Path) :
    ((table.alter Path.order key fresh change).lookup Path.order p).getD fresh =
      if p.same key then change ((table.lookup Path.order p).getD fresh)
      else (table.lookup Path.order p).getD fresh := by
  simp only [← Path.order_eq_iff_same]
  -- The rows are in order, so that the first row not before the key tells whether it is there.
  induction table with
  | nil =>
    simp only [alter, lookup]
    split <;> rfl
  | cons row rest ih =>
    obtain ⟨other, value⟩ := row
    obtain ⟨below, onward⟩ := List.pairwise_cons.1 sorted
    unfold alter
    split
    next less =>
      simp only [lookup]
      by_cases same : p.order key = .eq
      · -- The key comes before all rows there are.
        have congr := Path.order_congr ((Path.order_eq_iff_same _ _).1 same)
        have none : lookup Path.order p rest = none := lookup_of_lt fun row inside => by
          rw [congr]
          exact Path.order_trans _ _ _ less (below row inside)
        simp [same, congr other, less, none]
      · simp [same]
    next equal =>
      have congr := Path.order_congr_right ((Path.order_eq_iff_same _ _).1 equal) p
      simp only [lookup, congr]
      split <;> rfl
    next greater =>
      simp only [lookup]
      by_cases same : p.order other = .eq
      · have apart : p.order key ≠ .eq := by
          intro equal
          rw [← Path.order_congr ((Path.order_eq_iff_same _ _).1 equal), same] at greater
          cases greater
        simp [same, apart]
      · simpa [same] using ih onward

end Table

end Stowage

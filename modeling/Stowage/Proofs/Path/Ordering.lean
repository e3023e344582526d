import Mathlib.Order.Defs.LinearOrder
import Stowage.Path.Basic
import Stowage.Table

set_option autoImplicit false

namespace Stowage

namespace Component

def key : Component -> String
  | name text => text
  | _ => ""

theorem order_lt_iff (a b : Component) :
    a.order b = .lt ↔ a.rank < b.rank ∨ (a.rank = b.rank ∧ a.key < b.key) := by
  cases a <;> cases b
  case name.name first second => simp [order, rank, key, compareOfLessAndEq_eq_lt]
  all_goals simp [order, rank, key, compareOfLessAndEq]

theorem order_gt (a b : Component) (greater : a.order b = .gt) : b.order a = .lt := by
  cases a <;> cases b
  case name.name first second =>
    simp only [order] at greater ⊢
    rw [compareOfLessAndEq_eq_gt String.le_antisymm String.le_total String.not_le] at greater
    exact compareOfLessAndEq_eq_lt.2 greater
  all_goals
    revert greater
    simp [order, rank, compareOfLessAndEq]

theorem order_trans (a b c : Component) (first : a.order b = .lt) (second : b.order c = .lt) :
    a.order c = .lt := by
  rw [order_lt_iff] at first second ⊢
  rcases first with ranks | ⟨ranks, keys⟩
  · rcases second with ranks' | ⟨ranks', -⟩ <;> exact .inl (by omega)
  · rcases second with ranks' | ⟨ranks', keys'⟩
    · exact .inl (by omega)
    · exact .inr ⟨by omega, String.lt_trans keys keys'⟩

end Component

namespace Path

theorem orderComponents_gt (a b : List Component) (greater : orderComponents a b = .gt) :
    orderComponents b a = .lt := by
  induction a generalizing b with
  | nil => cases b <;> cases greater
  | cons first rest ih =>
    cases b with
    | nil => rfl
    | cons other others =>
      unfold orderComponents at greater ⊢
      cases compared : first.order other with
      | lt => simp [compared] at greater
      | gt => simp [Component.order_gt _ _ compared]
      | eq =>
        obtain rfl := (Component.order_eq_iff first other).1 compared
        simp only [compared] at greater ⊢
        exact ih others greater

theorem orderComponents_trans (a b c : List Component) (first : orderComponents a b = .lt)
    (second : orderComponents b c = .lt) : orderComponents a c = .lt := by
  induction a generalizing b c with
  | nil =>
    cases b with
    | nil => cases first
    | cons => cases c <;> first | rfl | cases second
  | cons x xs ih =>
    cases b with
    | nil => cases first
    | cons y ys =>
      cases c with
      | nil => cases second
      | cons z zs =>
        unfold orderComponents at first second ⊢
        -- The first difference decides; an equal first component passes the question on.
        cases compared : x.order y with
        | gt => simp [compared] at first
        | lt =>
          cases compared' : y.order z with
          | gt => simp [compared'] at second
          | lt => simp [Component.order_trans x y z compared compared']
          | eq =>
            obtain rfl := (Component.order_eq_iff y z).1 compared'
            simp [compared]
        | eq =>
          obtain rfl := (Component.order_eq_iff x y).1 compared
          simp only [compared] at first
          cases compared' : x.order z with
          | gt => simp [compared'] at second
          | lt => rfl
          | eq =>
            simp only [compared'] at second ⊢
            exact ih ys zs first second

theorem order_gt (a b : Path) (greater : a.order b = .gt) : b.order a = .lt :=
  orderComponents_gt _ _ greater

theorem order_trans (a b c : Path) (first : a.order b = .lt) (second : b.order c = .lt) :
    a.order c = .lt :=
  orderComponents_trans _ _ _ first second

end Path

namespace Table

variable {Key Value : Type}

def Sorted (order : Key -> Key -> Ordering) (table : Table Key Value) : Prop :=
  table.Pairwise fun first second => order first.1 second.1 = .lt

theorem mem_of_lookup (order : Key -> Key -> Ordering) (key : Key) (table : Table Key Value) (value : Value)
    (known : table.lookup order key = some value) :
    ∃ row ∈ table, order key row.1 = .eq ∧ row.2 = value := by
  induction table with
  | nil => cases known
  | cons row rest ih =>
    obtain ⟨other, held⟩ := row
    unfold lookup at known
    split at known
    next same =>
      cases known
      exact ⟨_, List.mem_cons_self, same, rfl⟩
    · obtain ⟨row, inside, same⟩ := ih known
      exact ⟨row, List.mem_cons_of_mem _ inside, same⟩

theorem not_mem_of_lookup (order : Key -> Key -> Ordering) (key : Key) (table : Table Key Value)
    (unknown : table.lookup order key = none) : ∀ row ∈ table, order key row.1 ≠ .eq := by
  induction table with
  | nil => exact fun row impossible => (nomatch impossible)
  | cons row rest ih =>
    unfold lookup at unknown
    split at unknown
    · cases unknown
    next differs =>
      intro other member
      rcases List.mem_cons.1 member with rfl | later
      · exact differs
      · exact ih unknown other later

theorem mem_alter (order : Key -> Key -> Ordering) (key : Key) (fresh : Value) (change : Value -> Value)
    (table : Table Key Value) (row : Key × Value) (member : row ∈ table.alter order key fresh change) :
    row = (key, change fresh) ∨ ∃ old ∈ table, old.1 = row.1 ∧ (row = old ∨ row.2 = change old.2) := by
  induction table with
  | nil => exact .inl (List.mem_singleton.1 member)
  | cons first rest ih =>
    obtain ⟨other, value⟩ := first
    unfold alter at member
    split at member
    · rcases List.mem_cons.1 member with same | later
      · exact .inl same
      · exact .inr ⟨row, later, rfl, .inl rfl⟩
    · rcases List.mem_cons.1 member with rfl | later
      · exact .inr ⟨_, List.mem_cons_self, rfl, .inr rfl⟩
      · exact .inr ⟨row, List.mem_cons_of_mem _ later, rfl, .inl rfl⟩
    · rcases List.mem_cons.1 member with rfl | later
      · exact .inr ⟨_, List.mem_cons_self, rfl, .inl rfl⟩
      · rcases ih later with same | ⟨old, inside, known⟩
        · exact .inl same
        · exact .inr ⟨old, List.mem_cons_of_mem _ inside, known⟩

theorem sorted_alter (order : Key -> Key -> Ordering)
    (trans : ∀ a b c, order a b = .lt -> order b c = .lt -> order a c = .lt)
    (swap : ∀ a b, order a b = .gt -> order b a = .lt) (key : Key) (fresh : Value)
    (change : Value -> Value) (table : Table Key Value) (sorted : table.Sorted order) :
    (table.alter order key fresh change).Sorted order := by
  induction table with
  | nil => exact List.pairwise_singleton _ _
  | cons first rest ih =>
    obtain ⟨other, value⟩ := first
    obtain ⟨below, onward⟩ := List.pairwise_cons.1 sorted
    unfold alter
    split
    next less =>
      refine List.pairwise_cons.2 ⟨fun row inside => ?_, sorted⟩
      rcases List.mem_cons.1 inside with rfl | later
      · exact less
      · exact trans _ _ _ less (below row later)
    · exact List.pairwise_cons.2 ⟨below, onward⟩
    next greater =>
      refine List.pairwise_cons.2 ⟨fun row inside => ?_, ih onward⟩
      rcases mem_alter order key fresh change rest row inside with rfl | ⟨old, member, same, -⟩
      · exact swap _ _ greater
      · rw [← same]
        exact below old member

end Table

end Stowage

set_option autoImplicit false

namespace Stowage

inductive Tree (Value : Type)
  | bare
  | row (name : String) (value : Option Value) (below beside : Tree Value)

namespace Tree

variable {Value : Type}

structure Branch (Value : Type) where
  value : Option Value
  below : Tree Value

def Branch.none : Branch Value := ⟨.none, .bare⟩

def branch : Tree Value -> String -> List String -> Branch Value
  | bare, _, _ => .none
  | row other value below beside, name, names =>
    if other = name then
      match names with
      | [] => ⟨value, below⟩
      | next :: rest => below.branch next rest
    else beside.branch name names

def find? (tree : Tree Value) (name : String) (names : List String) : Option Value :=
  (tree.branch name names).value

def single (branch : Branch Value) (name : String) : List String -> Tree Value
  | [] => row name branch.value branch.below bare
  | next :: rest => row name .none (single branch next rest) bare

def graft (change : Branch Value -> Branch Value) :
    Tree Value -> String -> List String -> Tree Value
  | bare, name, names => single (change .none) name names
  | row other value below beside, name, names =>
    if other = name then
      match names with
      | [] => row other (change ⟨value, below⟩).value (change ⟨value, below⟩).below beside
      | next :: rest => row other value (below.graft change next rest) beside
    else row other value below (beside.graft change name names)

def alter (change : Option Value -> Option Value) (tree : Tree Value) (name : String)
    (names : List String) : Tree Value :=
  tree.graft (fun branch => ⟨change branch.value, branch.below⟩) name names

def entries : List String -> Tree Value -> List (List String × Value)
  | _, bare => []
  | above, row name value below beside =>
    (value.toList.map fun held => (above ++ [name], held)) ++
      (entries (above ++ [name]) below ++ entries above beside)

def rows : Tree Value -> List (String × Value)
  | bare => []
  | row name value _ beside => (value.toList.map fun held => (name, held)) ++ beside.rows

def count : Tree Value -> Nat
  | bare => 0
  | row _ value below beside => value.toList.length + (below.count + beside.count)

def map (change : Value -> Value) : Tree Value -> Tree Value
  | bare => bare
  | row name value below beside =>
    row name (value.map change) (below.map change) (beside.map change)

attribute [local simp] branch find? single graft

theorem branch_single_self (held : Branch Value) (name : String) (names : List String) :
    (single held name names).branch name names = held := by
  induction names generalizing name with
  | nil => simp
  | cons next rest ih => simp [ih]

theorem branch_graft_self (change : Branch Value -> Branch Value) (tree : Tree Value)
    (name : String) (names : List String) :
    (tree.graft change name names).branch name names = change (tree.branch name names) := by
  induction tree generalizing name names with
  | bare => simp [branch_single_self]
  | row other value below beside ihBelow ihBeside =>
    by_cases same : other = name
    · cases names with
      | nil => simp [same]
      | cons next rest => simp [same, ihBelow]
    · simp [same, ihBeside]

theorem find?_alter_self (change : Option Value -> Option Value) (tree : Tree Value)
    (name : String) (names : List String) :
    (tree.alter change name names).find? name names = change (tree.find? name names) := by
  simp [alter, branch_graft_self]

theorem find?_single_other (held : Branch Value) (name other : String)
    (names others : List String) (hollow : held.below = bare)
    (differs : other :: others ≠ name :: names) :
    (single held name names).find? other others = none := by
  induction names generalizing name other others with
  | nil =>
    by_cases same : name = other
    · cases others with
      | nil => exact absurd (by rw [same]) differs
      | cons next rest => simp [same, hollow, Branch.none]
    · simp [same, Branch.none]
  | cons next rest ih =>
    by_cases same : name = other
    · cases others with
      | nil => simp [same]
      | cons second more =>
        have apart : second :: more ≠ next :: rest := fun equal => differs (by rw [same, equal])
        have missed := ih next second more apart
        simpa [same] using missed
    · simp [same, Branch.none]

theorem find?_alter_other (change : Option Value -> Option Value) (tree : Tree Value)
    (name other : String) (names others : List String)
    (differs : other :: others ≠ name :: names) :
    (tree.alter change name names).find? other others = tree.find? other others := by
  induction tree generalizing name other names others with
  | bare => exact find?_single_other _ _ _ _ _ rfl differs
  | row first value below beside ihBelow ihBeside =>
    -- Along the row both keys are compared with its name: the change goes one way, the lookup maybe another.
    by_cases here : first = name
    · cases names with
      | nil =>
        by_cases there : first = other
        · cases others with
          | nil => exact absurd (by rw [← here, there]) differs
          | cons second more => simp [alter, here, ← there]
        · have missed : ¬ name = other := fun equal => there (here.trans equal)
          simp [alter, here, missed]
      | cons next rest =>
        by_cases there : first = other
        · cases others with
          | nil => simp [alter, here, ← there]
          | cons second more =>
            have apart : second :: more ≠ next :: rest := fun equal =>
              differs (by rw [← here, there, equal])
            have kept := ihBelow next second rest more apart
            simpa [alter, here, ← there] using kept
        · have missed : ¬ name = other := fun equal => there (here.trans equal)
          simp [alter, here, missed]
    · by_cases there : first = other
      · have missed : ¬ other = name := fun equal => here (there.trans equal)
        cases others <;> simp [alter, there, missed]
      · have kept := ihBeside name other names others differs
        simpa [alter, here, there] using kept

theorem find?_below (tree : Tree Value) (name next : String) (names rest : List String) :
    tree.find? name (names ++ next :: rest) = (tree.branch name names).below.find? next rest := by
  induction tree generalizing name names with
  | bare => simp [Branch.none]
  | row other value below beside ihBelow ihBeside =>
    by_cases same : other = name
    · cases names with
      | nil => simp [same]
      | cons second more =>
        have deeper := ihBelow second more
        simpa [same] using deeper
    · have onward := ihBeside name names
      simpa [same] using onward

theorem mem_entries_of_find? (tree : Tree Value) (above : List String) (name : String)
    (names : List String) (held : Value) (found : tree.find? name names = some held) :
    (above ++ name :: names, held) ∈ entries above tree := by
  induction tree generalizing above name names with
  | bare => simp [Branch.none] at found
  | row other value below beside ihBelow ihBeside =>
    by_cases same : other = name
    · cases names with
      | nil =>
        have own : value = some held := by simpa [same] using found
        simp [entries, own, same]
      | cons next rest =>
        have deeper : below.find? next rest = some held := by
          simpa [same] using found
        have member := ihBelow (above ++ [other]) next rest deeper
        simp only [List.append_assoc, List.singleton_append, same] at member
        simp [entries, same, member]
    · have onward : beside.find? name names = some held := by
        simpa [same] using found
      simp [entries, ihBeside above name names onward]

end Tree

end Stowage

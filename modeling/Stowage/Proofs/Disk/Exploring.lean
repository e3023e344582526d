import Stowage.Proofs.Disk.Listing
import Stowage.Proofs.Path.Ordering

set_option autoImplicit false

namespace Stowage

namespace Path

theorem orderComponents_append {first second : Component} (less : first.order second = .lt)
    (base rest rest' : List Component) :
    orderComponents (base ++ first :: rest) (base ++ second :: rest') = .lt := by
  induction base with
  | nil => simp [orderComponents, less]
  | cons own base ih => simpa [orderComponents, (Component.order_eq_iff own own).2 rfl] using ih

theorem order_joins (folder : Path) {name other : String} (less : name < other) {names others : List String}
    (named : ∀ each ∈ name :: names, IsName each)
    (named' : ∀ each ∈ other :: others, IsName each) :
    (folder.joins (name :: names)).order (folder.joins (other :: others)) = .lt := by
  rw [order, components_joins _ named, components_joins _ named', List.map_cons, List.map_cons]
  have first : (Component.name name).order (.name other) = .lt := compareOfLessAndEq_eq_lt.2 less
  exact orderComponents_append first _ _ _

end Path

namespace Disk

theorem forall_split_cons (Holds : List String -> String -> Prop) (first : String) (rest : List String) :
    (∀ above name later, first :: rest = above ++ name :: later -> Holds above name) ↔
      Holds [] first ∧ ∀ above name later, rest = above ++ name :: later -> Holds (first :: above) name := by
  constructor
  · intro each
    refine ⟨each [] first rest rfl, fun above name later split => ?_⟩
    exact each (first :: above) name later (congrArg (first :: ·) split)
  · rintro ⟨own, others⟩ above name later split
    rcases List.cons_eq_append_iff.1 split with ⟨rfl, same⟩ | ⟨above', rfl, split'⟩
    · cases same
      exact own
    · exact others above' name later split'

/-- The names lead down to a file from a directory that a walk has come to at a place: every directory on the way is a
real one that can be listed by the path the walk gives it, and nothing on the way is left out. -/
structure Uncovers (d : Disk) (excludes : Excludes) (folder : Path) (place : Location) (names : List String) :
    Prop where
  file : (d.file? (place ++ names)).isSome = true
  below : names ≠ []
  through : ∀ above name later, names = above ++ name :: later ->
    d.FolderAt (place ++ above) ∧ d.lists (folder.joins above) = true ∧
      ¬ excludes.Hides name (folder.joins (above ++ [name]))

theorem uncovers_cons (d : Disk) (excludes : Excludes) (folder : Path) (place : Location) (name : String)
    (rest : List String) :
    d.Uncovers excludes folder place (name :: rest) ↔
      d.FolderAt place ∧ d.lists folder = true ∧ ¬ excludes.Hides name (folder.join ⟨name⟩) ∧
        ((d.file? (place ++ [name])).isSome = true ∧ rest = [] ∨
          d.Uncovers excludes (folder.join ⟨name⟩) (place ++ [name]) rest) := by
  have onward : ∀ names, place ++ [name] ++ names = place ++ name :: names := by simp
  have through := forall_split_cons (fun above name => d.FolderAt (place ++ above) ∧
    d.lists (folder.joins above) = true ∧ ¬ excludes.Hides name (folder.joins (above ++ [name]))) name rest
  rw [List.append_nil] at through
  constructor
  · intro uncovers
    obtain ⟨⟨real, lists, kept⟩, later⟩ := through.1 uncovers.through
    refine ⟨real, lists, kept, ?_⟩
    by_cases last : rest = []
    · subst last
      exact .inl ⟨uncovers.file, rfl⟩
    · refine .inr ⟨by rw [onward]; exact uncovers.file, last, fun above other more split => ?_⟩
      rw [onward]
      exact later above other more split
  · rintro ⟨real, lists, kept, ⟨file, rfl⟩ | uncovers⟩
    · exact ⟨file, List.cons_ne_nil _ _, through.2 ⟨⟨real, lists, kept⟩, by simp⟩⟩
    · have file := uncovers.file
      have later := uncovers.through
      simp only [onward] at file later
      exact ⟨file, List.cons_ne_nil _ _, through.2 ⟨⟨real, lists, kept⟩, later⟩⟩

theorem list_eq_ok {d : Disk} {folder : Path} {entries : List (String × Node)} (listed : d.list folder = .ok entries) :
    ∃ place mode modified, d.find folder = .ok (place, .folder mode modified) ∧ entries = d.row place := by
  unfold list at listed
  split at listed
  · cases listed
  next place mode modified found =>
    split at listed
    · cases listed
      exact ⟨place, mode, modified, found, rfl⟩
    · cases listed
  · cases listed

theorem find_entry {d : Disk} {folder : Path} {place : Location} {node : Node}
    (found : d.find folder = .ok (place, node)) {name : String} (named : Path.IsName name) {entry : Node}
    (held : d.node? (place ++ [name]) = some entry) (real : ∀ target, entry ≠ .link target) {there : Location × Node}
    (reached : d.find (folder.join ⟨name⟩) = .ok there) : there = (place ++ [name], entry) := by
  have filled := filled_of_find found
  obtain ⟨-, whole⟩ := (find_leads_iff d _ there.1 there.2).1 reached
  rw [Path.isAbsolute_join_eq filled (Path.isAbsolute_name named), Path.steps_join_name filled named] at whole
  have last := ((leads_bare found).onward whole).entered held real
  have stopped : d.Leads .object linkLimit (place ++ [name]) [] (.taken (place ++ [name]) entry) := .stop held
  exact Prod.ext_iff.2 (Spot.taken.inj (last.unique stopped))

section

variable {d : Disk} (sound : d.Sound)

include sound

theorem Uncovers.named {excludes : Excludes} {folder : Path} {place : Location} {names : List String}
    (uncovers : d.Uncovers excludes folder place names) : ∀ name ∈ names, Path.IsName name := by
  obtain ⟨node, held⟩ := Option.isSome_iff_exists.1 uncovers.file
  have names' := sound.names ((file?_eq_some_iff d _ node).1 held).1
  exact fun name member => names' name (List.mem_append_right _ member)

theorem row_sorted (place : Location) : (d.row place).Pairwise fun first second => first.1 < second.1 := by
  have trans : ∀ a b c : String × Node, decide (a.1 ≤ b.1) = true -> decide (b.1 ≤ c.1) = true ->
      decide (a.1 ≤ c.1) = true := by
    intro a b c first second
    exact decide_eq_true (String.le_trans (of_decide_eq_true first) (of_decide_eq_true second))
  have total : ∀ a b : String × Node, (decide (a.1 ≤ b.1) || decide (b.1 ≤ a.1)) = true := by
    intro a b
    simpa using String.le_total a.1 b.1
  have ordered := List.pairwise_mergeSort trans total (d.children place)
  have distinct : ((d.row place).map Prod.fst).Nodup :=
    ((List.mergeSort_perm _ _).map Prod.fst).nodup_iff.2 (nodup_children d sound place)
  refine (ordered.and (List.pairwise_map.1 distinct)).imp fun both => ?_
  obtain ⟨least, differs⟩ := both
  exact String.not_le.1 fun greater => differs (String.le_antisymm (of_decide_eq_true least) greater)

theorem known_below {folder : Path} {place : Location} {node : Node} (found : d.find folder = .ok (place, node))
    {name : String} {entry : Node} (held : d.node? (place ++ [name]) = some entry) (solid : entry.isFolder = true)
    (there : Location × Node) (reached : d.find (folder.join ⟨name⟩) = .ok there) : there.1 = place ++ [name] := by
  cases entry <;> cases solid
  rw [find_entry found (sound.named _ _ _ held) held (by simp) reached]

theorem mem_walked_uncovers (excludes : Excludes) (depth : Nat) (folder path : Path) (place : Location)
    (known : ∀ there, d.find folder = .ok there -> there.1 = place) :
    path ∈ d.walked excludes depth folder ↔
      ∃ names, names.length ≤ depth ∧ d.Uncovers excludes folder place names ∧ path = folder.joins names := by
  induction depth generalizing folder place with
  | zero =>
    refine ⟨fun impossible => (nomatch impossible), ?_⟩
    rintro ⟨names, short, uncovers, -⟩
    exact absurd (List.length_eq_zero_iff.1 (Nat.le_zero.1 short)) uncovers.below
  | succ depth ih =>
    rw [walked_succ]
    cases listed : d.list folder with
    | error problem =>
      -- Below a directory that cannot be listed nothing is uncovered.
      refine ⟨fun impossible => (nomatch impossible), ?_⟩
      rintro ⟨names, -, uncovers, -⟩
      obtain ⟨name, rest, rfl⟩ := List.exists_cons_of_ne_nil uncovers.below
      have lists := ((uncovers_cons ..).1 uncovers).2.1
      simp [listed, Disk.lists] at lists
    | ok entries =>
      have lists : d.lists folder = true := (d.lists_iff folder).2 ⟨entries, listed⟩
      obtain ⟨place', mode, modified, found, rfl⟩ := list_eq_ok listed
      obtain rfl := known _ found
      have here : d.FolderAt place' := ⟨mode, modified, find_node d folder place' _ found⟩
      have children : ∀ name node, (name, node) ∈ d.row place' ↔ d.node? (place' ++ [name]) = some node :=
        fun name node => List.mem_mergeSort.trans (mem_children_iff d sound place' name node)
      have deeper : ∀ name node, d.node? (place' ++ [name]) = some node -> node.isFolder = true -> _ :=
        fun name node held solid => ih (folder.join ⟨name⟩) (place' ++ [name]) (known_below sound found held solid)
      simp only [List.mem_flatMap, mem_walkedAt_iff, Excludes.leavesOut_eq_false_iff]
      constructor
      · rintro ⟨⟨name, node⟩, inside, kept, ⟨file, rfl⟩ | ⟨solid, walked⟩⟩
        · have held := (file?_eq_some_iff d _ node).2 ⟨(children name node).1 inside, file⟩
          exact ⟨[name], by simp, (uncovers_cons ..).2 ⟨here, lists, kept, .inl ⟨by simp [held], rfl⟩⟩, rfl⟩
        · obtain ⟨names, short, uncovers, rfl⟩ := (deeper name node ((children name node).1 inside) solid).1 walked
          exact ⟨name :: names, Nat.succ_le_succ short,
            (uncovers_cons ..).2 ⟨here, lists, kept, .inr uncovers⟩, rfl⟩
      · rintro ⟨names, short, uncovers, rfl⟩
        obtain ⟨name, rest, rfl⟩ := List.exists_cons_of_ne_nil uncovers.below
        obtain ⟨-, -, kept, ⟨file, rfl⟩ | uncovers⟩ := (uncovers_cons ..).1 uncovers
        · obtain ⟨node, held⟩ := Option.isSome_iff_exists.1 file
          obtain ⟨held, file⟩ := (file?_eq_some_iff d _ node).1 held
          exact ⟨(name, node), (children name node).2 held, kept, .inl ⟨file, rfl⟩⟩
        · -- The way goes on below the name, which therefore is that of a directory.
          obtain ⟨next, more, rfl⟩ := List.exists_cons_of_ne_nil uncovers.below
          obtain ⟨mode, modified, held⟩ := ((uncovers_cons ..).1 uncovers).1
          exact ⟨(name, _), (children name _).2 held, kept, .inr ⟨rfl, (deeper name _ held rfl).2
            ⟨_, Nat.le_of_succ_le_succ short, uncovers, rfl⟩⟩⟩

theorem walkedAt_starts (excludes : Excludes) (depth : Nat) {folder path : Path} {place : Location} {node : Node}
    (found : d.find folder = .ok (place, node)) {entry : String × Node} (inside : entry ∈ d.row place)
    (walked : path ∈ d.walkedAt excludes depth folder entry) :
    ∃ rest, path = folder.joins (entry.1 :: rest) ∧ ∀ name ∈ entry.1 :: rest, Path.IsName name := by
  obtain ⟨held, named⟩ := mem_row sound inside
  rcases ((mem_walkedAt_iff ..).1 walked).2 with ⟨-, rfl⟩ | ⟨solid, deeper⟩
  · exact ⟨[], rfl, by simpa using named⟩
  · obtain ⟨rest, -, uncovers, rfl⟩ :=
      (mem_walked_uncovers sound excludes depth _ path _ (known_below sound found held solid)).1 deeper
    exact ⟨rest, rfl, List.forall_mem_cons.2 ⟨named, uncovers.named sound⟩⟩

theorem walked_sorted (excludes : Excludes) (depth : Nat) (folder : Path) :
    (d.walked excludes depth folder).Pairwise fun first second => first.order second = .lt := by
  induction depth generalizing folder with
  | zero => exact .nil
  | succ depth ih =>
    rw [walked_succ]
    cases listed : d.list folder with
    | error problem => exact .nil
    | ok entries =>
      obtain ⟨place, mode, modified, found, rfl⟩ := list_eq_ok listed
      simp only
      rw [List.pairwise_flatMap]
      constructor
      · intro entry _
        unfold walkedAt
        simp only
        split
        · exact .nil
        · split
          · exact List.pairwise_singleton _ _
          · exact ih _
          · exact .nil
      · refine (row_sorted sound place).imp_of_mem ?_
        intro first second inside inside' less path walked path' walked'
        obtain ⟨rest, rfl, named⟩ := walkedAt_starts sound excludes depth found inside walked
        obtain ⟨rest', rfl, named'⟩ := walkedAt_starts sound excludes depth found inside' walked'
        exact Path.order_joins folder less named named'

end

/-- The files of a directory stand in the strict order of their paths, and are all that is uncovered below it. -/
theorem exploration_exact {d : Disk} (sound : d.Sound) (excludes : Excludes) (folder : Path) :
    (d.files excludes folder).Pairwise (fun first second => first.order second = .lt) ∧
      ∀ path, path ∈ d.files excludes folder ↔
        ∃ place mode modified names, d.find folder = .ok (place, .folder mode modified) ∧
          d.Uncovers excludes folder place names ∧ path = folder.joins names := by
  unfold files explore
  split
  next opened =>
    refine ⟨walked_sorted sound excludes _ folder, fun path => ?_⟩
    obtain ⟨place, mode, modified, found⟩ := find_of_isFolder opened
    have known : ∀ there, d.find folder = .ok there -> there.1 = place := by
      intro there reached
      cases found.symm.trans reached
      rfl
    refine (mem_walked_uncovers sound excludes _ folder path place known).trans ?_
    constructor
    · rintro ⟨names, -, uncovers, same⟩
      exact ⟨place, mode, modified, names, found, uncovers, same⟩
    · rintro ⟨place', mode', modified', names, found', uncovers, same⟩
      cases found.symm.trans found'
      obtain ⟨node, held⟩ := Option.isSome_iff_exists.1 uncovers.file
      -- The walk goes down as far as there are nodes, which is far enough for every place.
      have short := sound.length_lt_count _ node ((file?_eq_some_iff d _ node).1 held).1
      rw [List.length_append] at short
      exact ⟨names, by omega, uncovers, same⟩
  next closed =>
    refine ⟨.nil, fun path => ⟨fun impossible => (nomatch impossible), ?_⟩⟩
    rintro ⟨place, mode, modified, names, found, -⟩
    simp [isFolder, found, Node.isFolder] at closed

def linked : Disk where
  tree := .row "" (some (.folder 0o755 ⟨1, 0⟩)) (.row "_way" (some (.link "a-b")) .bare
    (.row "a-b" (some (.folder 0o755 ⟨1, 0⟩))
      (.row "shut" (some (.folder 0o000 ⟨1, 0⟩)) (.row "y.ts" (some (.file .empty 0o644 ⟨1, 0⟩)) .bare .bare)
        (.row "_x.ts" (some (.file .empty 0o644 ⟨1, 0⟩)) .bare
          (.row "x.ts" (some (.file .empty 0o644 ⟨1, 0⟩)) .bare .bare))) .bare)) .bare
  home := []
  privileged := false
  now := ⟨2, 0⟩

theorem linked_explored : linked.Sound ∧ ⟨"/_way/x.ts"⟩ ∈ linked.files .usual ⟨"/_way"⟩ ∧
    linked.isFile ⟨"/_way/_x.ts"⟩ = true ∧ ⟨"/_way/_x.ts"⟩ ∉ linked.files .usual ⟨"/_way"⟩ ∧
    (linked.files .usual ⟨"/_way"⟩).Pairwise fun first second => first.order second = .lt := by
  have sound : linked.Sound := by decide +kernel
  obtain ⟨sorted, uncovered⟩ := exploration_exact sound .usual ⟨"/_way"⟩
  have computed : linked.find ⟨"/_way"⟩ = .ok (["a-b"], .folder 0o755 ⟨1, 0⟩) ∧ linked.lists ⟨"/_way"⟩ = true ∧
      Excludes.usual.leavesOut "x.ts" ⟨"/_way/x.ts"⟩ = false ∧ (linked.file? ["a-b", "x.ts"]).isSome = true ∧
      linked.isFile ⟨"/_way/_x.ts"⟩ = true := by
    decide +kernel
  obtain ⟨found, lists, kept, file, there⟩ := computed
  have uncovers : linked.Uncovers .usual ⟨"/_way"⟩ ["a-b"] ["x.ts"] :=
    (uncovers_cons ..).2
      ⟨⟨_, _, find_node _ _ _ _ found⟩, lists, Excludes.leavesOut_eq_false_iff.1 kept, .inl ⟨file, rfl⟩⟩
  refine ⟨sound, (uncovered _).2 ⟨_, _, _, _, found, uncovers, rfl⟩, there, fun listed => ?_, sorted⟩
  obtain ⟨place, mode, modified, names, -, uncovers, same⟩ := (uncovered _).1 listed
  -- The only names that lead to it are its own, and they start with an underscore.
  have joined : (⟨"/_way/_x.ts"⟩ : Path) = (⟨"/_way"⟩ : Path).joins ["_x.ts"] := by decide +kernel
  have named : ∀ name ∈ ["_x.ts"], Path.IsName name := by decide +kernel
  obtain rfl := Path.joins_injective (by decide) (uncovers.named sound) named (same.symm.trans joined)
  exact (uncovers.through [] "_x.ts" [] rfl).2.2 (.underscore "x.ts".toList rfl rfl)

end Disk

end Stowage

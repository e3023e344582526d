import Mathlib.Data.List.Nodup
import Mathlib.Data.List.Perm.Subperm
import Stowage.Proofs.Disk.Spelling
import Stowage.Relocation.Carrier

set_option autoImplicit false

namespace Stowage

theorem Path.join_append (base : Path) (front : String) (filled : front ≠ "") :
    ∃ before, ∀ rest, base.join ⟨front ++ rest⟩ = ⟨before ++ rest⟩ := by
  have first : ∀ rest : String, (Path.mk (front ++ rest)).isAbsolute = (Path.mk front).isAbsolute := by
    intro rest
    cases chars : front.toList with
    | nil => exact absurd (String.toList_inj.1 chars) filled
    | cons c more => simp [Path.isAbsolute, chars]
  by_cases rooted : (Path.mk front).isAbsolute = true
  · refine ⟨front, fun rest => ?_⟩
    simp [Path.join, first, rooted]
  cases ending : base.text.toList.getLast? with
  | none =>
    refine ⟨front, fun rest => ?_⟩
    simp [Path.join, first, rooted, ending]
  | some last =>
    by_cases cut : last = Path.separator
    · refine ⟨base.text ++ front, fun rest => ?_⟩
      simp [Path.join, first, rooted, ending, cut, String.append_assoc]
    · refine ⟨base.text ++ "/" ++ front, fun rest => ?_⟩
      simp [Path.join, first, rooted, ending, cut, String.append_assoc]

theorem Path.separator_not_mem_repr (number : Nat) : Path.separator ∉ number.repr.toList := by
  intro inside
  rw [Nat.toList_repr] at inside
  have digit := Nat.isDigit_of_mem_toDigits (by decide) (by decide) inside
  exact absurd digit (by decide)

def Path.ending (p : Path) : String := (p.extension?.map ("." ++ ·)).getD ""

theorem Path.separator_not_mem_ending (p : Path) : separator ∉ p.ending.toList := by
  unfold ending
  cases ends : p.extension? with
  | none => simp
  | some extension =>
    have free := separator_not_mem_extension p extension ends
    simp [separator] at free ⊢
    exact free

theorem eq_of_digits {number other : Nat} (same : number.repr.toList = other.repr.toList) : number = other := by
  rw [Nat.toList_repr, Nat.toList_repr] at same
  have numbers := congrArg (fun digits => Nat.ofDigitChars 10 digits 0) same
  simpa only [Nat.ofDigitChars_ten_toDigits] using numbers

namespace Carrier

theorem siblingName_parts (carrier : Carrier) (path : Path) (label : String) (number : Nat) :
    carrier.siblingName path label number = path.stem?.getD "" ++ "." ++ label ++ "." ++ carrier.stamp ++
      (if number = 0 then "" else "_" ++ toString number) ++ path.ending := by
  unfold siblingName Path.ending
  cases path.extension? <;> rfl

theorem siblingAt_steps (carrier : Carrier) (path : Path) (label : String) :
    ∃ front last ending rooted, ∀ number, 0 < number ->
      (carrier.siblingAt path label number).steps =
          front ++ [.enter (String.ofList (last ++ '_' :: (number.repr.toList ++ ending)))] ∧
        (carrier.siblingAt path label number).isAbsolute = rooted := by
  -- The number stands between a start and an end that are the same for all siblings.
  let front := path.stem?.getD "" ++ "." ++ label ++ "." ++ carrier.stamp
  have filled : front ≠ "" := by
    intro empty
    simpa [front] using congrArg String.toList empty
  obtain ⟨before, joined⟩ := Path.join_append (path.parent?.getD ⟨"."⟩) front filled
  obtain ⟨way, last, rooted, steps⟩ := Path.steps_tail before.toList '_' (by decide) (by decide)
  refine ⟨way, last, path.ending.toList, rooted, fun number later => ?_⟩
  have text : carrier.siblingAt path label number =
      ⟨String.ofList (before.toList ++ '_' :: (number.repr.toList ++ path.ending.toList))⟩ := by
    have named : carrier.siblingName path label number = front ++ ("_" ++ number.repr ++ path.ending) := by
      rw [siblingName_parts, if_neg (Nat.pos_iff_ne_zero.1 later), String.append_assoc]
      rfl
    rw [siblingAt, named, joined]
    congr 1
    apply String.toList_inj.1
    simp
  rw [text]
  apply steps
  simp only [List.mem_append, not_or]
  exact ⟨Path.separator_not_mem_repr number, path.separator_not_mem_ending⟩

theorem freeNumber_cases (carrier : Carrier) (d : Disk) (path : Path) (label : String)
    (more number : Nat) :
    (d.isThere (carrier.siblingAt path label (carrier.freeNumber d path label more number)) = false ∧
      carrier.freeNumber d path label more number < number + more) ∨
      ∀ step < more, d.isThere (carrier.siblingAt path label (number + step)) = true := by
  induction more generalizing number with
  | zero => exact .inr fun step impossible => absurd impossible (Nat.not_lt_zero step)
  | succ more ih =>
    unfold freeNumber
    split
    next there =>
      rcases ih (number + 1) with ⟨free, below⟩ | full
      · exact .inl ⟨free, by omega⟩
      · refine .inr fun step below => ?_
        cases step with
        | zero => exact there
        | succ step =>
          have later := full step (by omega)
          rwa [Nat.add_assoc, Nat.add_comm 1 step] at later
    next missing => exact .inl ⟨by simpa using missing, by omega⟩

theorem freeNumber_below (carrier : Carrier) (d : Disk) (path : Path) (label : String) (more number step : Nat)
    (later : number ≤ step) (below : step < carrier.freeNumber d path label more number) :
    d.isThere (carrier.siblingAt path label step) = true := by
  induction more generalizing number with
  | zero => exact absurd below (Nat.not_lt.2 later)
  | succ more ih =>
    unfold freeNumber at below
    split at below
    next there =>
      rcases Nat.eq_or_lt_of_le later with rfl | later
      · exact there
      · exact ih (number + 1) later below
    · exact absurd below (Nat.not_lt.2 later)

theorem not_all_taken (carrier : Carrier) (d : Disk) (sound : d.Sound) (path : Path) (label : String) :
    ¬ ∀ step < d.nodes.length + 1, d.isThere (carrier.siblingAt path label step) = true := by
  intro full
  obtain ⟨front, last, ending, rooted, steps⟩ := carrier.siblingAt_steps path label
  let nameOf (number : Nat) := String.ofList (last ++ '_' :: (number.repr.toList ++ ending))
  -- All siblings are looked for in the directory that the way before their names leads to.
  have entries : ∀ number, 0 < number -> number < d.nodes.length + 1 -> ∃ mid folder entry,
      d.Leads .object Disk.linkLimit (if rooted then [] else d.home) front (.taken mid folder) ∧
        d.node? (mid ++ [nameOf number]) = some entry := by
    intro number later below
    obtain ⟨place, node, found⟩ := (d.isThere_iff _).1 (full number below)
    obtain ⟨-, leads⟩ := (Disk.find_leads_iff d _ place node).1 found
    obtain ⟨own, absolute⟩ := steps number later
    rw [own, absolute] at leads
    exact leads.entry_last
  have listed : ∀ place node, d.node? place = some node -> place ∈ d.nodes.map Prod.fst := fun place node found =>
    List.mem_map.2 ⟨_, d.mem_nodes_of_node? place node found, rfl⟩
  obtain ⟨mode, modified, root⟩ := sound.rooted
  have some : 0 < d.nodes.length := by
    rw [← List.length_map Prod.fst]
    exact List.length_pos_of_mem (listed [] _ root)
  obtain ⟨directory, folder, -, leads, -⟩ := entries 1 Nat.one_pos (by omega)
  -- The root and the numbered siblings are one node too many.
  let taken := [] :: (List.range d.nodes.length).map fun step => directory ++ [nameOf (step + 1)]
  have within : taken ⊆ d.nodes.map Prod.fst := by
    intro place member
    rcases List.mem_cons.1 member with rfl | numbered
    · exact listed [] _ root
    · obtain ⟨step, below, rfl⟩ := List.mem_map.1 numbered
      obtain ⟨mid, _, entry, leads', found⟩ := entries (step + 1) (Nat.succ_pos step) (by simpa using below)
      cases leads.unique leads'
      exact listed _ entry found
  have distinct : taken.Nodup := by
    refine List.nodup_cons.2 ⟨by simp, List.Nodup.map_on ?_ List.nodup_range⟩
    intro step _ other _ same
    have names := List.append_cancel_left same
    simp only [nameOf, List.cons.injEq, and_true, String.ofList_inj, List.append_cancel_left_eq, true_and,
      List.append_cancel_right_eq] at names
    exact Nat.succ.inj (eq_of_digits names)
  have short := (distinct.subperm within).length_le
  simp only [taken, List.length_cons, List.length_map, List.length_range] at short
  omega

theorem sibling_first (carrier : Carrier) (d : Disk) (sound : d.Sound) (path : Path) (label : String) :
    ∃ number ≤ d.nodes.length, carrier.sibling d path label = carrier.siblingAt path label number ∧
      d.isThere (carrier.siblingAt path label number) = false ∧
      ∀ earlier < number, d.isThere (carrier.siblingAt path label earlier) = true := by
  rcases carrier.freeNumber_cases d path label (d.nodes.length + 1) 0 with ⟨free, below⟩ | full
  · exact ⟨_, by omega, rfl, free, fun earlier before =>
      carrier.freeNumber_below d path label _ 0 earlier (Nat.zero_le _) before⟩
  · simp only [Nat.zero_add] at full
    exact absurd full (carrier.not_all_taken d sound path label)

theorem sibling_free (carrier : Carrier) (d : Disk) (sound : d.Sound) (path : Path) (label : String) :
    d.isThere (carrier.sibling d path label) = false := by
  obtain ⟨number, -, own, free, -⟩ := carrier.sibling_first d sound path label
  rw [own, free]

theorem sibling_eq_iff (carrier : Carrier) (d : Disk) (sound : d.Sound) (path : Path) (label : String)
    (other : Path) : carrier.sibling d path label = other ↔ d.isThere other = false ∧
      ∃ number, other = carrier.siblingAt path label number ∧
        ∀ earlier < number, d.isThere (carrier.siblingAt path label earlier) = true := by
  obtain ⟨first, -, own, free, taken⟩ := carrier.sibling_first d sound path label
  constructor
  · rintro rfl
    exact ⟨own ▸ free, first, own, taken⟩
  · rintro ⟨free', number, rfl, taken'⟩
    -- Of two free numbers neither comes before the other.
    have same : first = number := by
      rcases Nat.lt_trichotomy first number with before | same | after
      · cases free.symm.trans (taken' first before)
      · exact same
      · cases free'.symm.trans (taken number after)
    rw [own, same]

end Carrier

end Stowage

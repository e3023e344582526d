import Mathlib.Data.List.Basic
import Stowage.Proofs.Disk.Sound
import Stowage.Proofs.Path.Parents

set_option autoImplicit false

namespace Stowage

namespace Disk

def FolderAt (d : Disk) (place : Location) : Prop :=
  ∃ mode modified, d.node? place = some (.folder mode modified)

theorem Sound.node?_above {d : Disk} (sound : d.Sound) (place : Location) (names : List String)
    (node : Node) (found : d.node? (place ++ names) = some node) :
    ∃ above, d.node? place = some above := by
  cases held : d.node? place with
  | some above => exact ⟨above, rfl⟩
  | none =>
    by_cases filled : names = []
    · rw [filled, List.append_nil, held] at found
      cases found
    · rw [sound.node?_below place names (by simp [held]) filled] at found
      cases found

theorem Sound.folderAt_above {d : Disk} (sound : d.Sound) (place : Location) (names : List String)
    (node : Node) (filled : names ≠ []) (found : d.node? (place ++ names) = some node) :
    d.FolderAt place := by
  by_contra closed
  rw [sound.node?_below place names (fun mode modified folder => closed ⟨mode, modified, folder⟩) filled]
    at found
  cases found

theorem walkSteps_present (d : Disk) (regular : d.Regular) (aim : Aim) (here : Location)
    (steps : List Step)
    (taken : ∀ front, front <+: steps -> ∃ node, d.node? (front.foldl Location.follow here) = some node)
    (pass : Location -> List Step -> Except DiskError Spot) :
    d.walkSteps aim pass here steps ≠ .error .notFound := by
  induction steps generalizing here with
  | nil =>
    obtain ⟨node, found⟩ := taken [] List.prefix_rfl
    rw [List.foldl_nil] at found
    simp [walkSteps, found]
  | cons step rest ih =>
    obtain ⟨above, held⟩ := taken [] List.nil_prefix
    rw [List.foldl_nil] at held
    have onward : ∀ there, here.follow step = there -> d.walkSteps aim pass there rest ≠ .error .notFound := by
      rintro there rfl
      exact ih _ fun front within => taken (step :: front) (List.cons_prefix_cons.2 ⟨rfl, within⟩)
    -- Of the ways to fail only a node that is not there fails so, and each prefix of the steps has one.
    rw [walkSteps.eq_def]
    simp only [held]
    cases above with
    | file | link => simp
    | folder mode modified =>
      simp only
      split
      · simp
      · cases step with
        | folder | stay | up => exact onward _ rfl
        | enter name =>
          simp only
          split
          · simp
          · split
            · simp
            · obtain ⟨next, held'⟩ := taken [.enter name] (List.cons_prefix_cons.2 ⟨rfl, List.nil_prefix⟩)
              change d.node? (here ++ [name]) = some next at held'
              rw [held']
              cases next with
              | link target => exact absurd held' (regular.linkless _ target)
              | folder | file => exact onward _ rfl

theorem Leads.passes {d : Disk} (regular : d.Regular) {aim : Aim} {links : Nat} {here : Location}
    {steps : List Step} {spot : Spot} (leads : d.Leads aim links here steps spot) (front rest : List Step)
    (step : Step) (split : steps = front ++ step :: rest) : d.FolderAt (front.foldl Location.follow here) := by
  have opened : ∀ {here : Location} {step : Step}, d.Opens aim here step -> d.FolderAt here := by
    rintro here step ⟨mode, modified, folder, -⟩
    exact ⟨mode, modified, folder⟩
  -- Without links the places passed are told by the steps alone, and each but the last was opened as a folder.
  induction leads generalizing front with
  | stop => simp at split
  | linger lingers opens _ ih =>
    cases front with
    | nil => exact opened opens
    | cons first front =>
      obtain ⟨rfl, onward⟩ := List.cons.inj split
      rcases lingers with rfl | rfl <;> exact ih front onward
  | up opens _ ih =>
    cases front with
    | nil => exact opened opens
    | cons first front =>
      obtain ⟨rfl, onward⟩ := List.cons.inj split
      exact ih front onward
  | free opens =>
    cases front with
    | nil => exact opened opens
    | cons first front => simp at split
  | halt _ _ found _ | follow _ _ _ found _ _ _ => exact absurd found (regular.linkless _ _)
  | enter opens _ _ _ _ _ ih =>
    cases front with
    | nil => exact opened opens
    | cons first front =>
      obtain ⟨rfl, onward⟩ := List.cons.inj split
      exact ih front onward

theorem node?_of_notFound (d : Disk) (regular : d.Regular) (p : Path) (cases : p.Plain ∨ p.Climbs)
    (missing : d.stat p = .error .notFound) : d.node? p.names = none := by
  by_contra present
  obtain ⟨node, found⟩ := Option.ne_none_iff_exists'.1 present
  have taken : ∀ place, place <+: p.names -> ∃ node, d.node? place = some node := by
    rintro place ⟨names, below⟩
    exact regular.node?_above place names node (by rw [below, found])
  have absolute : p.isAbsolute = true := by
    rcases cases with plain | climbs
    · exact plain.isAbsolute
    · exact Path.isAbsolute_of_components climbs.components
  have filled : p.text ≠ "" := by
    intro empty
    simp [Path.isAbsolute, empty] at absolute
  -- Every folder above a node is there, so that no step of the walk finds nothing.
  have reached : d.spot .object p ≠ .error .notFound := by
    unfold spot reach
    split
    next problem refused =>
      rintro ⟨⟩
      unfold refusal? at refused
      rw [if_neg filled] at refused
      split at refused
      · cases refused
      · split at refused <;> cases refused
    · rw [absolute, if_pos rfl]
      exact d.walkSteps_present regular .object [] p.steps
        (fun front within => taken _ (Path.follow_prefix cases within)) _
  unfold stat at missing
  split at missing
  next problem failed =>
    cases missing
    unfold find at failed
    split at failed
    next problem reached' =>
      cases failed
      exact reached reached'
    next place reached' =>
      obtain ⟨node, there⟩ := taken _ (Path.place_prefix_names cases d.home)
      rcases spot_place d regular .object p _ reached' with ⟨other, impossible, -⟩ | ⟨_, _, _, _, _, none, _⟩
      · cases impossible
      · rw [there] at none
        cases none
    · cases failed
  · cases missing
  · cases missing
  next place target found =>
    exact absurd (find_node d p _ _ found) (regular.linkless _ target)

theorem names_of_find (d : Disk) (regular : d.Regular) (p : Path) (place : Location) (node : Node)
    (found : d.find p = .ok (place, node)) :
    (p.Plain -> d.node? p.names = some node) ∧ (p.Climbs -> d.FolderAt p.names) := by
  constructor
  · intro plain
    rw [plain.names d.home]
    exact (find_place d regular p place node found).2
  · intro climbs
    obtain ⟨-, leads⟩ := (find_leads_iff d p place node).1 found
    have absolute := Path.isAbsolute_of_components climbs.components
    rw [absolute, if_pos rfl] at leads
    have member : .up ∈ p.steps := by
      rw [Path.up_mem_steps_iff, climbs.components]
      simp
    obtain ⟨front, rest, split⟩ := List.append_of_mem member
    have passed := leads.passes regular front rest .up split
    -- Before the step up, all names in the path were entered.
    have stepped := p.stepped_components
    rw [split, List.filterMap_append, climbs.components, List.cons_append,
      List.filter_cons_of_neg (by simp [Path.leadsOn]), List.filter_append, Path.filter_names] at stepped
    have entered := (List.append_cons_inj_of_notMem (by simp) (by simp)).1 stepped.symm
    rw [Path.follow_component, ← entered.1, Path.enter_names] at passed
    exact passed

theorem contents_of_notFound (d : Disk) (regular : d.Regular) (p : Path) (plain : p.Plain)
    (missing : d.stat p = .error .notFound) (content : ByteArray) :
    d.content? (p.place d.home) ≠ some content := by
  intro held
  obtain ⟨mode, modified, node⟩ := (content?_eq_some_iff d _ content).1 held
  rw [← plain.names, node?_of_notFound d regular p (.inl plain) missing] at node
  cases node

end Disk

end Stowage

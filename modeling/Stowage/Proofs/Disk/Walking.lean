import Stowage.Disk.Change

/-!
Where walks end. `Leads` says, step by step, how a walk comes to a spot; what holds of all walks is
shown by induction on it.
-/

set_option autoImplicit false

namespace Stowage

theorem Except.eq_ok_of_toOption {Problem Value : Type} {outcome : Except Problem Value} {value : Value}
    (known : outcome.toOption = some value) : outcome = .ok value := by
  cases outcome with
  | error problem => cases known
  | ok other =>
    cases known
    rfl

instance : DecidableEq Node
  | .folder mode modified, .folder mode' modified' =>
    decidable_of_iff (mode = mode' ∧ modified = modified') (by simp)
  | .file content mode modified, .file content' mode' modified' =>
    have := ByteArray.instDecidableEq content content'
    decidable_of_iff (content = content' ∧ mode = mode' ∧ modified = modified') (by simp)
  | .link target, .link target' => decidable_of_iff (target = target') (by simp)
  | .folder _ _, .file _ _ _ | .folder _ _, .link _ | .file _ _ _, .folder _ _
  | .file _ _ _, .link _ | .link _, .folder _ _ | .link _, .file _ _ _ => .isFalse (by simp)

deriving instance DecidableEq for Spot

def Node.Alike : Node -> Node -> Prop
  | .folder mode _, .folder other _ => mode = other
  | first, second => first = second

theorem Node.Alike.refl (node : Node) : node.Alike node := by
  cases node <;> simp [Node.Alike]

theorem Node.Alike.folder {mode : Nat} {modified : Instant} {node : Node}
    (alike : Node.Alike (.folder mode modified) node) :
    ∃ other, node = .folder mode other := by
  cases node <;> simp_all [Node.Alike]

theorem Node.Alike.file {content : ByteArray} {mode : Nat} {modified : Instant} {node : Node}
    (alike : Node.Alike (.file content mode modified) node) :
    node = .file content mode modified := by
  cases node <;> simp_all [Node.Alike]

theorem Node.Alike.link {target : String} {node : Node} (alike : Node.Alike (.link target) node) :
    node = .link target := by
  cases node <;> simp_all [Node.Alike]

theorem Node.Alike.of_link {target : String} {node : Node}
    (alike : Node.Alike node (.link target)) : node = .link target := by
  cases node <;> simp_all [Node.Alike]

namespace Disk

def Opens (d : Disk) (aim : Aim) (here : Location) (step : Step) : Prop :=
  ∃ mode modified, d.node? here = some (.folder mode modified) ∧
    (aim.searches step = true -> d.allows searchBit mode = true)

/-- How a walk that passes at most `links` links comes to a spot. -/
inductive Leads (d : Disk) (aim : Aim) : Nat -> Location -> List Step -> Spot -> Prop
  | stop {links : Nat} {here : Location} {node : Node} (found : d.node? here = some node) :
    Leads d aim links here [] (.taken here node)
  | linger {links : Nat} {here : Location} {step : Step} {rest : List Step} {spot : Spot}
    (lingers : step = .folder ∨ step = .stay) (opens : d.Opens aim here step)
    (onward : Leads d aim links here rest spot) : Leads d aim links here (step :: rest) spot
  | up {links : Nat} {here : Location} {rest : List Step} {spot : Spot}
    (opens : d.Opens aim here .up) (onward : Leads d aim links here.folder rest spot) :
    Leads d aim links here (.up :: rest) spot
  | free {links : Nat} {here : Location} {name : String} (opens : d.Opens aim here (.enter name))
    (short : name.utf8ByteSize ≤ longestName) (missing : d.node? (here ++ [name]) = none) :
    Leads d aim links here [.enter name] (.free (here ++ [name]))
  | halt {links : Nat} {here : Location} {name target : String}
    (opens : d.Opens aim here (.enter name)) (short : name.utf8ByteSize ≤ longestName)
    (found : d.node? (here ++ [name]) = some (.link target)) (stops : aim.follows = false) :
    Leads d aim links here [.enter name] (.taken (here ++ [name]) (.link target))
  | follow {links : Nat} {here : Location} {name target : String} {rest : List Step} {spot : Spot}
    (opens : d.Opens aim here (.enter name)) (short : name.utf8ByteSize ≤ longestName)
    (wanted : ¬ (aim = .target ∧ rest = [.folder]))
    (found : d.node? (here ++ [name]) = some (.link target)) (follows : rest = [] -> aim.follows = true)
    (onward : Leads d aim links (if (Path.mk target).isAbsolute then [] else here)
      ((Path.mk target).steps ++ rest) spot) :
    Leads d aim (links + 1) here (.enter name :: rest) spot
  | enter {links : Nat} {here : Location} {name : String} {rest : List Step} {spot : Spot}
    {node : Node} (opens : d.Opens aim here (.enter name))
    (short : name.utf8ByteSize ≤ longestName) (wanted : ¬ (aim = .target ∧ rest = [.folder]))
    (found : d.node? (here ++ [name]) = some node) (real : ∀ target, node ≠ .link target)
    (onward : Leads d aim links (here ++ [name]) rest spot) :
    Leads d aim links here (.enter name :: rest) spot

theorem Leads.more {d : Disk} {aim : Aim} {links : Nat} {here : Location} {steps : List Step}
    {spot : Spot} (leads : d.Leads aim links here steps spot) :
    d.Leads aim (links + 1) here steps spot := by
  induction leads with
  | stop found => exact .stop found
  | linger lingers opens _ ih => exact .linger lingers opens ih
  | up opens _ ih => exact .up opens ih
  | free opens short missing => exact .free opens short missing
  | halt opens short found stops => exact .halt opens short found stops
  | follow opens short wanted found follows _ ih => exact .follow opens short wanted found follows ih
  | enter opens short wanted found real _ ih => exact .enter opens short wanted found real ih

theorem leads_of_walkSteps (d : Disk) (aim : Aim) (links : Nat)
    (pass : Location -> List Step -> Except DiskError Spot)
    (passes : ∀ here steps name spot, pass (if (Path.mk name).isAbsolute then [] else here)
      ((Path.mk name).steps ++ steps) = .ok spot ->
      ∃ fewer, links = fewer + 1 ∧ d.Leads aim fewer
        (if (Path.mk name).isAbsolute then [] else here) ((Path.mk name).steps ++ steps) spot)
    (here : Location) (steps : List Step) (spot : Spot)
    (walked : d.walkSteps aim pass here steps = .ok spot) : d.Leads aim links here steps spot := by
  -- The induction is on the steps left; a link is not one of them, and its walk is left to `pass`.
  induction steps generalizing here with
  | nil =>
    rw [walkSteps] at walked
    split at walked
    next found =>
      cases walked
      exact .stop found
    · cases walked
  | cons step rest ih =>
    rw [walkSteps.eq_def] at walked
    simp only at walked
    split at walked
    · cases walked
    next mode modified folder =>
      split at walked
      · cases walked
      next searched =>
        have opens : d.Opens aim here step := by
          refine ⟨mode, modified, folder, fun searches => ?_⟩
          simpa [searches] using searched
        cases step with
        | folder => exact .linger (.inl rfl) opens (ih here walked)
        | stay => exact .linger (.inr rfl) opens (ih here walked)
        | up => exact .up opens (ih here.folder walked)
        | enter name =>
          simp only at walked
          split at walked
          · cases walked
          next wanted =>
            replace wanted : ¬ (aim = .target ∧ rest = [.folder]) := by simpa using wanted
            split at walked
            · cases walked
            next short =>
              replace short : name.utf8ByteSize ≤ longestName := Nat.le_of_not_lt short
              split at walked
              next missing =>
                split at walked
                next last =>
                  cases walked
                  subst last
                  exact .free opens short missing
                · cases walked
              next target found =>
                split at walked
                next halts =>
                  cases walked
                  simp only [Bool.and_eq_true, decide_eq_true_eq, Bool.not_eq_true'] at halts
                  obtain ⟨rfl, stops⟩ := halts
                  exact .halt opens short found stops
                next goes =>
                  have follows : rest = [] -> aim.follows = true := by
                    intro last
                    simpa [last] using goes
                  obtain ⟨fewer, rfl, onward⟩ := passes here rest target spot walked
                  exact .follow opens short wanted found follows onward
              next node real found => exact .enter opens short wanted found real (ih _ walked)
    · cases walked

theorem leads_of_walk (d : Disk) (aim : Aim) (links : Nat) (here : Location) (steps : List Step)
    (spot : Spot) (walked : d.walk aim links here steps = .ok spot) :
    d.Leads aim links here steps spot := by
  induction links generalizing here steps spot with
  | zero =>
    refine leads_of_walkSteps d aim 0 _ ?_ here steps spot walked
    intro here steps name spot impossible
    cases impossible
  | succ links ih =>
    refine leads_of_walkSteps d aim (links + 1) _ ?_ here steps spot walked
    intro here steps name spot led
    exact ⟨links, rfl, ih _ _ _ led⟩

theorem walkSteps_of_leads (d : Disk) (aim : Aim) (links : Nat)
    (pass : Location -> List Step -> Except DiskError Spot)
    (passes : ∀ fewer here steps spot, links = fewer + 1 -> d.Leads aim fewer here steps spot ->
      pass here steps = .ok spot)
    (here : Location) (steps : List Step) (spot : Spot)
    (leads : d.Leads aim links here steps spot) : d.walkSteps aim pass here steps = .ok spot := by
  induction steps generalizing here with
  | nil =>
    -- Each rule fixes the branch that the walk takes; the walk is read again from what the rule asks.
    cases leads with
    | stop found => simp [walkSteps, found]
  | cons step rest ih =>
    cases leads with
    | linger lingers opens onward =>
      obtain ⟨mode, modified, folder, searched⟩ := opens
      have going := ih here onward
      rcases lingers with rfl | rfl <;> simp_all [walkSteps]
    | up opens onward =>
      obtain ⟨mode, modified, folder, searched⟩ := opens
      have going := ih here.folder onward
      simp_all [walkSteps]
    | free opens short missing =>
      obtain ⟨mode, modified, folder, searched⟩ := opens
      have fits := Nat.not_lt.mpr short
      simp_all [walkSteps, Aim.searches]
    | halt opens short found stops =>
      obtain ⟨mode, modified, folder, searched⟩ := opens
      have fits := Nat.not_lt.mpr short
      simp_all [walkSteps, Aim.searches]
    | follow opens short wanted found follows onward =>
      obtain ⟨mode, modified, folder, searched⟩ := opens
      have fits := Nat.not_lt.mpr short
      have going := passes _ _ _ _ rfl onward
      have wanted' : ¬ (aim = .target && rest = [.folder]) = true := by simpa using wanted
      rw [walkSteps]
      by_cases last : rest = []
      · subst last
        simpa [folder, searched rfl, found, fits, follows rfl] using going
      · simp [folder, searched rfl, found, going, fits, wanted', last]
    | @enter _ _ _ _ _ node opens short wanted found real onward =>
      obtain ⟨mode, modified, folder, searched⟩ := opens
      have fits := Nat.not_lt.mpr short
      have going := ih _ onward
      have wanted' : ¬ (aim = .target && rest = [.folder]) = true := by simpa using wanted
      rw [walkSteps]
      cases node with
      | link target => exact absurd rfl (real target)
      | folder | file => simp [folder, searched rfl, found, going, fits, wanted']

theorem walk_ok_iff (d : Disk) (aim : Aim) (links : Nat) (here : Location) (steps : List Step)
    (spot : Spot) :
    d.walk aim links here steps = .ok spot ↔ d.Leads aim links here steps spot := by
  constructor
  · exact leads_of_walk d aim links here steps spot
  · intro leads
    induction links generalizing here steps spot with
    | zero =>
      refine walkSteps_of_leads d aim 0 _ ?_ here steps spot leads
      intro fewer _ _ _ impossible
      cases impossible
    | succ links ih =>
      refine walkSteps_of_leads d aim (links + 1) _ ?_ here steps spot leads
      intro fewer here steps spot equal onward
      cases equal
      exact ih here steps spot onward

theorem spot_eq_ok_iff (d : Disk) (aim : Aim) (p : Path) (spot : Spot) :
    d.spot aim p = .ok spot ↔ refusal? aim p = none ∧
      d.Leads aim linkLimit (if p.isAbsolute then [] else d.home) p.steps spot := by
  rw [Disk.spot, reach, ← walk_ok_iff]
  cases refusal? aim p <;> simp

theorem entry_eq_ok_iff (d : Disk) (p : Path) (spot : Spot) :
    d.entry p = .ok spot ↔ refusal? .entry p = none ∧
      d.Leads .entry linkLimit (if p.isAbsolute then [] else d.home) p.withoutEnd.steps spot := by
  rw [Disk.entry, reach, ← walk_ok_iff]
  cases refusal? .entry p <;> simp

theorem find_eq_ok_iff (d : Disk) (p : Path) (place : Location) (node : Node) :
    d.find p = .ok (place, node) ↔ d.spot .object p = .ok (.taken place node) := by
  unfold find
  split <;> simp_all

theorem isThere_iff (d : Disk) (p : Path) : d.isThere p = true ↔ ∃ place node, d.find p = .ok (place, node) := by
  unfold isThere
  cases found : d.find p with
  | error => simp
  | ok held => exact ⟨fun _ => ⟨held.1, held.2, rfl⟩, fun _ => rfl⟩

theorem find_leads_iff (d : Disk) (p : Path) (place : Location) (node : Node) :
    d.find p = .ok (place, node) ↔ refusal? .object p = none ∧
      d.Leads .object linkLimit (if p.isAbsolute then [] else d.home) p.steps (.taken place node) := by
  rw [find_eq_ok_iff, spot_eq_ok_iff]

theorem Leads.found {d : Disk} {aim : Aim} {links : Nat} {here place : Location}
    {steps : List Step} {node : Node} (leads : d.Leads aim links here steps (.taken place node)) :
    d.node? place = some node := by
  generalize arrived : Spot.taken place node = spot at leads
  induction leads with
  | stop found =>
    cases arrived
    exact found
  | linger _ _ _ ih | up _ _ ih => exact ih arrived
  | free => cases arrived
  | halt _ _ found _ =>
    cases arrived
    exact found
  | follow _ _ _ _ _ _ ih | enter _ _ _ _ _ _ ih => exact ih arrived

theorem find_node (d : Disk) (p : Path) (place : Location) (node : Node)
    (found : d.find p = .ok (place, node)) : d.node? place = some node :=
  ((find_leads_iff d p place node).1 found).2.found

theorem Leads.short {d : Disk} {aim : Aim} {links : Nat} {here : Location} {steps : List Step} {spot : Spot}
    (leads : d.Leads aim links here steps spot) (name : String) (entered : .enter name ∈ steps) :
    name.utf8ByteSize ≤ longestName := by
  induction leads with
  | stop => cases entered
  | linger lingers _ _ ih =>
    rcases List.mem_cons.1 entered with rfl | later
    · rcases lingers with impossible | impossible <;> cases impossible
    · exact ih later
  | up _ _ ih => exact ih ((List.mem_cons.1 entered).resolve_left (by simp))
  | free _ short | halt _ short =>
    cases List.mem_singleton.1 entered
    exact short
  | follow _ short _ _ _ _ ih =>
    rcases List.mem_cons.1 entered with same | later
    · cases same
      exact short
    · exact ih (List.mem_append_right _ later)
  | enter _ short _ _ _ _ ih =>
    rcases List.mem_cons.1 entered with same | later
    · cases same
      exact short
    · exact ih later

theorem Leads.passable {d : Disk} {aim : Aim} {links : Nat} {here : Location}
    {steps : List Step} {spot : Spot} (leads : d.Leads aim links here steps spot) :
    (∃ node, spot = .taken here node) ∨ ∃ mode modified, d.node? here = some (.folder mode modified) := by
  cases leads with
  | stop found => exact .inl ⟨_, rfl⟩
  | linger _ opens _ | up opens _ | free opens _ _ | halt opens _ _ _ | follow opens _ _ _ _ _
  | enter opens _ _ _ _ _ =>
    obtain ⟨mode, modified, folder, -⟩ := opens
    exact .inr ⟨mode, modified, folder⟩

theorem Opens.alike {small big : Disk} {aim : Aim} {here : Location} {step : Step}
    (privileged : big.privileged = small.privileged)
    (kept : ∀ mode modified, small.node? here = some (.folder mode modified) ->
      ∃ other, big.node? here = some (.folder mode other))
    (opens : small.Opens aim here step) : big.Opens aim here step := by
  obtain ⟨mode, modified, folder, searched⟩ := opens
  obtain ⟨other, same⟩ := kept mode modified folder
  refine ⟨mode, other, same, fun searches => ?_⟩
  simpa [allows, privileged] using searched searches

theorem Leads.alike {small big : Disk} {aim : Aim} {links : Nat} {here goal : Location}
    {steps : List Step} {node : Node} (privileged : big.privileged = small.privileged)
    (kept : ∀ place other, small.node? place = some other ->
      other.isFile = false ∨ place = goal -> ∃ same, big.node? place = some same ∧ other.Alike same)
    (leads : small.Leads aim links here steps (.taken goal node)) :
    ∃ same, node.Alike same ∧ big.Leads aim links here steps (.taken goal same) := by
  have folders : ∀ place mode modified, small.node? place = some (.folder mode modified) ->
      ∃ other, big.node? place = some (.folder mode other) := by
    intro place mode modified folder
    obtain ⟨same, found, alike⟩ := kept place _ folder (.inl rfl)
    obtain ⟨other, rfl⟩ := alike.folder
    exact ⟨other, found⟩
  have links' : ∀ place target, small.node? place = some (.link target) ->
      big.node? place = some (.link target) := by
    intro place target link
    obtain ⟨same, found, alike⟩ := kept place _ link (.inl rfl)
    rw [found, alike.link]
  -- Only folders, links and the goal itself are met on the way, and these are what `kept` speaks of.
  generalize arrived : Spot.taken goal node = spot at leads
  induction leads with
  | stop found =>
    cases arrived
    obtain ⟨same, found', alike⟩ := kept _ _ found (.inr rfl)
    exact ⟨same, alike, .stop found'⟩
  | linger lingers opens _ ih =>
    obtain ⟨same, alike, onward⟩ := ih arrived
    exact ⟨same, alike, .linger lingers (opens.alike privileged (folders _)) onward⟩
  | up opens _ ih =>
    obtain ⟨same, alike, onward⟩ := ih arrived
    exact ⟨same, alike, .up (opens.alike privileged (folders _)) onward⟩
  | free => cases arrived
  | halt opens short found stops =>
    cases arrived
    exact ⟨_, .refl _, .halt (opens.alike privileged (folders _)) short (links' _ _ found) stops⟩
  | follow opens short wanted found follows _ ih =>
    obtain ⟨same, alike, onward⟩ := ih arrived
    exact ⟨same, alike, .follow (opens.alike privileged (folders _)) short wanted
      (links' _ _ found) follows onward⟩
  | enter opens short wanted found real onward ih =>
    obtain ⟨same, alike, onward'⟩ := ih arrived
    have opens' := opens.alike privileged (folders _)
    rcases onward.passable with ⟨last, stopped⟩ | ⟨mode, modified, folder⟩
    · -- The entered node is the goal itself.
      cases arrived.trans stopped
      obtain ⟨node', found', alike'⟩ := kept _ _ found (.inr rfl)
      refine ⟨same, alike, .enter opens' short wanted found' ?_ onward'⟩
      rintro target rfl
      exact real target alike'.of_link
    · obtain ⟨other, found'⟩ := folders _ _ _ folder
      exact ⟨same, alike, .enter opens' short wanted found' (by simp) onward'⟩

theorem Leads.retaken {d other : Disk} {aim aim' : Aim} {links : Nat} {here : Location} {steps : List Step}
    {spot : Spot} (leads : d.Leads aim links here steps spot) (nodes : ∀ place, other.node? place = d.node? place)
    (opens : ∀ {here : Location} {step : Step}, d.Opens aim here step -> other.Opens aim' here step)
    (wants : aim' = .target -> aim = .target)
    (halts : ∀ place target, spot = .taken place (.link target) -> aim.follows = false -> aim'.follows = false)
    (follows : ∀ place target, d.node? place = some (.link target) -> aim.follows = true -> aim'.follows = true) :
    other.Leads aim' links here steps spot := by
  have wanted' : ∀ {rest : List Step}, ¬ (aim = .target ∧ rest = [.folder]) -> ¬ (aim' = .target ∧ rest = [.folder]) :=
    fun wanted same => wanted ⟨wants same.1, same.2⟩
  induction leads with
  | stop found => exact .stop ((nodes _).trans found)
  | linger lingers open' _ ih => exact .linger lingers (opens open') (ih halts)
  | up open' _ ih => exact .up (opens open') (ih halts)
  | free open' short missing => exact .free (opens open') short ((nodes _).trans missing)
  | halt open' short found stops =>
    exact .halt (opens open') short ((nodes _).trans found) (halts _ _ rfl stops)
  | follow open' short wanted found goes _ ih =>
    exact .follow (opens open') short (wanted' wanted) ((nodes _).trans found)
      (fun last => follows _ _ found (goes last)) (ih halts)
  | enter open' short wanted found real _ ih =>
    exact .enter (opens open') short (wanted' wanted) ((nodes _).trans found) real (ih halts)

theorem Leads.object {d : Disk} {aim : Aim} {links : Nat} {here : Location} {steps : List Step}
    {spot : Spot} (searched : aim ≠ .place) (leads : d.Leads aim links here steps spot)
    (real : ∀ place target, spot ≠ .taken place (.link target)) :
    d.Leads .object links here steps spot := by
  refine leads.retaken (fun _ => rfl) ?_ (by simp) (fun place target same => absurd same (real place target))
    fun _ _ _ _ => rfl
  rintro here step ⟨mode, modified, folder, allowed⟩
  refine ⟨mode, modified, folder, fun searches => allowed ?_⟩
  cases step <;> simp_all [Aim.searches]

theorem refusal?_eq (p : Path) (first second : Aim) (searched : first ≠ .place)
    (searched' : second ≠ .place) : refusal? first p = refusal? second p := by
  cases first <;> cases second <;> simp_all [refusal?]

end Disk

theorem Path.withoutEnd_eq (p : Path) (ended : p.endsInSeparator = false) : p.withoutEnd = p := by
  unfold Path.withoutEnd
  unfold Path.endsInSeparator at ended
  cases reversed : p.text.toList.reverse with
  | nil =>
    have empty : p.text.toList = [] := List.reverse_eq_nil_iff.1 reversed
    simp [Path.isAbsolute, empty]
  | cons last earlier =>
    have whole : p.text.toList = (last :: earlier).reverse := by rw [← reversed, List.reverse_reverse]
    have differs : (last == Path.separator) = false := by
      simpa [whole] using ended
    simp only [List.dropWhile_cons, differs, Bool.false_eq_true, if_false]
    rw [← whole, String.ofList_toList]

end Stowage

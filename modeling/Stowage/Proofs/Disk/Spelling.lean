import Stowage.Proofs.Disk.Reaching
import Stowage.Proofs.Path.Joints

set_option autoImplicit false

namespace Stowage

namespace Disk

variable {d : Disk}

theorem Leads.within {aim : Aim} {links more : Nat} {here : Location} {steps : List Step} {spot : Spot}
    (fewer : links ≤ more) (leads : d.Leads aim links here steps spot) : d.Leads aim more here steps spot := by
  induction fewer with
  | refl => exact leads
  | step _ ih => exact ih.more

theorem Leads.unique {aim : Aim} {links links' : Nat} {here : Location} {steps : List Step} {spot spot' : Spot}
    (leads : d.Leads aim links here steps spot) (leads' : d.Leads aim links' here steps spot') : spot = spot' := by
  have walked := (walk_ok_iff d aim _ here steps spot).2 (leads.within (Nat.le_max_left links links'))
  have walked' := (walk_ok_iff d aim _ here steps spot').2 (leads'.within (Nat.le_max_right links links'))
  exact Except.ok.inj (walked.symm.trans walked')

theorem Leads.append {links more : Nat} {here mid : Location} {first next : List Step} {node : Node} {spot : Spot}
    (leads : d.Leads .object links here first (.taken mid node)) (onward : d.Leads .object more mid next spot) :
    d.Leads .object (links + more) here (first ++ next) spot := by
  generalize reached : Spot.taken mid node = goal at leads
  induction leads with
  | stop found =>
    cases reached
    exact onward.within (Nat.le_add_left _ _)
  | linger lingers opens _ ih => exact .linger lingers opens (ih reached)
  | up opens _ ih => exact .up opens (ih reached)
  | free => cases reached
  | halt _ _ _ stops => cases stops
  | follow opens short wanted found follows _ ih =>
    -- The steps of the link stand before those that were put onto the way.
    have onward' := ih reached
    rw [Nat.add_right_comm]
    rw [List.append_assoc] at onward'
    exact .follow opens short (by simp) found (fun _ => rfl) onward'
  | enter opens short wanted found real _ ih => exact .enter opens short (by simp) found real (ih reached)

section

variable {aim : Aim} {links : Nat} {here : Location} {rest : List Step} {spot : Spot}

theorem Leads.opened {step : Step} (leads : d.Leads aim links here (step :: rest) spot) : d.Opens aim here step := by
  cases leads <;> assumption

theorem Leads.lingered {step : Step} (lingers : step = .folder ∨ step = .stay)
    (leads : d.Leads aim links here (step :: rest) spot) : d.Leads aim links here rest spot := by
  cases leads with
  | linger _ _ onward => exact onward
  | _ => rcases lingers with impossible | impossible <;> cases impossible

theorem Leads.climbed (leads : d.Leads aim links here (.up :: rest) spot) :
    d.Leads aim links here.folder rest spot := by
  cases leads with
  | up _ onward => exact onward
  | linger lingers => rcases lingers with impossible | impossible <;> cases impossible

theorem Leads.entered {name : String} {node : Node} (leads : d.Leads aim links here (.enter name :: rest) spot)
    (found : d.node? (here ++ [name]) = some node) (real : ∀ target, node ≠ .link target) :
    d.Leads aim links (here ++ [name]) rest spot := by
  cases leads with
  | linger lingers => rcases lingers with impossible | impossible <;> cases impossible
  | free _ _ missing => cases missing.symm.trans found
  | halt _ _ link | follow _ _ _ link => exact absurd (Option.some_inj.1 (found.symm.trans link)) (real _)
  | enter _ _ _ _ _ onward => exact onward

theorem Leads.followed {name target : String} (leads : d.Leads .object links here (.enter name :: rest) spot)
    (found : d.node? (here ++ [name]) = some (.link target)) :
    d.Leads .object links (if (Path.mk target).isAbsolute then [] else here) ((Path.mk target).steps ++ rest)
      spot := by
  cases leads with
  | linger lingers => rcases lingers with impossible | impossible <;> cases impossible
  | free _ _ missing => cases missing.symm.trans found
  | halt _ _ _ stops => cases stops
  | follow _ _ _ link _ onward =>
    cases found.symm.trans link
    exact onward.more
  | enter _ _ _ found' real => exact absurd (Option.some_inj.1 (found'.symm.trans found)) (real _)

end

theorem Leads.onward {links links' : Nat} {here mid : Location} {first next : List Step} {node : Node}
    {spot : Spot} (leads : d.Leads .object links here first (.taken mid node))
    (whole : d.Leads .object links' here (first ++ next) spot) : d.Leads .object links' mid next spot := by
  generalize reached : Spot.taken mid node = goal at leads
  induction leads with
  | stop found =>
    cases reached
    exact whole
  | linger lingers _ _ ih => exact ih (whole.lingered lingers) reached
  | up _ _ ih => exact ih whole.climbed reached
  | free => cases reached
  | halt _ _ _ stops => cases stops
  | follow _ _ _ found _ _ ih =>
    rw [List.append_assoc] at ih
    exact ih (whole.followed found) reached
  | enter _ _ _ found real _ ih => exact ih (whole.entered found real) reached

theorem Leads.bare {links : Nat} {here place : Location} {front : List Step} {node : Node}
    (leads : d.Leads .object links here (front ++ [.folder]) (.taken place node)) :
    d.Leads .object links here front (.taken place node) := by
  generalize reached : Spot.taken place node = goal at leads
  generalize whole : front ++ [Step.folder] = steps at leads
  -- By induction on the way, of which the separator stays the last step.
  induction leads generalizing front with
  | stop => simp at whole
  | linger lingers opens onward ih =>
    rcases List.append_eq_cons_iff.1 whole with ⟨rfl, last⟩ | ⟨rest, rfl, split⟩
    · cases last
      rwa [← reached] at onward ⊢
    · exact .linger lingers opens (ih reached split.symm)
  | up opens _ ih =>
    rcases List.append_eq_cons_iff.1 whole with ⟨-, last⟩ | ⟨rest, rfl, split⟩
    · cases last
    · exact .up opens (ih reached split.symm)
  | free => cases reached
  | halt _ _ _ stops => cases stops
  | follow opens short _ found _ _ ih =>
    rcases List.append_eq_cons_iff.1 whole with ⟨-, last⟩ | ⟨rest, rfl, split⟩
    · cases last
    · refine .follow opens short (by simp) found (fun _ => rfl) (ih reached ?_)
      rw [split, List.append_assoc]
  | enter opens short _ found real _ ih =>
    rcases List.append_eq_cons_iff.1 whole with ⟨-, last⟩ | ⟨rest, rfl, split⟩
    · cases last
    · exact .enter opens short (by simp) found real (ih reached split.symm)

theorem Leads.entry_last {links : Nat} {here place : Location} {front : List Step} {name : String} {node : Node}
    (leads : d.Leads .object links here (front ++ [.enter name]) (.taken place node)) :
    ∃ mid folder entry, d.Leads .object links here front (.taken mid folder) ∧
      d.node? (mid ++ [name]) = some entry := by
  generalize reached : Spot.taken place node = goal at leads
  generalize whole : front ++ [Step.enter name] = steps at leads
  -- By induction on the way, of which the name stays the last step.
  induction leads generalizing front with
  | stop => simp at whole
  | linger lingers opens onward ih =>
    rcases List.append_eq_cons_iff.1 whole with ⟨rfl, last⟩ | ⟨rest, rfl, split⟩
    · cases last
      rcases lingers with impossible | impossible <;> cases impossible
    · obtain ⟨mid, folder, entry, before, found⟩ := ih reached split.symm
      exact ⟨mid, folder, entry, .linger lingers opens before, found⟩
  | up opens _ ih =>
    rcases List.append_eq_cons_iff.1 whole with ⟨-, last⟩ | ⟨rest, rfl, split⟩
    · cases last
    · obtain ⟨mid, folder, entry, before, found⟩ := ih reached split.symm
      exact ⟨mid, folder, entry, .up opens before, found⟩
  | free => cases reached
  | halt _ _ _ stops => cases stops
  | follow opens short _ found _ _ ih =>
    rcases List.append_eq_cons_iff.1 whole with ⟨rfl, last⟩ | ⟨rest, rfl, split⟩
    · cases last
      obtain ⟨mode, modified, folder, -⟩ := opens
      exact ⟨_, _, _, .stop folder, found⟩
    · rw [split, ← List.append_assoc] at ih
      obtain ⟨mid, folder, entry, before, found'⟩ := ih reached rfl
      exact ⟨mid, folder, entry, .follow opens short (by simp) found (fun _ => rfl) before, found'⟩
  | enter opens short _ found real _ ih =>
    rcases List.append_eq_cons_iff.1 whole with ⟨rfl, last⟩ | ⟨rest, rfl, split⟩
    · cases last
      obtain ⟨mode, modified, folder, -⟩ := opens
      exact ⟨_, _, _, .stop folder, found⟩
    · obtain ⟨mid, folder, entry, before, found'⟩ := ih reached split.symm
      exact ⟨mid, folder, entry, .enter opens short (by simp) found real before, found'⟩

def start (d : Disk) (p : Path) : Location := if p.isAbsolute then [] else d.home

section

variable {p : Path} {place : Location} {node : Node} (found : d.find p = .ok (place, node))

include found

theorem filled_of_find : p.text ≠ "" := by
  intro empty
  obtain ⟨accepted, -⟩ := (find_leads_iff d p place node).1 found
  simp [refusal?, empty] at accepted

theorem leads_bare : d.Leads .object linkLimit (d.start p) p.bare (.taken place node) := by
  obtain ⟨-, leads⟩ := (find_leads_iff d p place node).1 found
  rw [Path.steps_eq] at leads
  cases ended : p.endsInSeparator with
  | true =>
    rw [if_pos ended] at leads
    exact leads.bare
  | false =>
    rw [if_neg (Bool.eq_false_iff.1 ended), List.append_nil] at leads
    exact leads

theorem leads_join {rest : Path} (relative : rest.isAbsolute = false) {goal : Location} {other : Node}
    (found' : d.find (p.join rest) = .ok (goal, other)) :
    d.Leads .object linkLimit place (Path.mk ("/" ++ rest.text)).steps (.taken goal other) := by
  have filled := filled_of_find found
  obtain ⟨-, whole⟩ := (find_leads_iff d _ goal other).1 found'
  rw [Path.isAbsolute_join_eq filled relative, Path.steps_join filled relative] at whole
  exact (leads_bare found).onward whole

theorem find_join {mode : Nat} {modified : Instant} (folder : node = .folder mode modified) {name : String}
    (named : Path.IsName name) {entry : Node} (held : d.node? (place ++ [name]) = some entry)
    (real : ∀ target, entry ≠ .link target) (accepted : refusal? .object (p.join ⟨name⟩) = none)
    (short : name.utf8ByteSize ≤ longestName) (searched : d.allows searchBit mode = true) :
    d.find (p.join ⟨name⟩) = .ok (place ++ [name], entry) := by
  subst folder
  have filled := filled_of_find found
  have leads := leads_bare found
  have opens : d.Opens .object place (.enter name) := ⟨mode, modified, leads.found, fun _ => searched⟩
  refine (find_leads_iff d _ _ entry).2 ⟨accepted, ?_⟩
  rw [Path.isAbsolute_join_eq filled (Path.isAbsolute_name named), Path.steps_join_name filled named]
  have last : d.Leads .object 0 place [.enter name] (.taken (place ++ [name]) entry) :=
    .enter opens short (by simp) held real (.stop held)
  exact leads.append last

theorem searched_of_find {mode : Nat} {modified : Instant} (folder : node = .folder mode modified) {name : String}
    (named : Path.IsName name) {goal : Location} {entry : Node}
    (found' : d.find (p.join ⟨name⟩) = .ok (goal, entry)) : d.allows searchBit mode = true := by
  subst folder
  have filled := filled_of_find found
  obtain ⟨-, whole⟩ := (find_leads_iff d _ goal entry).1 found'
  rw [Path.isAbsolute_join_eq filled (Path.isAbsolute_name named), Path.steps_join_name filled named] at whole
  obtain ⟨mode', modified', held, searched⟩ := ((leads_bare found).onward whole).opened
  cases (leads_bare found).found.symm.trans held
  exact searched rfl

end

theorem find_join_unique {p q rest : Path} {place : Location} {node node' : Node}
    (found : d.find p = .ok (place, node)) (found' : d.find q = .ok (place, node')) {there there' : Location × Node}
    (onward : d.find (p.join rest) = .ok there) (onward' : d.find (q.join rest) = .ok there') : there = there' := by
  cases rooted : rest.isAbsolute with
  | true =>
    rw [Path.join, if_pos rooted] at onward onward'
    exact Except.ok.inj (onward.symm.trans onward')
  | false =>
    have same := (leads_join found rooted onward).unique (leads_join found' rooted onward')
    cases there
    cases there'
    cases same
    rfl

theorem Leads.stayed {aim : Aim} {links : Nat} {here : Location} {steps : List Step} {spot : Spot}
    (leads : d.Leads aim links here steps spot) (still : steps.filterMap Step.component? = []) :
    d.Leads aim links here [] spot := by
  induction steps with
  | nil => exact leads
  | cons step rest ih =>
    have silent : step.component? = none := List.filterMap_eq_nil_iff.1 still step List.mem_cons_self
    have lingers : step = .folder ∨ step = .stay := by cases step <;> simp_all [Step.component?]
    rw [List.filterMap_cons_none silent] at still
    exact ih (leads.lingered lingers) still

theorem Leads.moved {aim : Aim} {links : Nat} {here : Location} {steps : List Step} {spot : Spot}
    (leads : d.Leads aim links here steps spot) (step : Step) {move : Component} (own : step.component? = some move)
    {moves : List Component} (first : steps.filterMap Step.component? = move :: moves) :
    ∃ rest, d.Leads aim links here (step :: rest) spot ∧ rest.filterMap Step.component? = moves := by
  induction steps with
  | nil => cases first
  | cons other rest ih =>
    cases known : other.component? with
    | none =>
      have lingers : other = .folder ∨ other = .stay := by cases other <;> simp_all [Step.component?]
      rw [List.filterMap_cons_none known] at first
      exact ih (leads.lingered lingers) first
    | some move' =>
      rw [List.filterMap_cons_some known] at first
      obtain ⟨rfl, onward⟩ := List.cons.inj first
      have alike := known.trans own.symm
      have same : other = step := by cases other <;> cases step <;> cases alike <;> first | rfl | cases known
      exact ⟨rest, same ▸ leads, onward⟩

theorem Leads.unique_of_moves {links links' : Nat} {here : Location} {steps steps' : List Step} {spot spot' : Spot}
    (leads : d.Leads .object links here steps spot) (leads' : d.Leads .object links' here steps' spot')
    (same : steps.filterMap Step.component? = steps'.filterMap Step.component?) : spot = spot' := by
  -- The first walk sets the moves; the second makes the same ones, with stays between them.
  induction leads generalizing steps' with
  | @stop links here node found =>
    have stopped : d.Leads .object links here [] (.taken here node) := .stop found
    exact stopped.unique (leads'.stayed same.symm)
  | linger lingers _ _ ih =>
    refine ih leads' ?_
    rw [← same]
    rcases lingers with rfl | rfl <;> rfl
  | up _ _ ih =>
    obtain ⟨rest, onward, alike⟩ := leads'.moved .up rfl same.symm
    exact ih onward.climbed alike.symm
  | @free _ _ name opens short missing =>
    obtain ⟨rest, onward, -⟩ := leads'.moved (.enter name) rfl same.symm
    cases onward with
    | linger lingers => rcases lingers with impossible | impossible <;> cases impossible
    | free => rfl
    | halt _ _ found | follow _ _ _ found | enter _ _ _ found => cases missing.symm.trans found
  | halt _ _ _ stops => cases stops
  | @follow _ _ name _ _ _ _ _ _ found _ _ ih =>
    obtain ⟨rest, onward, alike⟩ := leads'.moved (.enter name) rfl same.symm
    refine ih (onward.followed found) ?_
    rw [List.filterMap_append, List.filterMap_append, alike]
  | @enter _ _ name _ _ _ _ _ _ found real _ ih =>
    obtain ⟨rest, onward, alike⟩ := leads'.moved (.enter name) rfl same.symm
    exact ih (onward.entered found real) alike.symm

theorem find_same {p q : Path} (same : p.same q = true) {there there' : Location × Node}
    (found : d.find p = .ok there) (found' : d.find q = .ok there') : there = there' := by
  obtain ⟨-, leads⟩ := (find_leads_iff d p there.1 there.2).1 found
  obtain ⟨-, leads'⟩ := (find_leads_iff d q there'.1 there'.2).1 found'
  have spelt : p.components = q.components := eq_of_beq same
  rw [← Path.isAbsolute_congr spelt] at leads'
  have moves : p.steps.filterMap Step.component? = q.steps.filterMap Step.component? := by
    rw [Path.stepped_components, Path.stepped_components, spelt]
  cases there
  cases there'
  cases leads.unique_of_moves leads' moves
  rfl

theorem Leads.placed {links : Nat} {here : Location} {steps : List Step} {spot : Spot}
    (leads : d.Leads .object links here steps spot) : d.Leads .place links here steps spot := by
  refine leads.retaken (fun _ => rfl) ?_ (by simp) (fun _ _ _ stops => nomatch stops) fun _ _ _ _ => rfl
  rintro here step ⟨mode, modified, folder, allowed⟩
  refine ⟨mode, modified, folder, fun searches => allowed ?_⟩
  cases step <;> simp_all [Aim.searches]

theorem canonical_eq {p own : Path} (canonical : d.canonical p = .ok own) {place : Location} {node : Node}
    (found : d.find p = .ok (place, node)) : own = place.path := by
  obtain ⟨-, leads⟩ := (find_leads_iff d p place node).1 found
  unfold Disk.canonical at canonical
  split at canonical
  · cases canonical
  · cases canonical
  next location other reached =>
    -- Both walks follow every link, so that they come to one place.
    cases leads.placed.unique ((spot_eq_ok_iff d .place p _).1 reached).2
    split at canonical
    · cases canonical
    · exact (Except.ok.inj canonical).symm

theorem path_bare {place : Location} (named : ∀ name ∈ place, Path.IsName name) :
    place.path.bare = place.map .enter := by
  have chars : place.path.text.toList = Path.separator :: ("/".intercalate place).toList := by
    simp [Location.path, Path.separator]
  rw [Path.bare, chars, Path.stepsOf_cons_self]
  clear chars
  induction place with
  | nil => rfl
  | cons name rest ih =>
    obtain ⟨own, others⟩ := List.forall_mem_cons.1 named
    cases rest with
    | nil => simp [Path.stepsOf_name own]
    | cons next rest =>
      have split : ("/".intercalate (name :: next :: rest)).toList =
          name.toList ++ Path.separator :: ("/".intercalate (next :: rest)).toList := by
        rw [String.intercalate_cons_cons]
        simp [Path.separator]
      rw [split, Path.stepsOf_append, Path.stepsOf_name own, ih others]
      rfl

theorem Sound.names {d : Disk} (sound : d.Sound) {place : Location} {node : Node}
    (found : d.node? place = some node) : ∀ name ∈ place, Path.IsName name := by
  induction place using List.reverseRecOn generalizing node with
  | nil => simp
  | append_singleton above name ih =>
    obtain ⟨mode, modified, folder⟩ := sound.hung above name node found
    exact List.forall_mem_append.2 ⟨ih folder, by simpa using sound.named above name node found⟩

theorem Leads.downward {links : Nat} {here place : Location} {names : List String} {node : Node}
    (leads : d.Leads .object links here (names.map .enter) (.taken place node))
    (folders : ∀ front, front <+: names -> d.FolderAt (here ++ front)) : place = here ++ names := by
  induction names generalizing here with
  | nil =>
    cases leads
    exact (List.append_nil _).symm
  | cons name rest ih =>
    obtain ⟨mode, modified, folder⟩ := folders [name] (List.prefix_append [name] rest)
    rw [← List.singleton_append, ← List.append_assoc]
    refine ih (leads.entered folder (by simp)) fun front within => ?_
    rw [List.append_assoc]
    exact folders (name :: front) (List.cons_prefix_cons.2 ⟨rfl, within⟩)

theorem Sound.find_path {d : Disk} (sound : d.Sound) {place there : Location} {node : Node}
    (folder : d.FolderAt place) (found : d.find place.path = .ok (there, node)) : there = place := by
  obtain ⟨mode, modified, held⟩ := id folder
  have leads := leads_bare found
  have absolute : place.path.isAbsolute = true := by simp [Location.path, Path.isAbsolute, Path.separator]
  rw [path_bare (sound.names held), start, if_pos absolute] at leads
  exact leads.downward fun front within => sound.folderAt_prefix within folder

end Disk

end Stowage

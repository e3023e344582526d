import Stowage.Proofs.Disk.Effects
import Stowage.Proofs.Relocation.Deciding

set_option autoImplicit false

namespace Stowage

namespace Path

structure Normal (p : Path) : Prop where
  plain : p.Plain
  named : ∃ name, p.steps.getLast? = some (.enter name)

-- The limits are those of the system, for a path and for each name in it.
structure Usable (p : Path) : Prop where
  accepted : Disk.refusal? .object p = none
  short : ∀ name ∈ p.names, name.utf8ByteSize ≤ Disk.longestName

instance : DecidablePred Normal := fun p =>
  decidable_of_iff (p.Plain ∧ ∃ step ∈ p.steps.getLast?, step matches .enter _) <| by
    constructor
    · rintro ⟨plain, step, last, named⟩
      cases step <;> simp at named
      exact ⟨plain, _, last⟩
    · rintro ⟨plain, name, last⟩
      exact ⟨plain, _, last, rfl⟩

instance : DecidablePred Usable := fun p =>
  decidable_of_iff (Disk.refusal? .object p = none ∧ ∀ name ∈ p.names, name.utf8ByteSize ≤ Disk.longestName)
    ⟨fun ⟨accepted, short⟩ => ⟨accepted, short⟩, fun usable => ⟨usable.accepted, usable.short⟩⟩

def Descends (steps : List Step) : Prop :=
  ∀ step ∈ steps, step = .stay ∨ ∃ name, step = .enter name ∧ name.utf8ByteSize ≤ Disk.longestName

theorem Descends.within {steps : List Step} (descends : Descends steps) (here : Location) :
    here <+: steps.foldl Location.follow here := by
  induction steps generalizing here with
  | nil => exact List.prefix_rfl
  | cons step rest ih =>
    have onward := ih fun other inside => descends other (List.mem_cons_of_mem _ inside)
    rcases descends step List.mem_cons_self with rfl | ⟨name, rfl, -⟩
    · exact onward here
    · exact (List.prefix_append here [name]).trans (onward _)

theorem Normal.steps {p : Path} (normal : p.Normal) (usable : p.Usable) :
    ∃ front name, p.steps = front ++ [.enter name] ∧ Descends front ∧
      name.utf8ByteSize ≤ Disk.longestName := by
  obtain ⟨name, last⟩ := normal.named
  obtain ⟨front, split⟩ := List.getLast?_eq_some_iff.1 last
  have short : ∀ name, .enter name ∈ p.steps -> name.utf8ByteSize ≤ Disk.longestName := by
    intro name inside
    apply usable.short
    have stepped : .name name ∈ p.components.filter leadsOn := by
      rw [← stepped_components]
      exact List.mem_filterMap.2 ⟨_, inside, rfl⟩
    exact List.mem_filterMap.2 ⟨_, (List.mem_filter.1 stepped).1, rfl⟩
  refine ⟨front, name, split, fun step inside => ?_, short name (by simp [split])⟩
  have among : step ∈ p.steps := by simp [split, inside]
  cases step with
  | stay => exact .inl rfl
  | enter name => exact .inr ⟨name, rfl, short name among⟩
  | up =>
    obtain ⟨names, spelt⟩ := normal.plain
    have impossible := (p.up_mem_steps_iff).1 among
    simp [spelt] at impossible
  | folder =>
    -- A separator at the end would be the last step.
    exfalso
    unfold Path.steps at among last
    simp only at among last
    split at among
    next ended => simp [ended] at last
    · obtain ⟨segment, -, spelt⟩ := List.mem_map.1 among
      split_ifs at spelt

theorem Normal.place {p : Path} (normal : p.Normal) (home : Location) {front : List Step} {name : String}
    (split : p.steps = front ++ [.enter name]) :
    p.place home = front.foldl Location.follow [] ++ [name] := by
  rw [Path.place, normal.plain.isAbsolute, if_pos rfl, split, List.foldl_append]
  rfl

theorem Normal.ended {p : Path} (normal : p.Normal) : p.endsInSeparator = false := by
  obtain ⟨name, last⟩ := normal.named
  unfold Path.steps at last
  cases ended : p.endsInSeparator with
  | false => rfl
  | true => simp [ended] at last

theorem Normal.endsInName {p : Path} (normal : p.Normal) : Disk.endsInName p = true := by
  obtain ⟨name, last⟩ := normal.named
  rw [Disk.endsInName, withoutEnd_eq p normal.ended, last]

theorem Normal.filled {p : Path} (normal : p.Normal) (home : Location) : p.place home ≠ [] := by
  obtain ⟨name, last⟩ := normal.named
  obtain ⟨front, split⟩ := List.getLast?_eq_some_iff.1 last
  simp [normal.place home split]

theorem usable_of_prefix {p above : Path} (filled : above.text ≠ "") (within : above.text.toList <+: p.text.toList)
    (named : ∀ name ∈ above.names, name ∈ p.names) (usable : p.Usable) : above.Usable := by
  refine ⟨?_, fun name inside => usable.short name (named name inside)⟩
  have accepted := usable.accepted
  obtain ⟨rest, whole⟩ := within
  have text : p.text = above.text ++ String.ofList rest := by
    apply String.toList_inj.1
    simp [whole]
  unfold Disk.refusal? Disk.isTooLong at accepted ⊢
  split_ifs at accepted with empty zero long
  rw [if_neg filled, if_neg, if_neg]
  · rw [text, String.utf8ByteSize_append] at long
    simp only [Bool.and_eq_true, decide_eq_true_eq, not_and] at long ⊢
    exact fun searched above => long searched (by omega)
  · intro inside
    rw [← whole, List.contains_append, inside, Bool.true_or] at zero
    exact zero rfl

theorem Normal.parent {p : Path} (normal : p.Normal) (usable : p.Usable) (home : Location) :
    ∃ above, p.parent? = some above ∧ above.place home = (p.place home).dropLast ∧
      above.components.length + 1 = p.components.length ∧
      (above = ⟨"/"⟩ ∨ above.Normal ∧ above.Usable) := by
  have spelt := normal.plain.components home
  obtain ⟨front, name, own⟩ := (List.eq_nil_or_concat' _).resolve_left (normal.filled home)
  rw [own, List.map_append, List.map_singleton, ← List.cons_append] at spelt
  obtain ⟨above, known, components⟩ := parent?_of_name (by simp) spelt
  obtain ⟨plain, place, -⟩ := normal.plain.parent known home
  refine ⟨above, known, place, by simp [spelt, components], ?_⟩
  rcases List.eq_nil_or_concat' front with rfl | ⟨front, last, rfl⟩
  · exact .inl (parent_root known components)
  · have ends : above.components.getLast? = some (.name last) := by
      rw [components, List.map_append, ← List.cons_append]
      exact List.getLast?_concat
    have filled : above.text ≠ "" := by
      intro empty
      have absolute := plain.isAbsolute
      simp [isAbsolute, empty] at absolute
    refine .inr ⟨⟨plain, last, parent_last known ends⟩, usable_of_prefix filled (parent_text known) ?_ usable⟩
    intro name inside
    have within : above.components <+: p.components := by
      rw [components_parent known]
      exact List.dropLast_prefix _
    exact (within.filterMap _).subset inside

end Path

namespace Disk

def spotAt (d : Disk) (place : Location) : Spot :=
  match d.node? place with
  | some node => .taken place node
  | none => .free place

theorem mayChange_folder {d : Disk} (privileged : d.privileged = true) {place : Location}
    (folder : d.FolderAt place) : d.mayChange place = true := by
  obtain ⟨mode, modified, found⟩ := folder
  simp [mayChange, found, allows, privileged]

theorem Sound.folderAt_prefix {d : Disk} (sound : d.Sound) {place above : Location} (within : above <+: place)
    (folder : d.FolderAt place) : d.FolderAt above := by
  obtain ⟨names, rfl⟩ := within
  cases names with
  | nil => rwa [List.append_nil] at folder
  | cons name names =>
    obtain ⟨mode, modified, found⟩ := folder
    exact sound.folderAt_above above (name :: names) _ (by simp) found

section

variable {d : Disk} (regular : d.Regular) (privileged : d.privileged = true)

include regular privileged

theorem leads_down (aim : Aim) (links : Nat) (front : List Step) (name : String) (descends : Path.Descends front)
    (short : name.utf8ByteSize ≤ longestName) (here : Location)
    (above : d.FolderAt (front.foldl Location.follow here)) :
    d.Leads aim links here (front ++ [.enter name]) (d.spotAt (front.foldl Location.follow here ++ [name])) := by
  have opens : ∀ {here step}, d.FolderAt here -> d.Opens aim here step := by
    rintro here step ⟨mode, modified, folder⟩
    exact ⟨mode, modified, folder, fun _ => by simp [allows, privileged]⟩
  induction front generalizing here with
  | nil =>
    unfold spotAt
    split
    next node found =>
      refine .enter (opens above) short (by simp) found ?_ (.stop found)
      rintro target rfl
      exact regular.linkless _ target found
    next missing => exact .free (opens above) short missing
  | cons step front ih =>
    have later : Path.Descends front := fun other inside => descends other (List.mem_cons_of_mem _ inside)
    have folder := regular.toSound.folderAt_prefix (descends.within here) above
    rcases descends step List.mem_cons_self with rfl | ⟨next, rfl, fits⟩
    · exact .linger (.inr rfl) (opens folder) (ih later here above)
    · obtain ⟨mode, modified, found⟩ := regular.toSound.folderAt_prefix (later.within _) above
      refine .enter (opens folder) fits ?_ found (by simp) (ih later _ above)
      rintro ⟨-, impossible⟩
      simpa using congrArg List.getLast? impossible

omit regular in
theorem walkSteps_missing (aim : Aim) (pass : Location -> List Step -> Except DiskError Spot)
    (front : List Step) (name : String) (descends : Path.Descends front) (here : Location)
    (folder : d.FolderAt here)
    (clear : ∀ place, place <+: front.foldl Location.follow here -> d.node? place = none ∨ d.FolderAt place)
    (missing : d.node? (front.foldl Location.follow here) = none) :
    d.walkSteps aim pass here (front ++ [.enter name]) = .error .notFound := by
  induction front generalizing here with
  | nil =>
    obtain ⟨mode, modified, found⟩ := folder
    cases missing.symm.trans found
  | cons step front ih =>
    -- The last of the directories is missing, so that one of them is the first that is.
    have later : Path.Descends front := fun other inside => descends other (List.mem_cons_of_mem _ inside)
    obtain ⟨mode, modified, found⟩ := id folder
    rw [List.cons_append, walkSteps.eq_def]
    simp only [found]
    have onward := ih later
    rcases descends step List.mem_cons_self with rfl | ⟨next, rfl, fits⟩
    · simpa [allows, privileged] using onward here folder clear missing
    · have wanted : ¬ (aim = .target ∧ front ++ [.enter name] = [.folder]) := by
        rintro ⟨-, impossible⟩
        simpa using congrArg List.getLast? impossible
      have fits := Nat.not_lt.2 fits
      rcases clear _ (later.within (here ++ [next])) with none | below
      · simp [allows, privileged, none, wanted, fits]
      · obtain ⟨mode', modified', found'⟩ := id below
        simpa [allows, privileged, found', wanted, fits] using onward _ below clear missing

variable {p : Path} (normal : p.Normal) (usable : p.Usable)

include normal usable

theorem spot_reached (aim : Aim) (searched : aim ≠ .place) (above : d.FolderAt (p.place d.home).folder) :
    d.spot aim p = .ok (d.spotAt (p.place d.home)) := by
  obtain ⟨front, name, split, descends, short⟩ := normal.steps usable
  rw [normal.place d.home split, Location.folder_concat] at above
  refine (spot_eq_ok_iff d aim p _).2 ⟨?_, ?_⟩
  · rw [refusal?_eq p aim .object searched (by simp), usable.accepted]
  · rw [normal.plain.isAbsolute, if_pos rfl, split, normal.place d.home split]
    exact leads_down regular privileged aim linkLimit front name descends short [] above

theorem spot_missing (aim : Aim) (searched : aim ≠ .place)
    (clear : ∀ place, place <+: (p.place d.home).folder -> d.node? place = none ∨ d.FolderAt place)
    (missing : ¬ d.FolderAt (p.place d.home).folder) : d.spot aim p = .error .notFound := by
  obtain ⟨front, name, split, descends, short⟩ := normal.steps usable
  rw [normal.place d.home split, Location.folder_concat] at clear missing
  unfold spot reach
  rw [refusal?_eq p aim .object searched (by simp), usable.accepted, normal.plain.isAbsolute, if_pos rfl, split]
  exact walkSteps_missing privileged aim _ front name descends [] regular.rooted clear
    ((clear _ List.prefix_rfl).resolve_right missing)

theorem find_file {content : ByteArray} {mode : Nat} {modified : Instant}
    (held : d.node? (p.place d.home) = some (.file content mode modified)) :
    d.find p = .ok (p.place d.home, .file content mode modified) := by
  rw [find_eq_ok_iff, spot_reached regular privileged normal usable .object (by simp)
    (regular.toSound.folder_above _ _ held), spotAt, held]

theorem read_file {content : ByteArray} {mode : Nat} {modified : Instant}
    (held : d.node? (p.place d.home) = some (.file content mode modified)) : d.read p = .ok content := by
  simp [read, find_file regular privileged normal usable held, allows, privileged]

theorem entry_reached (above : d.FolderAt (p.place d.home).folder) :
    d.entry p = .ok (d.spotAt (p.place d.home)) := by
  rw [entry_eq_spot d p normal.ended]
  exact spot_reached regular privileged normal usable .entry (by simp) above

theorem makeFolder_privileged (above : d.FolderAt (p.place d.home).folder)
    (clear : d.node? (p.place d.home) = none ∨ d.FolderAt (p.place d.home)) :
    (∃ made, d.makeFolder p = .ok made ∧ made.FolderAt (p.place d.home)) ∨
      d.makeFolder p = .error .alreadyThere ∧ d.isFolder p = true ∧ d.FolderAt (p.place d.home) := by
  have reached := entry_reached regular privileged normal usable above
  unfold makeFolder
  rcases clear with missing | folder
  · obtain ⟨mode, modified, found⟩ := id above
    simp only [reached, spotAt, missing, mayChange_folder privileged above, if_true]
    refine .inl ⟨_, rfl, ?_⟩
    unfold FolderAt
    rw [node?_touch, node?_put_self]
    split <;> exact ⟨_, _, rfl⟩
  · obtain ⟨mode, modified, found⟩ := id folder
    have known := spot_reached regular privileged normal usable .object (by simp) above
    refine .inr ⟨?_, ?_, folder⟩
    · simp [reached, spotAt, found]
    · simp [isFolder, find, known, spotAt, found, Node.isFolder]

end

theorem Sound.root {d : Disk} (sound : d.Sound) :
    d.makeFolder ⟨"/"⟩ = .error .alreadyThere ∧ d.isFolder ⟨"/"⟩ = true := by
  obtain ⟨mode, modified, root⟩ := sound.rooted
  have opens : ∀ aim : Aim, d.Opens aim [] .folder := fun aim =>
    ⟨mode, modified, root, fun impossible => by simp [Aim.searches] at impossible⟩
  constructor
  · have reached := (entry_eq_ok_iff d ⟨"/"⟩ (.taken [] (.folder mode modified))).2
      ⟨by decide, .linger (.inl (by decide)) (opens .entry) (.stop root)⟩
    simp [makeFolder, reached]
  · have found := (find_leads_iff d ⟨"/"⟩ [] (.folder mode modified)).2
      ⟨by decide, .linger (.inl (by decide)) (opens .object) (.stop root)⟩
    simp [isFolder, found, Node.isFolder]

theorem node?_of_becomes {d after : Disk} {files : Files} (becomes : d.Becomes after [] files) {place : Location}
    (clear : d.node? place = none ∨ d.FolderAt place) : after.node? place = none ∨ after.FolderAt place := by
  have kept := becomes.kept place (by simp)
  cases found : after.node? place with
  | none => exact .inl rfl
  | some node =>
    cases node with
    | folder mode modified => exact .inr ⟨mode, modified, found⟩
    | link target => exact absurd found (becomes.later.regular.linkless place target)
    | file content mode modified =>
      rcases clear with missing | ⟨mode', modified', folder⟩
      · simp [file?, found, missing, Node.isFile] at kept
      · simp [file?, found, folder, Node.isFile, Option.filter] at kept

theorem makeFoldersUpTo_privileged (depth : Nat) (d : Disk) (regular : d.Regular)
    (privileged : d.privileged = true) (p : Path) (cases : p = ⟨"/"⟩ ∨ p.Normal ∧ p.Usable)
    (deep : p.components.length ≤ depth)
    (clear : ∀ place, place <+: p.place d.home -> d.node? place = none ∨ d.FolderAt place) :
    (d.makeFoldersUpTo depth p).1 = .ok () ∧ (d.makeFoldersUpTo depth p).2.FolderAt (p.place d.home) := by
  induction depth generalizing p with
  | zero =>
    rcases cases with rfl | ⟨normal, -⟩
    · exact absurd deep (by decide)
    · obtain ⟨names, spelt⟩ := normal.plain
      simp [spelt] at deep
  | succ depth ih =>
    rcases cases with rfl | ⟨normal, usable⟩
    · obtain ⟨there, folder⟩ := regular.toSound.root
      simp only [makeFoldersUpTo, there, folder]
      exact ⟨rfl, regular.rooted⟩
    · have filled : p.text ≠ "" := by
        intro empty
        have absolute := normal.plain.isAbsolute
        simp [Path.isAbsolute, empty] at absolute
      unfold makeFoldersUpTo
      rw [if_neg filled]
      by_cases above : d.FolderAt (p.place d.home).folder
      · rcases makeFolder_privileged regular privileged normal usable above (clear _ List.prefix_rfl) with
          ⟨made, done, folder⟩ | ⟨there, known, folder⟩
        · simp only [done]
          exact ⟨trivial, folder⟩
        · simp only [there, known, if_true]
          exact ⟨trivial, folder⟩
      · have within : ∀ place, place <+: (p.place d.home).folder -> place <+: p.place d.home :=
          fun place inside => List.IsPrefix.trans inside (List.dropLast_prefix _)
        -- The directory above is made first, with one level less.
        have missing : d.makeFolder p = .error .notFound := by
          rw [makeFolder, entry_eq_spot d p normal.ended, spot_missing regular privileged normal usable .entry
            (by simp) (fun place inside => clear place (within place inside)) above]
        obtain ⟨parent, known, place, shorter, cases⟩ := normal.parent usable d.home
        have place : parent.place d.home = (p.place d.home).folder := place
        have below := ih parent cases (by omega) fun there inside =>
          clear there (within there (place ▸ inside))
        have becomes := makeFoldersUpTo_becomes depth d regular parent
        rw [place] at below
        simp only [missing, known]
        generalize d.makeFoldersUpTo depth parent = outcome at below becomes ⊢
        obtain ⟨result, made⟩ := outcome
        obtain ⟨rfl, folder⟩ := below
        have home := becomes.later.home
        rw [← home] at folder
        rcases makeFolder_privileged becomes.later.regular (becomes.later.privileged.trans privileged) normal
          usable folder (by rw [home]; exact node?_of_becomes becomes (clear _ List.prefix_rfl)) with
          ⟨last, done, folder⟩ | ⟨there, known, folder⟩
        · rw [home] at folder
          simp only [done]
          exact ⟨trivial, folder⟩
        · rw [home] at folder
          simp only [there, known, if_true]
          exact ⟨trivial, folder⟩

end Disk

end Stowage

import Stowage.Proofs.Disk.Files
import Stowage.Proofs.Disk.Sound

set_option autoImplicit false

namespace Stowage

namespace Disk

def contents (d : Disk) : Files := d.content?

structure Later (d after : Disk) : Prop where
  regular : after.Regular
  privileged : after.privileged = d.privileged
  home : after.home = d.home
  now : after.now = d.now
  folders : ∀ place mode modified, d.node? place = some (.folder mode modified) ->
    ∃ other, after.node? place = some (.folder mode other)

theorem Later.refl {d : Disk} (regular : d.Regular) : d.Later d :=
  ⟨regular, rfl, rfl, rfl, fun _ _ modified found => ⟨modified, found⟩⟩

theorem Later.trans {d mid after : Disk} (first : d.Later mid) (second : mid.Later after) :
    d.Later after := by
  refine ⟨second.regular, second.privileged.trans first.privileged, second.home.trans first.home,
    second.now.trans first.now, ?_⟩
  intro place mode modified found
  obtain ⟨other, found'⟩ := first.folders place mode modified found
  exact second.folders place mode other found'

structure Fits (d : Disk) (place : Location) (node : Option Node) : Prop where
  folder : ∀ mode modified, d.node? place = some (.folder mode modified) ->
    ∃ other, node = some (.folder mode other)
  real : ∀ target, node ≠ some (.link target)
  hangs : node = none ∨ place = [] ∨ ∃ above name mode modified, place = above ++ [name] ∧
    Path.IsName name ∧ d.node? above = some (.folder mode modified)

theorem fits_self (d : Disk) (regular : d.Regular) (place : Location) : d.Fits place (d.node? place) := by
  refine ⟨fun mode modified found => ⟨modified, found⟩, regular.linkless place, ?_⟩
  induction place using List.reverseRecOn with
  | nil => exact .inr (.inl rfl)
  | append_singleton above name _ =>
    cases found : d.node? (above ++ [name]) with
    | none => exact .inl rfl
    | some node =>
      obtain ⟨mode, modified, folder⟩ := regular.hung above name node found
      exact .inr (.inr ⟨above, name, mode, modified, rfl, regular.named above name node found, folder⟩)

theorem later_of_fits {d after : Disk} (regular : d.Regular) (tidy : after.tree.Tidy)
    (privileged : after.privileged = d.privileged) (home : after.home = d.home)
    (now : after.now = d.now) (fits : ∀ place, d.Fits place (after.node? place)) : d.Later after := by
  have folders : ∀ place mode modified, d.node? place = some (.folder mode modified) ->
      ∃ other, after.node? place = some (.folder mode other) := fun place => (fits place).folder
  refine ⟨⟨⟨?_, ?_, ?_, tidy⟩, fun place => (fits place).real⟩, privileged, home, now, folders⟩
  · obtain ⟨mode, modified, root⟩ := regular.rooted
    obtain ⟨other, root'⟩ := folders [] mode modified root
    exact ⟨mode, other, root'⟩
  · intro place name node found
    rcases (fits (place ++ [name])).hangs with gone | root | ⟨above, other, mode, modified, same, -, folder⟩
    · rw [gone] at found
      cases found
    · simp at root
    · obtain ⟨rfl, -⟩ := List.append_inj' same rfl
      obtain ⟨age, folder'⟩ := folders place mode modified folder
      exact ⟨mode, age, folder'⟩
  · intro place name node found
    rcases (fits (place ++ [name])).hangs with gone | root | ⟨above, other, mode, modified, same, named, -⟩
    · rw [gone] at found
      cases found
    · simp at root
    · obtain ⟨-, single⟩ := List.append_inj' same rfl
      cases single
      exact named

theorem file?_touch (d : Disk) (place other : Location) : (d.touch place).file? other = d.file? other := by
  unfold file?
  rw [node?_touch]
  split
  · cases found : d.node? other with
    | none => rfl
    | some node => cases node <;> rfl
  · rfl

theorem tidy_touch (d : Disk) (tidy : d.tree.Tidy) (place : Location) : (d.touch place).tree.Tidy := by
  unfold touch
  split
  · exact Tree.tidy_graft _ _ _ _ (fun _ kept => kept) tidy
  · exact tidy

theorem touch_later (d : Disk) (regular : d.Regular) (place : Location) : d.Later (d.touch place) := by
  refine later_of_fits regular (tidy_touch d regular.tidy place) (touch_privileged d place)
    (touch_home d place) (touch_now d place) fun other => ?_
  rw [node?_touch]
  have same := fits_self d regular other
  split
  · cases found : d.node? other with
    | none => simpa [found] using same
    | some node =>
      rw [found] at same
      cases node with
      | folder mode modified => exact ⟨fun _ _ held => by simp_all [Node.touched], by simp [Node.touched],
          same.hangs.imp_left (by simp)⟩
      | file | link => exact same
  · exact same

theorem put_later (d : Disk) (regular : d.Regular) (place : Location) (node : Node)
    (fits : d.Fits place (some node)) : d.Later (d.put place node) := by
  refine later_of_fits regular (Tree.tidy_graft _ _ _ _ (fun _ kept => kept) regular.tidy) rfl rfl rfl
    fun other => ?_
  by_cases same : other = place
  · subst same
    rw [node?_put_self]
    exact fits
  · rw [node?_put_other d place other node same]
    exact fits_self d regular other

theorem erase_later (d : Disk) (regular : d.Regular) (place : Location)
    (solid : ∀ mode modified, d.node? place ≠ some (.folder mode modified)) :
    d.Later (d.erase place) := by
  refine later_of_fits regular (Tree.tidy_graft _ _ _ _ (fun _ kept => kept) regular.tidy) rfl rfl rfl
    fun other => ?_
  by_cases same : other = place
  · subst same
    rw [node?_erase_self]
    exact ⟨fun mode modified found => absurd found (solid mode modified), by simp, .inl rfl⟩
  · rw [node?_erase_other d place other same]
    exact fits_self d regular other

theorem file?_put_self (d : Disk) (place : Location) (node : Node) :
    (d.put place node).file? place = (some node).filter Node.isFile := by
  rw [file?, node?_put_self]

theorem file?_put_other (d : Disk) (place other : Location) (node : Node) (differs : other ≠ place) :
    (d.put place node).file? other = d.file? other := by
  rw [file?, node?_put_other d place other node differs, file?]

theorem file?_erase_other (d : Disk) (place other : Location) (differs : other ≠ place) :
    (d.erase place).file? other = d.file? other := by
  rw [file?, node?_erase_other d place other differs, file?]

/-- A later state in which only the files at some places may be others, and what its files hold. -/
structure Becomes (d after : Disk) (places : List Location) (files : Files) : Prop where
  later : d.Later after
  kept : ∀ place, place ∉ places -> after.file? place = d.file? place
  held : after.contents = files

theorem Becomes.refl {d : Disk} (regular : d.Regular) : d.Becomes d [] d.contents :=
  ⟨.refl regular, fun _ _ => rfl, rfl⟩

theorem Becomes.trans {d mid after : Disk} {places others : List Location} {files files' : Files}
    (first : d.Becomes mid places files) (second : mid.Becomes after others files') :
    d.Becomes after (places ++ others) files' := by
  refine ⟨first.later.trans second.later, fun place outside => ?_, second.held⟩
  have apart : place ∉ places ∧ place ∉ others := by simpa using outside
  rw [second.kept place apart.2, first.kept place apart.1]

theorem Becomes.more {d after : Disk} {places others : List Location} {files : Files}
    (first : d.Becomes after places files) (within : ∀ place ∈ places, place ∈ others) :
    d.Becomes after others files :=
  ⟨first.later, fun place outside => first.kept place fun member => outside (within place member),
    first.held⟩

theorem Becomes.content? {d after : Disk} {places : List Location} {files : Files}
    (becomes : d.Becomes after places files) (place : Location) (outside : place ∉ places) :
    after.content? place = d.content? place :=
  content?_congr (becomes.kept place outside)

theorem becomes_of_kept {d after : Disk} {places : List Location} {files : Files}
    (later : d.Later after) (kept : ∀ place, place ∉ places -> after.file? place = d.file? place)
    (changed : ∀ place ∈ places, after.content? place = files place)
    (same : ∀ place, place ∉ places -> d.content? place = files place) :
    d.Becomes after places files := by
  refine ⟨later, kept, funext fun place => ?_⟩
  by_cases inside : place ∈ places
  · exact changed place inside
  · exact (content?_congr (kept place inside)).trans (same place inside)

theorem Becomes.touch {d after : Disk} {places : List Location} {files : Files}
    (becomes : d.Becomes after places files) (place : Location) :
    d.Becomes (after.touch place) places files := by
  have same : ∀ other, (after.touch place).file? other = after.file? other := file?_touch after place
  refine ⟨becomes.later.trans (touch_later after becomes.later.regular place), ?_, ?_⟩
  · intro other outside
    rw [same, becomes.kept other outside]
  · rw [← becomes.held]
    exact funext fun other => content?_congr (same other)

theorem becomes_put (d : Disk) (regular : d.Regular) (place : Location) (content : ByteArray)
    (mode : Nat) (modified : Instant) (fits : d.Fits place (some (.file content mode modified))) :
    d.Becomes (d.put place (.file content mode modified)) [place]
      (Function.update d.contents place (some content)) := by
  refine becomes_of_kept (put_later d regular place _ fits) ?_ ?_ ?_
  · intro other outside
    exact file?_put_other d place other _ (by simpa using outside)
  · intro other inside
    obtain rfl : other = place := by simpa using inside
    rw [Function.update_self, content?_eq_some_iff]
    exact ⟨mode, modified, node?_put_self d other _⟩
  · intro other outside
    rw [Function.update_of_ne (by simpa using outside)]
    rfl

theorem becomes_erase (d : Disk) (regular : d.Regular) (place : Location)
    (solid : ∀ mode modified, d.node? place ≠ some (.folder mode modified)) :
    d.Becomes (d.erase place) [place] (d.contents.drop place) := by
  refine becomes_of_kept (erase_later d regular place solid) ?_ ?_ ?_
  · intro other outside
    exact file?_erase_other d place other (by simpa using outside)
  · intro other inside
    obtain rfl : other = place := by simpa using inside
    rw [Files.drop, Function.update_self, content?, node?_erase_self]
  · intro other outside
    rw [Files.drop, Function.update_of_ne (by simpa using outside)]
    rfl

end Disk

end Stowage

import Stowage.Proofs.Disk.Effects
import Stowage.Relocation.Carrier

set_option autoImplicit false

namespace Stowage

theorem Node.Alike.trans {first second third : Node} (alike : first.Alike second) (alike' : second.Alike third) :
    first.Alike third := by
  cases first <;> cases second <;> cases third <;> simp_all [Node.Alike]

namespace Disk

structure Extends (d after : Disk) : Prop where
  sound : after.Sound
  privileged : after.privileged = d.privileged
  home : after.home = d.home
  kept : ∀ place node, d.node? place = some node -> ∃ same, after.node? place = some same ∧ node.Alike same

variable {d mid after : Disk}

theorem Extends.refl (sound : d.Sound) : d.Extends d :=
  ⟨sound, rfl, rfl, fun _ node found => ⟨node, found, .refl node⟩⟩

theorem Extends.trans (first : d.Extends mid) (second : mid.Extends after) : d.Extends after := by
  refine ⟨second.sound, second.privileged.trans first.privileged, second.home.trans first.home,
    fun place node found => ?_⟩
  obtain ⟨same, found', alike⟩ := first.kept place node found
  obtain ⟨same', found'', alike'⟩ := second.kept place same found'
  exact ⟨same', found'', alike.trans alike'⟩

theorem Extends.isThere (extends' : d.Extends after) {p : Path} (there : d.isThere p = true) :
    after.isThere p = true := by
  obtain ⟨place, node, found⟩ := (d.isThere_iff p).1 there
  obtain ⟨accepted, leads⟩ := (find_leads_iff d p place node).1 found
  obtain ⟨same, -, leads'⟩ := leads.alike extends'.privileged fun other held known _ =>
    extends'.kept other held known
  rw [← extends'.home] at leads'
  exact (after.isThere_iff p).2 ⟨place, same, (find_leads_iff after p place same).2 ⟨accepted, leads'⟩⟩

theorem touch_extends (sound : d.Sound) (place : Location) : d.Extends (d.touch place) := by
  have folders : ∀ other mode modified, d.node? other = some (.folder mode modified) ->
      ∃ mode modified, (d.touch place).node? other = some (.folder mode modified) := by
    intro other mode modified found
    obtain ⟨same, found', alike⟩ := alike_touch d place other _ found
    obtain ⟨modified', rfl⟩ := alike.folder
    exact ⟨mode, modified', found'⟩
  refine ⟨⟨?_, ?_, ?_, tidy_touch d sound.tidy place⟩, touch_privileged d place, touch_home d place,
    alike_touch d place⟩
  · obtain ⟨mode, modified, root⟩ := sound.rooted
    exact folders [] mode modified root
  · intro above name node found
    obtain ⟨same, found', -⟩ := alike_of_touch d place _ node found
    obtain ⟨mode, modified, folder⟩ := sound.hung above name same found'
    exact folders above mode modified folder
  · intro above name node found
    obtain ⟨same, found', -⟩ := alike_of_touch d place _ node found
    exact sound.named above name same found'

theorem put_extends (sound : d.Sound) {above : Location} {name : String} (node : Node)
    (missing : d.node? (above ++ [name]) = none) (named : Path.IsName name)
    (folder : ∃ mode modified, d.node? above = some (.folder mode modified)) :
    d.Extends (d.put (above ++ [name]) node) := by
  have kept : ∀ place held, d.node? place = some held -> (d.put (above ++ [name]) node).node? place = some held := by
    intro place held found
    rw [node?_put_other, found]
    rintro rfl
    cases missing.symm.trans found
  refine ⟨⟨?_, ?_, ?_, Tree.tidy_graft _ _ _ _ (fun _ kept => kept) sound.tidy⟩, rfl, rfl,
    fun place held found => ⟨held, kept place held found, .refl held⟩⟩
  · obtain ⟨mode, modified, root⟩ := sound.rooted
    exact ⟨mode, modified, kept [] _ root⟩
  · intro place last other found
    by_cases same : place ++ [last] = above ++ [name]
    · obtain ⟨rfl, -⟩ := List.append_inj' same rfl
      obtain ⟨mode, modified, found'⟩ := folder
      exact ⟨mode, modified, kept place _ found'⟩
    · rw [node?_put_other _ _ _ _ same] at found
      obtain ⟨mode, modified, found'⟩ := sound.hung place last other found
      exact ⟨mode, modified, kept place _ found'⟩
  · intro place last other found
    by_cases same : place ++ [last] = above ++ [name]
    · obtain ⟨-, single⟩ := List.append_inj' same rfl
      cases single
      exact named
    · rw [node?_put_other _ _ _ _ same] at found
      exact sound.named place last other found

theorem Leads.freed {aim : Aim} {links : Nat} {here place : Location} {steps : List Step}
    (leads : d.Leads aim links here steps (.free place)) (named : ∀ name, .enter name ∈ steps -> Path.IsName name) :
    ∃ above name, place = above ++ [name] ∧ Path.IsName name ∧ d.node? (above ++ [name]) = none ∧
      ∃ mode modified, d.node? above = some (.folder mode modified) := by
  generalize reached : Spot.free place = spot at leads
  induction leads with
  | stop | halt => cases reached
  | linger _ _ _ ih | up _ _ ih | enter _ _ _ _ _ _ ih =>
    exact ih (fun name inside => named name (List.mem_cons_of_mem _ inside)) reached
  | free opens _ missing =>
    cases reached
    obtain ⟨mode, modified, folder, -⟩ := opens
    exact ⟨_, _, rfl, named _ List.mem_cons_self, missing, mode, modified, folder⟩
  | follow _ _ _ _ _ _ ih =>
    refine ih (fun name inside => ?_) reached
    rcases List.mem_append.1 inside with linked | later
    · exact Path.isName_of_enter _ name linked
    · exact named name (List.mem_cons_of_mem _ later)

theorem makeFolder_extends (sound : d.Sound) {p : Path} (made : d.makeFolder p = .ok after) : d.Extends after := by
  obtain ⟨place, reached, -, rfl⟩ := makeFolder_eq_ok made
  obtain ⟨-, leads⟩ := (entry_eq_ok_iff d p _).1 reached
  obtain ⟨above, name, rfl, named, missing, folder⟩ := leads.freed (Path.isName_of_enter p.withoutEnd)
  have put := put_extends sound (.folder newFolderMode d.now) missing named folder
  exact put.trans (touch_extends put.sound _)

theorem makeFolders_extends (sound : d.Sound) (p : Path) : d.Extends (d.makeFolders p).2 :=
  makeFoldersUpTo_related (fun d after => d.Sound -> d.Extends after) (fun _ => .refl)
    (fun first second sound => (first sound).trans (second (first sound).sound))
    (fun made sound => makeFolder_extends sound made) _ d p sound

end Disk

theorem Carrier.ensureParent_extends {d : Disk} (sound : d.Sound) (path : Path) :
    d.Extends (ensureParent d path).2 := by
  unfold ensureParent
  split
  · exact .refl sound
  next parent _ =>
    have made := Disk.makeFolders_extends sound parent
    split <;> simp_all

end Stowage

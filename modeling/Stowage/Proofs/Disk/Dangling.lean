import Stowage.Proofs.Disk.Effects

set_option autoImplicit false

namespace Stowage.Disk

def Searchable (d : Disk) : Prop :=
  ∀ place mode modified, d.node? place = some (.folder mode modified) -> d.allows searchBit mode = true

def stands (d : Disk) (p : Path) : Bool :=
  match d.entry p with
  | .ok (.taken _ _) => true
  | _ => false

/-- Whether a name is that of a link that leads nowhere. -/
def dangles (d : Disk) (p : Path) : Bool :=
  match d.entry p with
  | .ok (.taken _ (.link _)) => !d.isThere p
  | _ => false

variable {d : Disk}

theorem Leads.searched {aim : Aim} {links : Nat} {here : Location} {steps : List Step} {spot : Spot}
    (searchable : d.Searchable) (leads : { d with privileged := true }.Leads aim links here steps spot) :
    d.Leads aim links here steps spot := by
  refine leads.retaken (fun _ => rfl) ?_ id (fun _ _ _ stops => stops) fun _ _ _ follows => follows
  rintro here step ⟨mode, modified, folder, -⟩
  exact ⟨mode, modified, folder, fun _ => searchable here mode modified folder⟩

theorem Searchable.isThere (searchable : d.Searchable) {p : Path}
    (there : { d with privileged := true }.isThere p = true) : d.isThere p = true := by
  obtain ⟨place, node, found⟩ := (isThere_iff _ p).1 there
  obtain ⟨accepted, leads⟩ := (find_leads_iff _ p place node).1 found
  exact (d.isThere_iff p).2 ⟨place, node, (find_leads_iff d p place node).2 ⟨accepted, leads.searched searchable⟩⟩

theorem dangles_eq {p : Path} (ended : p.endsInSeparator = false) (stands : d.stands p = true) :
    d.dangles p = !d.isThere p := by
  unfold Disk.stands at stands
  unfold dangles
  split at stands
  next place node known =>
    cases node with
    | link target => rw [known]
    | folder | file =>
      rw [entry_eq_spot d p ended] at known
      obtain ⟨accepted, leads⟩ := (spot_eq_ok_iff d .entry p _).1 known
      have found := (find_leads_iff d p _ _).2
        ⟨accepted, leads.object (by simp) (by simp)⟩
      rw [entry_eq_spot d p ended, known, (d.isThere_iff p).2 ⟨_, _, found⟩]
      rfl
  · cases stands

instance (d : Disk) : Decidable d.Searchable :=
  decidable_of_iff (∀ entry ∈ d.nodes, ∀ node ∈ d.node? entry.1,
      ∀ mode ∈ (match node with | .folder mode _ => some mode | _ => none : Option Nat),
        d.allows searchBit mode = true) <| by
    constructor
    · intro listed place mode modified folder
      exact listed _ (d.mem_nodes_of_node? place _ folder) _ folder mode rfl
    · rintro searchable entry - node found mode own
      split at own <;> cases own
      exact searchable _ _ _ found

end Stowage.Disk

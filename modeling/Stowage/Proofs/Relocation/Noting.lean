import Stowage.Proofs.Relocation.Moving

set_option autoImplicit false

namespace Stowage

def Action.isRelocation : Action -> Bool
  | relocate _ => true
  | _ => false

theorem Site.createDir_ledger (site : Site) (dir : Path) :
    ∃ entries, (site.createDir dir).2.ledger = site.ledger ++ entries ∧
      ∀ entry ∈ entries, entry.action = .createDir := by
  unfold createDir
  split
  · exact ⟨[], by simp⟩
  · split
    · exact ⟨[], by simp⟩
    · exact ⟨_, rfl, by simp⟩

namespace Carrier

section

variable {carrier : Carrier} {site after : Site} {source destination : Path} {decision : Decision}

structure Noted (site after : Site) (source : Path) (decision : Decision) (executed : Executed) : Prop where
  ledger : after.ledger = site.ledger ++ [executed.entry]
  entry : ∃ landed backup time, executed.entry = ⟨.relocate decision, source, some landed, backup, time⟩

theorem noted_finish (d : Disk) (landed : Path) (backup : Option Path) (incomplete : Option RelocationError) :
    Noted site (carrier.finish { site with disk := d } decision source landed backup incomplete).2 source decision
      (carrier.finish { site with disk := d } decision source landed backup incomplete).1 :=
  ⟨finish_ledger .., landed, backup, finish_entry ..⟩

inductive Failed (carrier : Carrier) (site : Site) (destination : Path) : Decision -> Site -> Prop
  | refused {decision : Decision} : Failed carrier site destination decision site
  | stopped {decision : Decision} :
    Failed carrier site destination decision
      { site with disk := (ensureParent site.disk destination).2 }
  | backed {copied : Disk}
    (done : site.disk.copy destination (carrier.sibling site.disk destination "backup") = .ok copied) :
    Failed carrier site destination .updateNewer
      ({ site with disk := copied }.record .backup destination
        (some (carrier.sibling site.disk destination "backup")) none).2

inductive Ended (carrier : Carrier) (site : Site) (source destination : Path) (decision : Decision) :
    Except RelocationError Executed × Site -> Prop
  | done {executed : Executed} {after : Site} (noted : Noted site after source decision executed) :
    Ended carrier site source destination decision (.ok executed, after)
  | failed {error : RelocationError} {after : Site} (failed : Failed carrier site destination decision after) :
    Ended carrier site source destination decision (.error error, after)

theorem executeMove_ended :
    Ended carrier site source destination .move (carrier.executeMove site source destination) := by
  have stopped : Failed carrier site destination .move
      { site with disk := (ensureParent site.disk destination).2 } := .stopped
  unfold executeMove
  generalize ensureParent site.disk destination = parent at stopped ⊢
  obtain ⟨outcome, made⟩ := parent
  cases outcome with
  | error error => exact .failed stopped
  | ok =>
    simp only
    split
    · exact .failed stopped
    · exact .done (noted_finish ..)

theorem executeConflict_ended :
    Ended carrier site source destination .conflict (carrier.executeConflict site source destination) := by
  have stopped : Failed carrier site destination .conflict
      { site with disk := (ensureParent site.disk destination).2 } := .stopped
  unfold executeConflict
  generalize ensureParent site.disk destination = parent at stopped ⊢
  obtain ⟨outcome, made⟩ := parent
  cases outcome with
  | error error => exact .failed stopped
  | ok =>
    simp only
    split
    · exact .failed stopped
    · exact .done (noted_finish ..)

theorem executeDrop_ended :
    Ended carrier site source destination decision (carrier.executeDrop site decision source destination) := by
  unfold executeDrop
  split
  · exact .failed .refused
  · exact .done (noted_finish ..)

theorem executeUpdate_ended :
    Ended carrier site source destination .updateNewer (carrier.executeUpdate site source destination) := by
  unfold executeUpdate
  simp only
  split
  · exact .failed .refused
  next copied done =>
    split
    · exact .failed (.backed done)
    · exact .done (noted_finish ..)

theorem execute_ended (carrier : Carrier) (site : Site) (decision : Decision) (source destination : Path) :
    Ended carrier site source destination decision (carrier.execute site decision source destination) := by
  unfold execute
  split
  · exact .failed .refused
  · cases decision with
    | move => exact executeMove_ended
    | updateNewer => exact executeUpdate_ended
    | skipOlder => exact executeDrop_ended
    | identical => exact executeDrop_ended
    | conflict => exact executeConflict_ended

theorem Failed.ledger (failed : Failed carrier site destination decision after) :
    ∃ entries, after.ledger = site.ledger ++ entries ∧ ∀ entry ∈ entries, entry.action = .backup := by
  cases failed with
  | refused | stopped => exact ⟨[], by simp⟩
  | backed => exact ⟨_, rfl, by simp⟩

end

end Carrier

end Stowage

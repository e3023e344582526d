import Stowage.Proofs.Disk.Effects
import Stowage.Proofs.Path.Parents
import Stowage.Proofs.Relocation.Siblings

set_option autoImplicit false

namespace Stowage

namespace Disk

theorem entry_place (d : Disk) (regular : d.Regular) (p : Path) (place : Location) (node : Node)
    (reached : d.entry p = .ok (.taken place node)) : place = p.place d.home ∧ d.node? place = some node := by
  obtain ⟨-, leads⟩ := (entry_eq_ok_iff d p _).1 reached
  have own := leads.found
  rcases leads.place regular (Path.isName_of_enter p.withoutEnd) with ⟨other, here⟩ | ⟨_, _, impossible, _⟩
  · cases here
    rw [Path.follow_withoutEnd] at own ⊢
    exact ⟨rfl, own⟩
  · cases impossible

theorem rename?_held (d : Disk) (regular : d.Regular) (origin target : Path) (after : Disk) (content : ByteArray)
    (there : d.contents (origin.place d.home) = some content) (renamed : d.rename? origin target = some after) :
    ∃ mode modified, d.find origin = .ok (origin.place d.home, .file content mode modified) := by
  obtain ⟨mode, modified, node⟩ := (content?_eq_some_iff d _ content).1 there
  obtain ⟨r, ends, level, -⟩ := rename?_eq_some renamed
  have reached := (renaming?_ends d origin target r ends).1
  obtain ⟨old, own⟩ := entry_place d regular origin _ _ reached
  rw [old, node] at own
  obtain own := Option.some.inj own
  have ended := (level (by rw [← own]; rfl)).1
  rw [entry_eq_spot d origin ended, old, ← own] at reached
  exact ⟨mode, modified, find_of_spot d regular .entry (by simp) origin _ _ reached⟩

end Disk

namespace Carrier

def Movable (d : Disk) (origin : Path) : Prop :=
  d.privileged = true ∧ Disk.endsInName origin = true

def Brought (d after : Disk) (origin target : Path) : Prop :=
  d.Becomes after [origin.place d.home, target.place d.home]
      (d.contents.carry (origin.place d.home) (target.place d.home)) ∨
    ¬ Movable d origin ∧ d.Becomes after [origin.place d.home, target.place d.home]
      (d.contents.copy (origin.place d.home) (target.place d.home))

def HasFile (d : Disk) (p : Path) : Prop :=
  ∃ content mode modified, d.find p = .ok (p.place d.home, .file content mode modified)

theorem HasFile.contents {d : Disk} {p : Path} (held : HasFile d p) :
    ∃ content, d.contents (p.place d.home) = some content := by
  obtain ⟨content, mode, modified, found⟩ := held
  exact ⟨content, (Disk.content?_eq_some_iff d _ content).2
    ⟨mode, modified, Disk.find_node d p _ _ found⟩⟩

theorem HasFile.later {d after : Disk} {p : Path} (regular : d.Regular) {places : List Location}
    {files : Files} (becomes : d.Becomes after places files) (outside : p.place d.home ∉ places)
    (held : HasFile d p) : HasFile after p := by
  obtain ⟨content, mode, modified, found⟩ := held
  refine ⟨content, mode, modified, ?_⟩
  rw [becomes.later.home]
  exact Disk.find_later d after regular becomes.later p _ _ found rfl (becomes.kept _ outside)

/-- How a file comes to another path. It is renamed, or a copy of it is made; of the two files the first is removed then,
unless that fails. -/
inductive Moves (d : Disk) (origin target : Path) : Option RelocationError -> Disk -> Prop
  | renamed {moved : Disk} (done : d.rename? origin target = some moved) : Moves d origin target none moved
  | replaced {copied moved : Disk} (done : d.copy origin target = .ok copied)
    (gone : copied.removeFile origin = .ok moved) : Moves d origin target none moved
  | doubled {copied : Disk} {problem : DiskError} (done : d.copy origin target = .ok copied)
    (stuck : copied.removeFile origin = .error problem) : Moves d origin target (some (.remove origin problem)) copied

theorem moves_of_moveFile {d moved : Disk} {origin target : Path} {incomplete : Option RelocationError}
    (ran : moveFile d origin target = .ok (incomplete, moved)) : Moves d origin target incomplete moved := by
  unfold moveFile at ran
  split at ran
  next renamed done =>
    cases ran
    exact .renamed done
  · split at ran
    · cases ran
    next copied done =>
      split at ran
      next problem stuck =>
        cases ran
        exact .doubled done stuck
      next after gone =>
        cases ran
        exact .replaced done gone

theorem moveFile_held (d : Disk) (regular : d.Regular) (origin target : Path) (moved : Disk)
    (incomplete : Option RelocationError) (there : ∃ content, d.contents (origin.place d.home) = some content)
    (ran : moveFile d origin target = .ok (incomplete, moved)) : HasFile d origin := by
  obtain ⟨content, there⟩ := there
  cases moves_of_moveFile ran with
  | renamed done => exact ⟨content, Disk.rename?_held d regular origin target moved content there done⟩
  | replaced done | doubled done => exact (Disk.copy_vacant d regular origin target _ done).2

theorem moveFile_vacant (d : Disk) (regular : d.Regular) (origin target : Path) (moved : Disk)
    (incomplete : Option RelocationError) (held : HasFile d origin)
    (ran : moveFile d origin target = .ok (incomplete, moved)) : d.Vacant target := by
  obtain ⟨content, mode, modified, found⟩ := held
  cases moves_of_moveFile ran with
  | renamed done =>
    obtain ⟨⟨spot, reached, solid⟩, -⟩ :=
      Disk.rename?_some d regular origin target content mode modified moved found done
    exact (Disk.vacant_of_spot d regular .entry (by simp) target spot reached solid).1
  | replaced done | doubled done => exact (Disk.copy_vacant d regular origin target _ done).1

theorem moveFile_brought (d : Disk) (regular : d.Regular) (origin target : Path) (moved : Disk)
    (incomplete : Option RelocationError) (apart : target.place d.home ≠ origin.place d.home)
    (held : HasFile d origin) (ran : moveFile d origin target = .ok (incomplete, moved)) :
    Brought d moved origin target := by
  obtain ⟨content, mode, modified, found⟩ := held
  cases moves_of_moveFile ran with
  | renamed done =>
    exact .inl (Disk.rename?_becomes d regular origin target content mode modified moved apart found done)
  | replaced done gone =>
    have becomes := Disk.copy_becomes d regular origin target _ apart done
    obtain ⟨left, -⟩ := Disk.removeFile_becomes _ becomes.later.regular origin moved gone
    rw [becomes.held, becomes.later.home] at left
    refine .inl ((becomes.trans left).more ?_)
    intro place inside
    simpa [or_comm] using inside
  | doubled done stuck =>
    have becomes := Disk.copy_becomes d regular origin target moved apart done
    refine .inr ⟨?_, becomes.more (by simp)⟩
    -- Were the source movable, taking it away would not have failed.
    rintro ⟨privileged, named⟩
    obtain ⟨content', mode', modified', found'⟩ :=
      HasFile.later regular becomes (by simpa using Ne.symm apart) ⟨content, mode, modified, found⟩
    obtain ⟨after, removed⟩ := Disk.removeFile_privileged moved becomes.later.regular
      (becomes.later.privileged.trans privileged) origin content' mode' modified' named found'
    rw [stuck] at removed
    cases removed

theorem Brought.landed {d after : Disk} {origin target : Path} (apart : target.place d.home ≠ origin.place d.home)
    (brought : Brought d after origin target) :
    after.contents (target.place d.home) = d.contents (origin.place d.home) := by
  rcases brought with carried | ⟨-, copied⟩
  · rw [carried.held, Files.carry, Files.drop, Function.update_of_ne apart, Files.copy, Function.update_self]
  · rw [copied.held, Files.copy, Function.update_self]

theorem Brought.contents {d after : Disk} {origin target : Path} (held : HasFile d origin)
    (apart : target.place d.home ≠ origin.place d.home) (brought : Brought d after origin target) :
    ∃ content, after.contents (target.place d.home) = some content := by
  obtain ⟨content, own⟩ := held.contents
  exact ⟨content, (brought.landed apart).trans own⟩

theorem Brought.then {d mid after : Disk} {origin target : Path} (brought : Brought d mid origin target)
    (onward : mid.Becomes after [target.place d.home] mid.contents) :
    Brought d after origin target := by
  have within : ∀ place ∈ [origin.place d.home, target.place d.home] ++ [target.place d.home],
      place ∈ [origin.place d.home, target.place d.home] := by simp
  rcases brought with carried | ⟨stuck, copied⟩
  · rw [carried.held] at onward
    exact .inl ((carried.trans onward).more within)
  · rw [copied.held] at onward
    exact .inr ⟨stuck, (copied.trans onward).more within⟩

theorem finish_ledger (carrier : Carrier) (site : Site) (decision : Decision) (source landed : Path)
    (backup : Option Path) (incomplete : Option RelocationError) :
    (carrier.finish site decision source landed backup incomplete).2.ledger =
      site.ledger ++ [(carrier.finish site decision source landed backup incomplete).1.entry] := rfl

theorem finish_entry (carrier : Carrier) (site : Site) (decision : Decision) (source landed : Path)
    (backup : Option Path) (incomplete : Option RelocationError) :
    ∃ time, (carrier.finish site decision source landed backup incomplete).1.entry =
      ⟨.relocate decision, source, some landed, backup, time⟩ := ⟨_, rfl⟩

theorem finish_marks (carrier : Carrier) (site : Site) (decision : Decision) (source landed : Path)
    (backup : Option Path) (incomplete : Option RelocationError) :
    (carrier.finish site decision source landed backup incomplete).2.disk = site.disk ∨
      site.disk.setMode landed Disk.executableMode =
        .ok (carrier.finish site decision source landed backup incomplete).2.disk := by
  unfold finish Site.record
  simp only
  split
  · split
    next marked ran =>
      unfold markExecutable at ran
      simp only [ite_eq_iff] at ran
      rcases ran with ⟨-, ran⟩ | ⟨-, ran⟩
      · split at ran
        next after changed =>
          cases ran
          exact .inr changed
        · cases ran
      · cases ran
        exact .inl rfl
    · exact .inl rfl
  · exact .inl rfl

theorem finish_becomes (carrier : Carrier) (site : Site) (regular : site.disk.Regular)
    (decision : Decision) (source landed : Path) (backup : Option Path)
    (incomplete : Option RelocationError) (executed : Executed) (done : Site) (content : ByteArray)
    (held : site.disk.contents (landed.place site.disk.home) = some content)
    (ran : carrier.finish site decision source landed backup incomplete = (executed, done)) :
    site.disk.Becomes done.disk [landed.place site.disk.home] site.disk.contents := by
  obtain ⟨-, rfl⟩ := Prod.ext_iff.1 ran
  rcases carrier.finish_marks site decision source landed backup incomplete with same | marked
  · rw [same]
    exact (Disk.Becomes.refl regular).more (by simp)
  · exact Disk.setMode_becomes _ regular landed _ _ content held marked

theorem Brought.later {d after : Disk} {origin target : Path} (brought : Brought d after origin target) :
    d.Later after := by
  rcases brought with carried | ⟨-, copied⟩
  · exact carried.later
  · exact copied.later

theorem finish_brought (carrier : Carrier) (d moved : Disk) (ledger : Ledger) (decision : Decision)
    (source landed : Path) (backup : Option Path) (incomplete : Option RelocationError)
    (apart : landed.place d.home ≠ source.place d.home) (held : HasFile d source)
    (brought : Brought d moved source landed) :
    Brought d (carrier.finish ⟨moved, ledger⟩ decision source landed backup incomplete).2.disk source
      landed := by
  obtain ⟨content, own⟩ := brought.contents held apart
  rw [← brought.later.home] at own
  have onward := finish_becomes carrier ⟨moved, ledger⟩ brought.later.regular decision source landed
    backup incomplete _ _ content own rfl
  rw [brought.later.home] at onward
  exact brought.then onward

theorem finish_disk (carrier : Carrier) (site : Site) (decision : Decision) (source landed : Path)
    (backup : Option Path) (incomplete : Option RelocationError)
    (unmarked : decision ≠ .move ∧ decision ≠ .updateNewer) :
    (carrier.finish site decision source landed backup incomplete).2.disk = site.disk := by
  simp [finish, Site.record, unmarked.1, unmarked.2]

theorem ensureParent_becomes (d : Disk) (regular : d.Regular) (path : Path) :
    d.Becomes (ensureParent d path).2 [] d.contents := by
  unfold ensureParent
  split
  · exact .refl regular
  next parent _ =>
    have made := Disk.makeFolders_becomes d regular parent
    split <;> simp_all

end Carrier

end Stowage
